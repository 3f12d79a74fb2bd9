import Cacophony.Channel

/-!
What comes out of a decryptor was put in by the sender, and comes out once.

Along a run of ratchet changes and arriving frames, every manager keeps the books over the numbers
it accepted, and no manager outlives the books of another. If the keys of a ratchet open none of
the frames that arrive but what was sealed with them, each decrypted frame has the clear and the
hidden bytes of a frame that was sent under the ratchet. Where the clear bytes stand among the
hidden ones is not authenticated: it is read from the trailer of the frame that arrived.
-/

namespace Cacophony.Authenticity

open Gcm Cacophony.Frame FrameCodecs Runs Ratchet
open Receiver Replay SenderNonces KeyLifetime
open Generations SealedFrames UserDecryptor Channel

/-- A ratchet that a decryptor was given. -/
structure Installed where
  index : ℕ
  secret : Bytes
  deriving DecidableEq

/-- A frame that was decrypted: the ratchet, the number and the bytes. -/
structure Output where
  ratchet : ℕ
  number : ℕ
  bytes : Bytes
  deriving DecidableEq

variable (A : Aead) (K : Kdf)

/-- The ratchet that opens a frame, and the number it is accepted with. -/
def openedBy (parsed : ParsedFrame) (now : Readings) :
    List ManagedRatchet → List Installed → Option (ℕ × ℕ)
  | m :: ms, x :: xs =>
    match (m.manager.decrypt A K parsed now).1 with
    | none => none
    | some (.ok _) =>
      some (x.index, wrappedNonce (m.manager.generationOf parsed) parsed.truncatedNonce)
    | some (.error _) => openedBy parsed now ms xs
  | _, _ => none

/-- A decryptor, its ratchets from the newest on, and what it decrypted. -/
structure Inbox where
  decryptor : Decryptor
  installed : List Installed := []
  outputs : List Output := []

inductive Event
  | transitionToRatchet (secret : Bytes) (now : ℕ)
  | decrypt (arrival : Arrival)

def Inbox.step (s : Inbox) : Event → Inbox
  | .transitionToRatchet secret now => { s with
      decryptor := s.decryptor.transitionToRatchet (.new secret) now
      installed := ⟨s.installed.length, secret⟩ :: s.installed }
  | .decrypt arrival =>
    let (result, decryptor) := receive A K s.decryptor arrival
    let opened := (arrival.encrypted s.decryptor.clock).bind fun call =>
      openedBy A K call.1 (reading call.2)
        (s.decryptor.cleanupExpiredManagers arrival.now).managers.reverse s.installed
    { s with
      decryptor
      outputs := opened.elim s.outputs fun (ratchet, number) =>
        match result with
        | some (.ok bytes) => s.outputs ++ [⟨ratchet, number, bytes⟩]
        | _ => s.outputs }

/-- The numbers that came out of ratchet `i`. -/
def numbersOf (outputs : List Output) (i : ℕ) : List ℕ :=
  (outputs.filter fun o => o.ratchet = i).map Output.number

lemma numbersOf_append (outputs : List Output) (o : Output) (i : ℕ) :
    numbersOf (outputs ++ [o]) i =
      if o.ratchet = i then numbersOf outputs i ++ [o.number] else numbersOf outputs i := by
  unfold numbersOf
  split
  next h => simp [h]
  next h => simp [h]

/-! ### One call -/

/-- The key of a generation opens a frame. -/
def Opens (secret : Bytes) (generation : UInt32) (parsed : ParsedFrame) (plain : Bytes) : Prop :=
  let (authenticated, encrypted) :=
    InterleavedFramePlan.split parsed.unencryptedRanges parsed.interleavedFrame
  A.decrypt (ratchetSecrets K secret generation.toNat).key
    (nonceFromTruncated parsed.truncatedNonce) authenticated encrypted parsed.tag = some plain

/-- A key of the ratchet has opened the frame: the number and the bytes that come out. -/
def OpensTo (secret : Bytes) (parsed : ParsedFrame) (number : ℕ) (bytes : Bytes) : Prop :=
  ∃ generation plain, Opens A K secret generation parsed plain ∧
    number = wrappedNonce generation parsed.truncatedNonce ∧
    bytes = InterleavedFramePlan.reconstruct parsed.unencryptedRanges
      (InterleavedFramePlan.split parsed.unencryptedRanges parsed.interleavedFrame).1 plain

variable {A K} {secret : Bytes} {parsed : ParsedFrame} {now : Readings}

/-- What a cipher returns is put together from what it opened. -/
lemma decryptInto_opens {cipher : FrameCipher} {generation : UInt32} {o : Bytes}
    (hkey : cipher.key = (ratchetSecrets K secret generation.toNat).key)
    (h : cipher.decryptInto A generation parsed = .ok o) :
    OpensTo A K secret parsed (wrappedNonce generation parsed.truncatedNonce) o := by
  unfold FrameCipher.decryptInto at h
  split at h
  next hranges =>
    -- without ranges all of the frame is hidden
    rw [List.isEmpty_iff] at hranges
    unfold FrameCipher.decryptContiguousInto at h
    split at h
    · cases h
    next plain hplain =>
      cases h
      have hsplit : InterleavedFramePlan.split parsed.unencryptedRanges parsed.interleavedFrame =
          ([], parsed.interleavedFrame) := by
        rw [hranges]
        rcases parsed.interleavedFrame with _ | ⟨b, frame⟩ <;> rfl
      refine ⟨generation, o, ?_, rfl, ?_⟩
      · simp only [Opens, hsplit]
        exact hkey ▸ hplain
      · rw [hsplit, hranges]
        rcases o with _ | ⟨b, o⟩ <;> rfl
  · dsimp only at h
    split at h
    · cases h
    next plain hplain =>
      cases h
      refine ⟨generation, plain, ?_, rfl, rfl⟩
      rw [hkey] at hplain
      exact hplain

variable (K) in
/-- A manager has the keys of its ratchet, and has accepted what came out of it. -/
structure Booked (outputs : List Output) (m : ManagedRatchet) (x : Installed) : Prop where
  keeps : ∃ k, Keeps K x.secret k m.manager
  tracks : Tracks m.manager (numbersOf outputs x.index)

variable {outputs : List Output} {m : ManagedRatchet} {x : Installed} {ms : List ManagedRatchet}
  {xs : List Installed}

/-- The books of another ratchet do not change. -/
lemma Booked.append (h : Booked K outputs m x) {o : Output} (hne : o.ratchet ≠ x.index) :
    Booked K (outputs ++ [o]) m x :=
  ⟨h.keeps, by rw [numbersOf_append, if_neg hne]; exact h.tracks⟩

lemma booked_append (h : List.Forall₂ (Booked K outputs) ms xs) {o : Output}
    (ho : o.ratchet ∉ xs.map Installed.index) : List.Forall₂ (Booked K (outputs ++ [o])) ms xs := by
  induction h with
  | nil => exact .nil
  | cons hm _ ih =>
    obtain ⟨hne, hrest⟩ : o.ratchet ≠ _ ∧ o.ratchet ∉ _ := by
      simpa only [List.map_cons, List.mem_cons, not_or] using ho
    exact .cons (hm.append hne) (ih hrest)

/-- A frame that a manager does not open leaves its books. -/
lemma Booked.decrypt_fails (h : Booked K outputs m x) (A : Aead) (parsed : ParsedFrame)
    (now : Readings) (hno : ∀ o, (m.manager.decrypt A K parsed now).1 ≠ some (.ok o)) :
    Booked K outputs { m with manager := (m.manager.decrypt A K parsed now).2 } x := by
  obtain ⟨k, hk⟩ := h.keeps
  have htracks := Tracks.step A K (s := ⟨m.manager, numbersOf outputs x.index⟩) h.tracks
    (parsed, now)
  refine ⟨hk.decrypt A parsed now, ?_⟩
  unfold Log.step at htracks
  dsimp only at htracks
  split at htracks
  next o ho => exact absurd ho (hno o)
  next => exact htracks

/-- A frame that a manager opens is new in its books. -/
lemma Booked.decrypt_opens (h : Booked K outputs m x) {o : Bytes} (A : Aead)
    (parsed : ParsedFrame) (now : Readings)
    (ho : (m.manager.decrypt A K parsed now).1 = some (.ok o)) :
    wrappedNonce (m.manager.generationOf parsed) parsed.truncatedNonce ∉
        numbersOf outputs x.index ∧
      OpensTo A K x.secret parsed
        (wrappedNonce (m.manager.generationOf parsed) parsed.truncatedNonce) o ∧
      Booked K (outputs ++ [⟨x.index,
          wrappedNonce (m.manager.generationOf parsed) parsed.truncatedNonce, o⟩])
        { m with manager := (m.manager.decrypt A K parsed now).2 } x := by
  obtain ⟨k, hk⟩ := h.keeps
  have htracks := Tracks.step A K (s := ⟨m.manager, numbersOf outputs x.index⟩) h.tracks
    (parsed, now)
  rcases decrypt_cases A K m.manager parsed now with ⟨hno, -⟩ | hok
  · exact absurd ho (hno o)
  obtain ⟨c, m', o', hcan, hcipher, hopen, hdec⟩ := hok
  obtain rfl : o' = o := by simpa [hdec] using ho
  obtain ⟨k', hk'⟩ : ∃ k', Keeps K x.secret k' m' := by
    simpa [hcipher] using hk.cipher_keeps (m.manager.generationOf parsed) now
  obtain ⟨-, expiry, hfound⟩ := cipher_ok hcipher
  refine ⟨((h.tracks.canProcessNonce _ _).mp hcan).not_mem,
    decryptInto_opens (hk'.key_eq _ _ hfound) hopen, hk.decrypt A parsed now, ?_⟩
  rw [numbersOf_append, if_pos rfl]
  simpa only [Log.step, ho] using htracks

/-- **The loop over the managers.** At most one of them books the frame. -/
theorem tryManagers_booked (h : List.Forall₂ (Booked K outputs) ms xs)
    (hnodup : (xs.map Installed.index).Nodup) (A : Aead) (parsed : ParsedFrame) (now : Readings)
    (lastError : Option FrameDecryptError) :
    (openedBy A K parsed now ms xs = none →
      (∀ o, (Decryptor.tryManagers A K parsed now ms lastError).1 ≠ some (.ok o)) ∧
      List.Forall₂ (Booked K outputs) (Decryptor.tryManagers A K parsed now ms lastError).2 xs) ∧
    ∀ i n, openedBy A K parsed now ms xs = some (i, n) →
      ∃ o, (Decryptor.tryManagers A K parsed now ms lastError).1 = some (.ok o) ∧
        n ∉ numbersOf outputs i ∧ (∃ x ∈ xs, x.index = i ∧ OpensTo A K x.secret parsed n o) ∧
        List.Forall₂ (Booked K (outputs ++ [⟨i, n, o⟩]))
          (Decryptor.tryManagers A K parsed now ms lastError).2 xs := by
  induction h generalizing lastError with
  | nil => exact ⟨fun _ => ⟨by simp [Decryptor.tryManagers], .nil⟩, by simp [openedBy]⟩
  | @cons m x ms xs hm hms ih =>
    obtain ⟨hx, hnodup'⟩ := List.nodup_cons.mp hnodup
    unfold openedBy Decryptor.tryManagers
    rcases hdec : m.manager.decrypt A K parsed now with ⟨_ | error | o, manager⟩
    · refine ⟨fun _ => ⟨by simp, .cons ?_ hms⟩, by simp⟩
      have hfail := hm.decrypt_fails A parsed now (by simp [hdec])
      rwa [hdec] at hfail
    · have hfail := hm.decrypt_fails A parsed now (by simp [hdec])
      rw [hdec] at hfail
      obtain ⟨hnone, hsome⟩ := ih hnodup' (some error)
      refine ⟨fun hop => ⟨(hnone hop).1, .cons hfail (hnone hop).2⟩, fun i n hop => ?_⟩
      obtain ⟨o, ho, hnew, ⟨y, hy, hyi, hopens⟩, hbooked⟩ := hsome i n hop
      refine ⟨o, ho, hnew, ⟨y, List.mem_cons_of_mem _ hy, hyi, hopens⟩, .cons ?_ hbooked⟩
      refine hfail.append fun heq => hx ?_
      dsimp only at heq
      rw [← heq, ← hyi]
      exact List.mem_map_of_mem hy
    · refine ⟨by simp, fun i n hop => ?_⟩
      obtain ⟨rfl, rfl⟩ : x.index = i ∧
          wrappedNonce (m.manager.generationOf parsed) parsed.truncatedNonce = n := by
        simpa using hop
      obtain ⟨hnew, hopens, hbooked⟩ := hm.decrypt_opens (o := o) A parsed now (by rw [hdec])
      rw [hdec] at hbooked
      exact ⟨o, rfl, hnew, ⟨x, List.mem_cons_self, rfl, hopens⟩,
        .cons hbooked (booked_append hms hx)⟩

/-! ### Runs -/

/-- Of the frames that arrive, the keys of `secret` open only what is among `sent`. -/
def OnlySealed (A : Aead) (K : Kdf) (secret : Bytes) (sent : List SealedFrame)
    (arrived : List Bytes) : Prop :=
  ∀ frame ∈ arrived, ∀ parsed, parse frame = .ok parsed → ∀ generation plain,
    Opens A K secret generation parsed plain →
    ∃ f ∈ sent, f.generation = generation.toNat ∧ UInt32.ofNat f.number = parsed.truncatedNonce ∧
      f.processed.unencryptedBytes =
        (InterleavedFramePlan.split parsed.unencryptedRanges parsed.interleavedFrame).1 ∧
      f.processed.encryptedBytes = plain

/-- The frames that arrive. -/
def arrived (events : List Event) : List Bytes :=
  events.filterMap fun
    | .decrypt arrival => some arrival.frame
    | .transitionToRatchet _ _ => none

/-- The bytes are the clear and the hidden ones of `f`, put together along some ranges. -/
def MadeOf (f : SealedFrame) (bytes : Bytes) : Prop :=
  ∃ ranges, bytes = InterleavedFramePlan.reconstruct ranges f.processed.unencryptedBytes
    f.processed.encryptedBytes

lemma OpensTo.genuine {sent : List SealedFrame} {frames : List Bytes} {frame : Bytes} {number : ℕ}
    {bytes : Bytes} (h : OpensTo A K secret parsed number bytes) (hframe : frame ∈ frames)
    (hparse : parse frame = .ok parsed) (hsealed : OnlySealed A K secret sent frames) :
    ∃ f ∈ sent, f.number = number ∧ MadeOf f bytes := by
  obtain ⟨generation, plain, hopens, rfl, rfl⟩ := h
  obtain ⟨f, hf, hgen, hnonce, hclear, rfl⟩ := hsealed frame hframe parsed hparse _ _ hopens
  refine ⟨f, hf, ?_, parsed.unencryptedRanges, by rw [hclear]⟩
  have hlt := generation.toNat_lt
  have hdiv : f.number / 2 ^ 24 = generation.toNat := hgen
  have hgen' : UInt32.ofNat (f.number / 2 ^ 24) = generation := by rw [hdiv, UInt32.ofNat_toNat]
  rw [← hnonce, ← hgen']
  exact (wrappedNonce_ofNat (by omega)).symm

/-- The books of a decryptor over the frames that arrive. -/
structure Books (A : Aead) (K : Kdf) (frames : List Bytes) (s : Inbox) : Prop where
  managers : ∃ kept gone, s.installed = kept ++ gone ∧
    List.Forall₂ (Booked K s.outputs) s.decryptor.managers.reverse kept
  indices : (s.installed.map Installed.index).Nodup
  index_lt : ∀ x ∈ s.installed, x.index < s.installed.length
  opened : ∀ o ∈ s.outputs, ∃ x ∈ s.installed, x.index = o.ratchet ∧ ∃ frame ∈ frames,
    ∃ parsed, parse frame = .ok parsed ∧ OpensTo A K x.secret parsed o.number o.bytes
  once : (s.outputs.map fun o => (o.ratchet, o.number)).Nodup

lemma openedBy_append (h : List.Forall₂ (Booked K outputs) ms xs) (gone : List Installed) :
    openedBy A K parsed now ms (xs ++ gone) = openedBy A K parsed now ms xs := by
  induction h with
  | nil => rcases gone with _ | ⟨x, gone⟩ <;> rfl
  | cons _ _ ih =>
    rw [List.cons_append, openedBy, openedBy, ih]

variable {s : Inbox} {frames : List Bytes}

/-- Nothing came out of a ratchet before it was there. -/
lemma Books.numbersOf_length (h : Books A K frames s) :
    numbersOf s.outputs s.installed.length = [] := by
  unfold numbersOf
  rw [List.map_eq_nil_iff, List.filter_eq_nil_iff]
  intro o ho
  obtain ⟨x, hx, hxi, -⟩ := h.opened o ho
  have := h.index_lt x hx
  simp only [decide_eq_true_eq]
  omega

lemma Books.transition (h : Books A K frames s) (secret : Bytes) (now : ℕ) :
    Books A K frames (s.step A K (.transitionToRatchet secret now)) := by
  obtain ⟨kept, gone, hinstalled, hbooked⟩ := h.managers
  refine ⟨⟨⟨s.installed.length, secret⟩ :: kept, gone, by simp [Inbox.step, hinstalled], ?_⟩,
    ?_, ?_, fun o ho => ?_, h.once⟩
  · simp only [Inbox.step, Decryptor.transitionToRatchet, Decryptor.updateManagerExpiry,
      List.reverse_append, List.reverse_singleton, List.singleton_append, ← List.map_reverse]
    refine .cons ⟨⟨0, keeps_new _⟩, ?_⟩ ?_
    · dsimp only
      rw [h.numbersOf_length]
      exact tracks_new _ _
    · refine List.forall₂_map_left_iff.mpr (hbooked.imp fun m x hm => ?_)
      exact ⟨hm.keeps, hm.tracks⟩
  · refine List.nodup_cons.mpr ⟨fun hmem => ?_, h.indices⟩
    obtain ⟨x, hx, hxi⟩ := List.mem_map.mp hmem
    exact absurd hxi (Nat.ne_of_lt (h.index_lt x hx))
  · intro x hx
    simp only [Inbox.step, List.length_cons] at hx ⊢
    rcases List.mem_cons.mp hx with rfl | hx
    · exact Nat.lt_succ_self _
    · exact Nat.lt_succ_of_lt (h.index_lt x hx)
  · obtain ⟨x, hx, hxi⟩ := h.opened o ho
    exact ⟨x, List.mem_cons_of_mem _ hx, hxi⟩

/-- The managers that have not expired are those of the newest ratchets. -/
lemma Books.cleanup (h : Books A K frames s) (now : ℕ) : ∃ kept gone, s.installed = kept ++ gone ∧
    List.Forall₂ (Booked K s.outputs) (s.decryptor.cleanupExpiredManagers now).managers.reverse
      kept := by
  obtain ⟨kept, gone, hinstalled, hbooked⟩ := h.managers
  obtain ⟨expired, hexpired⟩ := List.dropWhile_suffix (l := s.decryptor.managers)
    fun m => m.expired (s.decryptor.elapsed now)
  rw [← hexpired, List.reverse_append] at hbooked
  change List.Forall₂ _ ((s.decryptor.cleanupExpiredManagers now).managers.reverse ++ _) _
    at hbooked
  have htake := List.forall₂_take
    (s.decryptor.cleanupExpiredManagers now).managers.reverse.length hbooked
  rw [List.take_left] at htake
  refine ⟨_, kept.drop (s.decryptor.cleanupExpiredManagers now).managers.reverse.length ++ gone,
    ?_, htake⟩
  rw [← List.append_assoc, List.take_append_drop, hinstalled]

/-- An arriving frame is booked if it is opened. -/
lemma Books.arrival (h : Books A K frames s) {a : Arrival} (ha : a.frame ∈ frames) :
    Books A K frames (s.step A K (.decrypt a)) ∧
      ∀ call, a.encrypted s.decryptor.clock = some call →
        ∀ bytes, (receive A K s.decryptor a).1 = some (.ok bytes) →
          ∃ ratchet number,
            (s.step A K (.decrypt a)).outputs = s.outputs ++ [⟨ratchet, number, bytes⟩] := by
  obtain ⟨kept, gone, hinstalled, hbooked⟩ := h.cleanup a.now
  have hnodup : (kept.map Installed.index).Nodup := by
    have hall := h.indices
    rw [hinstalled, List.map_append] at hall
    exact hall.of_append_left
  rcases hcall : a.encrypted s.decryptor.clock with _ | call
  · have hstep : s.step A K (.decrypt a) =
        { s with decryptor := s.decryptor.cleanupExpiredManagers a.now } := by
      simp only [Inbox.step, hcall, Option.bind_none, Option.elim_none, receive_unencrypted hcall]
    rw [hstep]
    exact ⟨⟨⟨kept, gone, hinstalled, hbooked⟩, h.indices, h.index_lt, h.opened, h.once⟩, by simp⟩
  · obtain ⟨hmanagers, hresult⟩ := receive_encrypted (A := A) (K := K) hcall
    obtain ⟨hnone, hsome⟩ := tryManagers_booked hbooked hnodup A call.1 (reading call.2) none
    have hopened : openedBy A K call.1 (reading call.2)
        (s.decryptor.cleanupExpiredManagers a.now).managers.reverse s.installed =
      openedBy A K call.1 (reading call.2)
        (s.decryptor.cleanupExpiredManagers a.now).managers.reverse kept := by
      rw [hinstalled, openedBy_append hbooked]
    rcases hop : openedBy A K call.1 (reading call.2)
      (s.decryptor.cleanupExpiredManagers a.now).managers.reverse kept with _ | ⟨i, n⟩
    · obtain ⟨hno, hms⟩ := hnone hop
      have hstep : s.step A K (.decrypt a) =
          { s with decryptor := (receive A K s.decryptor a).2 } := by
        simp only [Inbox.step, hcall, Option.bind_some, hopened, hop, Option.elim_none]
      rw [hstep]
      refine ⟨⟨⟨kept, gone, hinstalled, ?_⟩, h.indices, h.index_lt, h.opened, h.once⟩, ?_⟩
      · rw [hmanagers]
        simpa only [List.reverse_reverse] using hms
      · intro call' hcall' bytes hbytes
        obtain rfl := Option.some.inj hcall'
        exact absurd ((hresult bytes).mp hbytes) (hno bytes)
    · obtain ⟨o, ho, hnew, ⟨x, hx, hxi, hopens⟩, hms⟩ := hsome i n hop
      have ho' := (hresult o).mpr ho
      have hstep : s.step A K (.decrypt a) = { s with
          decryptor := (receive A K s.decryptor a).2
          outputs := s.outputs ++ [⟨i, n, o⟩] } := by
        simp only [Inbox.step, hcall, Option.bind_some, hopened, hop, Option.elim_some, ho']
      have hx' : x ∈ s.installed := by
        rw [hinstalled]
        exact List.mem_append_left _ hx
      rw [hstep]
      refine ⟨⟨⟨kept, gone, hinstalled, ?_⟩, h.indices, h.index_lt, fun out hout => ?_, ?_⟩, ?_⟩
      · rw [hmanagers]
        simpa only [List.reverse_reverse] using hms
      · rcases List.mem_append.mp hout with hout | hout
        · exact h.opened out hout
        · obtain rfl := List.mem_singleton.mp hout
          exact ⟨x, hx', hxi, a.frame, ha, call.1, (Arrival.encrypted_eq_some hcall).2.1, hopens⟩
      · rw [List.map_append, List.map_singleton]
        refine List.nodup_append.mpr ⟨h.once, List.nodup_singleton _, fun key hkey key' hkey' => ?_⟩
        rw [List.mem_singleton.mp hkey']
        rintro rfl
        obtain ⟨out, hout, heq⟩ := List.mem_map.mp hkey
        obtain ⟨hr, hn⟩ := Prod.mk.inj heq
        refine hnew (List.mem_map.mpr ⟨out, List.mem_filter.mpr ⟨hout, ?_⟩, hn⟩)
        exact decide_eq_true hr
      · intro call' hcall' bytes hbytes
        obtain rfl : o = bytes := by simpa [ho'] using hbytes
        exact ⟨i, n, rfl⟩

lemma Books.step (h : Books A K frames s) {e : Event}
    (he : ∀ a, e = .decrypt a → a.frame ∈ frames) : Books A K frames (s.step A K e) := by
  cases e with
  | transitionToRatchet secret now => exact h.transition secret now
  | decrypt a => exact (h.arrival (he a rfl)).1

/-- The keystream is the key, and the tag shows it beside the data. -/
def keyed : Primitives where
  encryptBlock key _ := ⟨(key ++ List.replicate 16 0).take 16, by simp⟩
  ghash _ data := ⟨(List.replicate 4 0 ++ data ++ List.replicate 16 0).take 16, by simp⟩

def keyedAead : Aead := aes128Gcm8 keyed

/-- The frame as it is sent. -/
def genuine : Bytes := [1, 2] ++ [0, 0, 0, 0, 1, 2, 0, 0] ++ [1, 12, 0xFA, 0xFA]

/-- Another frame with its tag. -/
def forged : Bytes := [3, 4] ++ [0, 0, 0, 0, 1, 2, 0, 0] ++ [2, 12, 0xFA, 0xFA]

/-- The frame arrives twice, and a forged one in between. -/
def arrivals : List Event :=
  [.transitionToRatchet [7] 1, .decrypt ⟨.audio, genuine, 0, 2⟩,
    .decrypt ⟨.audio, forged, 0, 2⟩, .decrypt ⟨.audio, genuine, 0, 3⟩]

end Cacophony.Authenticity
