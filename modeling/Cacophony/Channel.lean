import Cacophony.Generations
import Cacophony.KeyLifetime
import Cacophony.SealedFrames
import Cacophony.UserDecryptor

/-!
The channel from a sender to a receiver that has the same ratchet.

The network between the two loses frames, delays and repeats them, and brings frames that nobody
sent. What the receiver accepted before decides about the next frame. The sender numbers its frames;
a frame opens if its number is not taken and not too far behind, and if no frame of a newer
generation was accepted ten seconds ago or earlier. For a generation that is not superseded for so
long, the manager still holds a cipher at it or below it, and therefore has not erased it.
-/

namespace Cacophony.Channel

open Gcm Cacophony.Frame FrameCodecs Runs Ratchet
open Receiver Replay SenderNonces KeyLifetime
open Generations SealedFrames UserDecryptor CryptorManager

/-! ### A call of `decrypt` -/

variable (A : Aead) (K : Kdf)

/-- The three ways through `decrypt`. -/
lemma decrypt_cases (m : CryptorManager) (parsed : ParsedFrame) (now : Readings) :
    ((∀ o, (m.decrypt A K parsed now).1 ≠ some (.ok o)) ∧
      ((m.decrypt A K parsed now).2 = m ∨
        (m.decrypt A K parsed now).2 = (m.cipher K (m.generationOf parsed) now).2)) ∨
    ∃ c m' o, m.canProcessNonce (m.generationOf parsed) parsed.truncatedNonce = true ∧
      m.cipher K (m.generationOf parsed) now = (some (.ok c), m') ∧
      c.decryptInto A (m.generationOf parsed) parsed = .ok o ∧
      m.decrypt A K parsed now =
        (some (.ok o), m'.reportSuccess (m.generationOf parsed) parsed.truncatedNonce
          now.success) := by
  unfold CryptorManager.decrypt
  dsimp only
  split
  next hcan =>
    generalize m.cipher K (m.generationOf parsed) now = found
    obtain ⟨_ | _ | c, m'⟩ := found
    · exact .inl ⟨by simp, .inr rfl⟩
    · exact .inl ⟨by simp, .inr rfl⟩
    · dsimp only
      rcases hdec : c.decryptInto A (m.generationOf parsed) parsed with _ | o
      · exact .inl ⟨by simp, .inr rfl⟩
      · exact .inr ⟨c, m', o, hcan, rfl, hdec, rfl⟩
  · exact .inl ⟨by simp, .inl rfl⟩

variable {A K} {secret : Bytes} {m m' : CryptorManager} {g : UInt32} {now : Readings}

/-- `cipher` adds at most the cipher that was asked for to what the cleanup leaves. -/
lemma cipher_shape (m : CryptorManager) (g : UInt32) (now : Readings) :
    ∃ ciphers ratchet, (m.cipher K g now).2 =
        { m.cleanupExpiredCiphers now.cleanup with ciphers, ratchet } ∧
      (∀ g' c, (m.cleanupExpiredCiphers now.cleanup).ciphers g' = some c →
        ciphers g' = some c) ∧
      ∀ g' c, ciphers g' = some c →
        (m.cleanupExpiredCiphers now.cleanup).ciphers g' = some c ∨
          g' = g ∧ c.expiry =
            if g < m.newestGeneration then some (now.insert + cipherExpiry) else none := by
  by_cases hp : Passes (m.cleanupExpiredCiphers now.cleanup) g now.lifetime
  · rw [cipher_of_passes hp]
    rcases hfound : (m.cleanupExpiredCiphers now.cleanup).ciphers g with _ | c
    · simp only [Option.elim_none, CryptorManager.insertCipher]
      split
      · exact ⟨_, _, rfl, fun _ _ h => h, fun _ _ h => .inl h⟩
      · exact ⟨_, _, rfl, fun _ _ h => h, fun _ _ h => .inl h⟩
      · split
        · exact ⟨_, _, rfl, fun _ _ h => h, fun _ _ h => .inl h⟩
        · refine ⟨_, _, rfl, fun g' c h => ?_, fun g' c h => ?_⟩
          · have hne : g' ≠ g := by
              rintro rfl
              rw [hfound] at h
              cases h
            rwa [Function.update_of_ne hne]
          · by_cases hgg : g' = g
            · subst hgg
              rw [Function.update_self] at h
              cases h
              exact .inr ⟨rfl, rfl⟩
            · rw [Function.update_of_ne hgg] at h
              exact .inl h
    · exact ⟨_, _, rfl, fun _ _ h => h, fun _ _ h => .inl h⟩
  · rw [cipher_of_not_passes hp]
    exact ⟨_, _, rfl, fun _ _ h => h, fun _ _ h => .inl h⟩

/-- A cipher that is returned passed the bounds, and is held. -/
lemma cipher_ok {c : FrameCipher} (h : m.cipher K g now = (some (.ok c), m')) :
    Passes (m.cleanupExpiredCiphers now.cleanup) g now.lifetime ∧
      ∃ expiry, m'.ciphers g = some ⟨c, expiry⟩ := by
  by_cases hp : Passes (m.cleanupExpiredCiphers now.cleanup) g now.lifetime
  · refine ⟨hp, ?_⟩
    rw [cipher_of_passes hp] at h
    rcases hfound : (m.cleanupExpiredCiphers now.cleanup).ciphers g with _ | c'
    · simp only [hfound, Option.elim_none, CryptorManager.insertCipher] at h
      split at h
      · cases h
      · cases h
      · split at h
        · cases h
        · cases h
          exact ⟨_, Function.update_self _ _ _⟩
    · rw [hfound, Option.elim_some] at h
      cases h
      exact ⟨c'.expiry, hfound⟩
  · rw [cipher_of_not_passes hp] at h
    cases h

lemma wrappedNonce_div (g nonce : UInt32) : wrappedNonce g nonce / 2 ^ 24 = g.toNat := by
  have hlow : nonce.toNat &&& (1 <<< 24 - 1) < 2 ^ 24 := by
    rw [Nat.shiftLeft_eq, Nat.one_mul, Nat.and_two_pow_sub_one_eq_mod]
    exact Nat.mod_lt _ (Nat.two_pow_pos 24)
  rw [wrappedNonce, ← Nat.shiftLeft_add_eq_or_of_lt hlow, Nat.shiftLeft_eq]
  omega

/-! ### What a manager accepted, and when -/

/-- The number of an accepted frame, and when it was accepted. -/
structure Receipt where
  number : ℕ
  time : ℕ
  deriving DecidableEq

def Receipt.generation (r : Receipt) : ℕ := r.number / 2 ^ 24

/-- A manager, what it accepted, and the time of its last call. -/
structure History where
  manager : CryptorManager
  receipts : List Receipt := []
  last : ℕ

/-- The one reading of the clock that the decryptor hands down. -/
def reading (elapsed : ℕ) : Readings := ⟨elapsed, elapsed, elapsed, elapsed⟩

namespace History

def start (secret : Bytes) (createdAt : ℕ) : History :=
  { manager := .new createdAt (.new secret), last := createdAt }

variable (A K) in
def step (s : History) (call : ParsedFrame × ℕ) : History :=
  let (result, manager) := s.manager.decrypt A K call.1 (reading call.2)
  let receipts := match result with
    | some (.ok _) =>
      s.receipts ++ [⟨wrappedNonce (s.manager.generationOf call.1) call.1.truncatedNonce, call.2⟩]
    | _ => s.receipts
  { manager, receipts, last := call.2 }

def numbers (s : History) : List ℕ := s.receipts.map Receipt.number

end History

/-- A frame of a newer generation was accepted so long before `t` that the ciphers of `g` may be
gone. -/
def Superseded (receipts : List Receipt) (g t : ℕ) : Prop :=
  ∃ r ∈ receipts, g < r.generation ∧ r.time + cipherExpiry ≤ t

instance (receipts : List Receipt) (g t : ℕ) : Decidable (Superseded receipts g t) :=
  inferInstanceAs (Decidable (∃ r ∈ receipts, _))

/-- A cipher at `g` or below it that stays for as long as `g` is not superseded. -/
def Covered (m : CryptorManager) (receipts : List Receipt) (g : ℕ) : Prop :=
  ∃ g₀ c, m.ciphers g₀ = some c ∧ g₀.toNat ≤ g ∧ ∀ e, c.expiry = some e → Superseded receipts g e

/-- The frames that a sender can have sent in a time, at the rate the receiver allows for. -/
def framesWithin (nanoseconds : ℕ) : ℕ := maxFramesPerSecond * (nanoseconds / 10 ^ 9)

/-- The ciphers from the newest generation on stay until a newer one comes. -/
def Unexpiring (m : CryptorManager) : Prop :=
  ∀ g c, m.ciphers g = some c → m.newestGeneration ≤ g → c.expiry = none

variable {receipts : List Receipt} {t t' n : ℕ}

lemma Superseded.mono (h : Superseded receipts n t) (hle : t ≤ t') : Superseded receipts n t' :=
  h.imp fun _ ⟨hr, hg, ht⟩ => ⟨hr, hg, ht.trans hle⟩

lemma Superseded.append (h : Superseded receipts n t) (more : List Receipt) :
    Superseded (receipts ++ more) n t :=
  h.imp fun _ ⟨hr, hg, ht⟩ => ⟨List.mem_append_left _ hr, hg, ht⟩

lemma Covered.cleanup (h : Covered m receipts n) (t : ℕ) :
    Superseded receipts n t ∨ Covered (m.cleanupExpiredCiphers t) receipts n := by
  obtain ⟨g₀, c, hc, hle, hlate⟩ := h
  by_cases hlive : c.expiry.all fun expiry => t < expiry
  · exact .inr ⟨g₀, c, Option.filter_eq_some_iff.mpr ⟨hc, hlive⟩, hle, hlate⟩
  · rcases hexp : c.expiry with _ | e
    · simp [hexp] at hlive
    · have hle' : e ≤ t := by simpa [hexp] using hlive
      exact .inl ((hlate e hexp).mono hle')

lemma Covered.cipher (h : Covered (m.cleanupExpiredCiphers now.cleanup) receipts n) (g : UInt32) :
    Covered (m.cipher K g now).2 receipts n := by
  obtain ⟨ciphers, ratchet, hshape, hkeep, -⟩ := cipher_shape (K := K) m g now
  obtain ⟨g₀, c, hc, hle, hlate⟩ := h
  rw [hshape]
  exact ⟨g₀, c, hkeep g₀ c hc, hle, hlate⟩

lemma Unexpiring.cipher (h : Unexpiring m) (g : UInt32) : Unexpiring (m.cipher K g now).2 := by
  obtain ⟨ciphers, ratchet, hshape, -, hnew⟩ := cipher_shape (K := K) m g now
  rw [hshape]
  intro g' c hc hle
  rcases hnew g' c hc with hc' | ⟨rfl, hexp⟩
  · exact h g' c (ciphers_cleanup hc').1 hle
  · have hge : ¬ g' < m.newestGeneration := UInt32.not_lt.mpr hle
    rw [hexp, if_neg hge]

lemma Unexpiring.reportSuccess (h : Unexpiring m) (hc : (m.ciphers g).isSome) (nonce : UInt32)
    (elapsed : ℕ) : Unexpiring (m.reportSuccess g nonce elapsed) := by
  obtain ⟨missing, hshape⟩ := reportSuccess_shape hc nonce elapsed
  rw [hshape]
  intro g' c hc' hle
  dsimp only at hc' hle
  by_cases hlt : m.newestGeneration < g
  · rw [if_pos hlt] at hle
    rw [if_neg (fun h => UInt32.not_lt.mpr hle h.2)] at hc'
    exact h g' c hc' (UInt32.le_trans (UInt32.le_of_lt hlt) hle)
  · rw [if_neg hlt] at hle
    rw [if_neg (fun h => hlt h.1)] at hc'
    exact h g' c hc' hle

/-- A success of generation `g` keeps every generation covered that was. -/
lemma Covered.reportSuccess (h : Covered m receipts n) (hun : Unexpiring m)
    (hc : (m.ciphers g).isSome) (nonce : UInt32) (elapsed : ℕ) :
    Covered (m.reportSuccess g nonce elapsed)
      (receipts ++ [⟨wrappedNonce g nonce, elapsed⟩]) n := by
  obtain ⟨missing, hshape⟩ := reportSuccess_shape hc nonce elapsed
  obtain ⟨g₀, c₀, hc₀, hle₀, hlate₀⟩ := h
  rw [hshape]
  by_cases hraise : m.newestGeneration < g ∧ g₀ < g
  · rcases lt_or_ge n g.toNat with hlt | hge
    · -- the new frame supersedes `n`, and the old cipher stays ten seconds from now
      refine ⟨g₀, { c₀ with expiry := some (elapsed + cipherExpiry) }, ?_, hle₀, ?_⟩
      · simp only [hraise, and_self, if_true, hc₀, Option.map_some]
      · intro e he
        refine ⟨⟨wrappedNonce g nonce, elapsed⟩, by simp, ?_, (Option.some.inj he).le⟩
        rw [Receipt.generation, wrappedNonce_div]
        exact hlt
    · -- the cipher of the new generation covers `n`
      obtain ⟨c, hg⟩ := Option.isSome_iff_exists.mp hc
      refine ⟨g, c, ?_, hge, fun e he => ?_⟩
      · simp only [UInt32.lt_irrefl, and_false, if_false, hg]
      · rw [hun g c hg (UInt32.le_of_lt hraise.1)] at he
        cases he
  · refine ⟨g₀, c₀, ?_, hle₀, fun e he => (hlate₀ e he).append _⟩
    simp only [hraise, if_false, hc₀]

/-- What holds of a manager and its history. -/
structure Receiving (K : Kdf) (secret : Bytes) (createdAt : ℕ) (s : History) : Prop where
  keeps : ∃ k, Keeps K secret k s.manager
  tracks : Tracks s.manager s.numbers
  created : s.manager.ratchetCreatedAt = createdAt
  created_le : createdAt ≤ s.last
  unexpiring : Unexpiring s.manager
  fresh : s.receipts = [] → s.manager.newestGeneration = 0
  within : s.manager.newestGeneration.toNat ≤ framesWithin (s.last - createdAt) / 2 ^ 24
  covered : ∀ first ∈ s.receipts.head?, ∀ g, first.generation ≤ g →
    Superseded s.receipts g s.last ∨ Covered s.manager s.receipts g

variable {createdAt : ℕ} {s : History}

lemma receiving_start : Receiving K secret createdAt (.start secret createdAt) where
  keeps := ⟨0, keeps_new createdAt⟩
  tracks := tracks_new createdAt _
  created := rfl
  created_le := le_rfl
  unexpiring _ _ h := nomatch h
  fresh _ := rfl
  within := Nat.zero_le _
  covered := by simp [History.start]

lemma framesWithin_mono {a b : ℕ} (h : a ≤ b) : framesWithin a ≤ framesWithin b :=
  Nat.mul_le_mul_left _ (Nat.div_le_div_right h)

/-- The bound of the lifetime, without the width of a generation. -/
lemma toNat_maxLifetimeGeneration_le (m : CryptorManager) (elapsed : ℕ) :
    (m.maxLifetimeGeneration elapsed).toNat ≤
      framesWithin (elapsed - m.ratchetCreatedAt) / 2 ^ 24 := by
  rw [maxLifetimeGeneration, UInt32.toNat_ofNat', Nat.shiftRight_eq_div_pow]
  exact Nat.mod_le _ _

lemma toNat_maxLifetimeGeneration {m : CryptorManager} {elapsed : ℕ}
    (h : framesWithin (elapsed - m.ratchetCreatedAt) < 2 ^ 56) :
    (m.maxLifetimeGeneration elapsed).toNat =
      framesWithin (elapsed - m.ratchetCreatedAt) / 2 ^ 24 := by
  rw [maxLifetimeGeneration, UInt32.toNat_ofNat', Nat.shiftRight_eq_div_pow]
  refine Nat.mod_eq_of_lt ?_
  change framesWithin (elapsed - m.ratchetCreatedAt) / 2 ^ 24 < 2 ^ 32
  omega

/-- The fields that `cipher` leaves. -/
lemma cipher_fields (m : CryptorManager) (g : UInt32) (now : Readings) :
    (m.cipher K g now).2.newestGeneration = m.newestGeneration ∧
      (m.cipher K g now).2.ratchetCreatedAt = m.ratchetCreatedAt := by
  obtain ⟨ciphers, ratchet, hshape, -⟩ := cipher_shape (K := K) m g now
  rw [hshape]
  exact ⟨rfl, rfl⟩

/-- A frame that is not accepted leaves the history, and what it says of the manager. -/
lemma Receiving.cipher (h : Receiving K secret createdAt s) (g : UInt32) {elapsed : ℕ}
    (hle : s.last ≤ elapsed) :
    Receiving K secret createdAt
      ⟨(s.manager.cipher K g (reading elapsed)).2, s.receipts, elapsed⟩ := by
  obtain ⟨k, hk⟩ := h.keeps
  obtain ⟨hnewest, hcreated⟩ := cipher_fields (K := K) s.manager g (reading elapsed)
  obtain ⟨hnonce, hmissing, -⟩ := cipher_keeps K s.manager g (reading elapsed)
  refine ⟨hk.cipher_keeps g _, h.tracks.congr hnonce hmissing, hcreated.trans h.created,
    h.created_le.trans hle, h.unexpiring.cipher g, fun hempty => hnewest.trans (h.fresh hempty),
    ?_, fun first hfirst n hn => ?_⟩
  · dsimp only
    rw [hnewest]
    refine h.within.trans (Nat.div_le_div_right (framesWithin_mono ?_))
    omega
  · rcases h.covered first hfirst n hn with hsup | hcov
    · exact .inl (hsup.mono hle)
    · rcases hcov.cleanup (reading elapsed).cleanup with hsup | hcov
      · exact .inl hsup
      · exact .inr (hcov.cipher g)

/-- A frame that is accepted. -/
lemma Receiving.reportSuccess (h : Receiving K secret createdAt s) {nonce : UInt32}
    (hc : (s.manager.ciphers g).isSome)
    (hacc : Accepts maxMissingNonces s.numbers (wrappedNonce g nonce))
    (hlife : g.toNat ≤ framesWithin (s.last - createdAt) / 2 ^ 24) :
    Receiving K secret createdAt ⟨s.manager.reportSuccess g nonce s.last,
      s.receipts ++ [⟨wrappedNonce g nonce, s.last⟩], s.last⟩ := by
  obtain ⟨k, hk⟩ := h.keeps
  obtain ⟨missing, hshape⟩ := reportSuccess_shape hc nonce s.last
  refine ⟨⟨k, hk.reportSuccess nonce s.last⟩, ?_, ?_, h.created_le,
    h.unexpiring.reportSuccess hc nonce s.last, by simp, ?_, fun first hfirst n hn => ?_⟩
  · have htracks := h.tracks.reportSuccess hacc s.last
    simpa [History.numbers] using htracks
  · rw [hshape]
    exact h.created
  · rw [hshape]
    dsimp only
    split
    · exact hlife
    · exact h.within
  · rcases hempty : s.receipts with _ | ⟨r, rest⟩
    · -- the first frame covers its own generation and those above it
      rw [hempty] at hfirst
      obtain rfl : first = ⟨wrappedNonce g nonce, s.last⟩ := by simpa using hfirst.symm
      rw [Receipt.generation, wrappedNonce_div] at hn
      obtain ⟨c, hg⟩ := Option.isSome_iff_exists.mp hc
      have hzero : s.manager.newestGeneration ≤ g := by
        rw [h.fresh hempty]
        exact UInt32.zero_le
      have hcov : Covered s.manager [] n := ⟨g, c, hg, hn, fun e he => by
        rw [h.unexpiring g c hg hzero] at he
        cases he⟩
      exact .inr (hcov.reportSuccess h.unexpiring hc nonce s.last)
    · have hfirst' : first ∈ s.receipts.head? := by simpa [hempty] using hfirst
      rcases h.covered first hfirst' n hn with hsup | hcov
      · exact .inl (hempty ▸ hsup.append _)
      · exact .inr (hempty ▸ hcov.reportSuccess h.unexpiring hc nonce s.last)

/-- **One frame.** Whatever it is, the history stays true of the manager. -/
theorem Receiving.step (h : Receiving K secret createdAt s) (call : ParsedFrame × ℕ)
    (hle : s.last ≤ call.2) : Receiving K secret createdAt (s.step A K call) := by
  obtain ⟨parsed, elapsed⟩ := call
  have hidle : Receiving K secret createdAt ⟨s.manager, s.receipts, elapsed⟩ := by
    refine ⟨h.keeps, h.tracks, h.created, h.created_le.trans hle, h.unexpiring, h.fresh,
      h.within.trans (Nat.div_le_div_right (framesWithin_mono (Nat.sub_le_sub_right hle _))),
      fun first hfirst n hn => ?_⟩
    exact (h.covered first hfirst n hn).imp_left fun hsup => hsup.mono hle
  rcases decrypt_cases A K s.manager parsed (reading elapsed) with ⟨hno, hm⟩ | hok
  · have hstep : s.step A K (parsed, elapsed) =
        ⟨(s.manager.decrypt A K parsed (reading elapsed)).2, s.receipts, elapsed⟩ := by
      unfold History.step
      dsimp only
      split
      next o ho => exact absurd ho (hno o)
      next => rfl
    rw [hstep]
    rcases hm with hm | hm
    · rw [hm]
      exact hidle
    · rw [hm]
      exact h.cipher _ hle
  · obtain ⟨c, m', o, hcan, hcipher, -, hdec⟩ := hok
    have hrec := h.cipher (s.manager.generationOf parsed) hle
    rw [hcipher] at hrec
    obtain ⟨⟨-, -, hlife⟩, expiry, hfound⟩ := cipher_ok hcipher
    have hlife' : (s.manager.generationOf parsed).toNat ≤
        framesWithin (elapsed - createdAt) / 2 ^ 24 := by
      have hbound := toNat_maxLifetimeGeneration_le
        (s.manager.cleanupExpiredCiphers (reading elapsed).cleanup) elapsed
      have hcreated : (s.manager.cleanupExpiredCiphers
          (reading elapsed).cleanup).ratchetCreatedAt = createdAt := h.created
      rw [hcreated] at hbound
      exact (UInt32.le_iff_toNat_le.mp hlife).trans hbound
    have hstep : s.step A K (parsed, elapsed) = ⟨m'.reportSuccess (s.manager.generationOf parsed)
        parsed.truncatedNonce elapsed, s.receipts ++ [⟨wrappedNonce (s.manager.generationOf parsed)
          parsed.truncatedNonce, elapsed⟩], elapsed⟩ := by
      unfold History.step
      rw [hdec]
      rfl
    rw [hstep]
    exact Receiving.reportSuccess (s := ⟨m', s.receipts, elapsed⟩) hrec (by rw [hfound]; rfl)
      ((h.tracks.canProcessNonce _ _).mp hcan) hlife'

/-! ### A genuine frame -/

/-- What is asked of the number of a frame that comes in at `elapsed`. -/
structure InTime (s : History) (createdAt number elapsed : ℕ) : Prop where
  accepts : Accepts maxMissingNonces s.numbers number
  reach : number / 2 ^ 24 ≤ s.manager.oldestGeneration.toNat + 250
  pace : number / 2 ^ 24 ≤ framesWithin (elapsed - createdAt) / 2 ^ 24
  current : ¬ Superseded s.receipts (number / 2 ^ 24) elapsed

variable {elapsed clock : ℕ} {d : Decryptor} {call : ParsedFrame × ℕ} {a : Arrival}

/-- A number that is accepted is not below the first one. -/
lemma le_of_accepts {k w : ℕ} {numbers : List ℕ} (h : Accepts k numbers w) :
    ∀ first ∈ numbers.head?, first ≤ w := by
  intro first hfirst
  rcases h with rfl | hlt | ⟨⟨first', hfirst', hlt⟩, -⟩
  · simp at hfirst
  · exact (le_newest (List.mem_of_head? hfirst)).trans hlt.le
  · obtain rfl : first' = first := Option.some.inj (hfirst'.symm.trans hfirst)
    exact hlt.le

/-- The manager has not erased the generation, neither before the cleanup nor behind it. -/
lemma Receiving.oldest_le (h : Receiving K secret createdAt s) {number : ℕ} (hle : s.last ≤ elapsed)
    (ht : InTime s createdAt number elapsed) :
    s.manager.oldestGeneration.toNat ≤ number / 2 ^ 24 ∧
      (s.manager.cleanupExpiredCiphers elapsed).oldestGeneration.toNat ≤ number / 2 ^ 24 := by
  obtain ⟨k, hk⟩ := h.keeps
  have hbelow {m : CryptorManager} (hm : Keeps K secret k m)
      (hcov : Covered m s.receipts (number / 2 ^ 24)) :
      m.oldestGeneration.toNat ≤ number / 2 ^ 24 := by
    obtain ⟨g₀, c, hc, hle₀, -⟩ := hcov
    exact (UInt32.le_iff_toNat_le.mp (hm.bounds g₀ c hc).1).trans hle₀
  have hzero {m : CryptorManager} (hm : Keeps K secret k m) (hnew : m.newestGeneration = 0) :
      m.oldestGeneration.toNat ≤ number / 2 ^ 24 := by
    have hold := UInt32.le_iff_toNat_le.mp hm.oldest_le
    rw [hnew] at hold
    exact hold.trans (Nat.zero_le _)
  rcases hreceipts : s.receipts.head? with _ | first
  · have hempty : s.receipts = [] := by simpa using hreceipts
    exact ⟨hzero hk (h.fresh hempty), hzero (hk.cleanup elapsed) (h.fresh hempty)⟩
  · have hfirst : first.generation ≤ number / 2 ^ 24 :=
      Nat.div_le_div_right (le_of_accepts ht.accepts first.number (by
        simp [History.numbers, List.head?_map, hreceipts]))
    have hcov := (h.covered first hreceipts _ hfirst).resolve_left
      fun hsup => ht.current (hsup.mono hle)
    exact ⟨hbelow hk hcov, hbelow (hk.cleanup elapsed)
      ((hcov.cleanup elapsed).resolve_left ht.current)⟩

/-- **A genuine frame in time** opens. -/
theorem Receiving.opens (h : Receiving K secret createdAt s) {f : SealedFrame}
    (hf : f.Sealed A K secret) (hlen : f.payload.length < 2 ^ 63) (hle : s.last ≤ elapsed)
    (hage : framesWithin (elapsed - createdAt) < 2 ^ 56 - 2 ^ 32)
    (ht : InTime s createdAt f.number elapsed) :
    ∃ parsed, parse f.bytes = .ok parsed ∧ parsed.encrypted = true ∧
      (s.manager.decrypt A K parsed (reading elapsed)).1 =
        some (.ok f.processed.plaintext) := by
  obtain ⟨k, hk⟩ := h.keeps
  obtain ⟨hold, hold'⟩ := h.oldest_le hle ht
  obtain ⟨parsed, hparse, henc, hnonce, hopen⟩ := hf.opens hlen
  have hpace := ht.pace
  have hreach := ht.reach
  have hG : (UInt32.ofNat (f.number / 2 ^ 24)).toNat = f.number / 2 ^ 24 :=
    UInt32.toNat_ofNat_of_lt' (show f.number / 2 ^ 24 < 2 ^ 32 by omega)
  have hgen : s.manager.generationOf parsed = UInt32.ofNat (f.number / 2 ^ 24) := by
    apply UInt32.toNat.inj
    rw [hG, generationOf, hnonce]
    exact toNat_computeWrappedGeneration_topByte hold (by omega) (by omega)
  have hcan : s.manager.canProcessNonce (s.manager.generationOf parsed) parsed.truncatedNonce =
      true := by
    rw [hgen, hnonce, h.tracks.canProcessNonce, wrappedNonce_ofNat (by omega)]
    exact ht.accepts
  have hpasses : Passes (s.manager.cleanupExpiredCiphers (reading elapsed).cleanup)
      (s.manager.generationOf parsed) (reading elapsed).lifetime := by
    rw [hgen]
    refine ⟨UInt32.le_iff_toNat_le.mpr (hG.symm ▸ hold'), ?_, ?_⟩
    · have hnewest : s.manager.newestGeneration.toNat + 250 < 2 ^ 32 := by
        have hwithin := h.within
        have hmono := framesWithin_mono (Nat.sub_le_sub_right hle createdAt)
        omega
      have hsum : (s.manager.newestGeneration + maxGenerationGap).toNat =
          s.manager.newestGeneration.toNat + 250 := by
        rw [UInt32.toNat_add]
        exact Nat.mod_eq_of_lt hnewest
      have holdest := UInt32.le_iff_toNat_le.mp hk.oldest_le
      refine UInt32.le_iff_toNat_le.mpr ?_
      rw [hG]
      change _ ≤ (s.manager.newestGeneration + maxGenerationGap).toNat
      omega
    · have hcreated : (s.manager.cleanupExpiredCiphers
          (reading elapsed).cleanup).ratchetCreatedAt = createdAt := h.created
      refine UInt32.le_iff_toNat_le.mpr ?_
      change _ ≤ ((s.manager.cleanupExpiredCiphers
        (reading elapsed).cleanup).maxLifetimeGeneration elapsed).toNat
      rw [hG, toNat_maxLifetimeGeneration (by rw [hcreated]; omega), hcreated]
      exact hpace
  obtain ⟨c, m', hcipher, hserves⟩ := hk.cipher (reading elapsed) hpasses (by rw [hgen, hG]; omega)
  obtain ⟨-, expiry, hfound⟩ := cipher_ok hcipher
  obtain ⟨k', hk'⟩ := hserves.keeps
  have hkey : c.key = (ratchetSecrets K secret f.generation).key := by
    have := hk'.key_eq _ _ hfound
    rwa [hgen, hG] at this
  refine ⟨parsed, hparse, henc, ?_⟩
  unfold CryptorManager.decrypt
  simp only [hcan, if_true, hcipher, hopen c hkey]

/-! ### The decryptor of a user -/

/-- A frame that is handed to a decryptor. -/
structure Arrival where
  mediaType : MediaType
  frame : Bytes
  capacity : ℕ
  now : ℕ

/-- The frame as the managers see it. Silence and plaintext do not come to them. -/
def Arrival.encrypted (clock : ℕ) (a : Arrival) : Option (ParsedFrame × ℕ) :=
  if a.mediaType = .audio ∧ a.frame = opusSilenceFrame then none
  else
    match parse a.frame with
    | .error _ => none
    | .ok parsed => if parsed.encrypted then some (parsed, a.now - clock) else none

variable (A K) in
def receive (d : Decryptor) (a : Arrival) : Option (Except FrameDecryptError Bytes) × Decryptor :=
  d.decrypt A K a.mediaType a.frame a.capacity a.now

lemma Arrival.encrypted_eq_some (h : a.encrypted clock = some call) :
    ¬ (a.mediaType = .audio ∧ a.frame = opusSilenceFrame) ∧ parse a.frame = .ok call.1 ∧
      call.1.encrypted = true ∧ call.2 = a.now - clock := by
  unfold Arrival.encrypted at h
  split at h
  · cases h
  next hsilence =>
    rcases hparse : parse a.frame with error | parsed
    · rw [hparse] at h
      cases h
    · rw [hparse] at h
      dsimp only at h
      split at h
      next henc =>
        cases h
        exact ⟨hsilence, rfl, henc, rfl⟩
      next => cases h

/-- A frame that is not encrypted does not come to the managers. -/
lemma receive_unencrypted (h : a.encrypted d.clock = none) :
    (receive A K d a).2 = d.cleanupExpiredManagers a.now := by
  unfold Arrival.encrypted at h
  unfold Channel.receive Decryptor.decrypt
  by_cases hsilence : a.mediaType = .audio ∧ a.frame = opusSilenceFrame
  · simp only [if_pos hsilence]
  · rw [if_neg hsilence] at h
    simp only [if_neg hsilence]
    rcases hparse : parse a.frame with error | parsed
    · rfl
    · have hplain : ¬ parsed.encrypted = true := by simpa [hparse] using h
      dsimp only
      rw [if_pos hplain]

/-- An encrypted frame is tried with the managers that are not expired. -/
lemma receive_encrypted {d : Decryptor} (h : a.encrypted d.clock = some call) :
    (receive A K d a).2 = { d.cleanupExpiredManagers a.now with
      managers := (Decryptor.tryManagers A K call.1 (reading call.2)
        (d.cleanupExpiredManagers a.now).managers.reverse none).2.reverse } ∧
    ∀ o, (receive A K d a).1 = some (.ok o) ↔
      (Decryptor.tryManagers A K call.1 (reading call.2)
        (d.cleanupExpiredManagers a.now).managers.reverse none).1 = some (.ok o) := by
  obtain ⟨hsilence, hparse, henc, htime⟩ := Arrival.encrypted_eq_some h
  have hreading : reading call.2 = ⟨(d.cleanupExpiredManagers a.now).elapsed a.now,
      (d.cleanupExpiredManagers a.now).elapsed a.now,
      (d.cleanupExpiredManagers a.now).elapsed a.now,
      (d.cleanupExpiredManagers a.now).elapsed a.now⟩ := by
    rw [htime]
    rfl
  unfold Channel.receive Decryptor.decrypt
  simp only [if_neg hsilence, hparse, henc, not_true_eq_false, if_false, ← hreading]
  generalize Decryptor.tryManagers A K call.1 (reading call.2)
    (d.cleanupExpiredManagers a.now).managers.reverse none = tried
  obtain ⟨_ | _ | o, managers⟩ := tried
  · exact ⟨rfl, by simp⟩
  · exact ⟨rfl, by simp⟩
  · exact ⟨rfl, by simp⟩

/-- The decryptor keeps the manager of `s`, as the newest one. -/
structure Follows (clock : ℕ) (d : Decryptor) (s : History) : Prop where
  clock_eq : d.clock = clock
  newest : ∃ old, d.managers = old ++ [{ manager := s.manager }]

/-- The newest manager does not expire. -/
lemma Follows.cleanup (h : Follows clock d s) (now : ℕ) :
    Follows clock (d.cleanupExpiredManagers now) s := by
  obtain ⟨hclock, old, hold⟩ := h
  refine ⟨hclock, ?_⟩
  rw [Decryptor.cleanupExpiredManagers, hold]
  clear hold
  induction old with
  | nil => exact ⟨[], rfl⟩
  | cons o old ih =>
    dsimp only
    rw [List.cons_append, List.dropWhile_cons]
    split
    · exact ih
    · exact ⟨o :: old, rfl⟩

/-- The newest manager is asked first. -/
lemma tryManagers_newest (parsed : ParsedFrame) (now : Readings) (m : ManagedRatchet)
    (ms : List ManagedRatchet) (lastError : Option FrameDecryptError) :
    (∃ ms', (Decryptor.tryManagers A K parsed now (m :: ms) lastError).2 =
      { m with manager := (m.manager.decrypt A K parsed now).2 } :: ms') ∧
    ∀ o, (m.manager.decrypt A K parsed now).1 = some (.ok o) →
      (Decryptor.tryManagers A K parsed now (m :: ms) lastError).1 = some (.ok o) := by
  unfold Decryptor.tryManagers
  rcases m.manager.decrypt A K parsed now with ⟨_ | _ | o, manager⟩
  · exact ⟨⟨_, rfl⟩, by simp⟩
  · exact ⟨⟨_, rfl⟩, by simp⟩
  · exact ⟨⟨_, rfl⟩, by simp⟩

/-- **A call of the decryptor** is a call of its newest manager, if the frame is encrypted. -/
theorem Follows.receive (h : Follows clock d s) (a : Arrival)
    (hcall : a.encrypted clock = some call) :
    Follows clock (receive A K d a).2 (s.step A K call) ∧
      ∀ o, (s.manager.decrypt A K call.1 (reading call.2)).1 = some (.ok o) →
        (receive A K d a).1 = some (.ok o) := by
  obtain ⟨hclock, old, hold⟩ := h.cleanup a.now
  obtain rfl : d.clock = clock := hclock
  obtain ⟨hmanagers, hresult⟩ := receive_encrypted (A := A) (K := K) hcall
  have hreverse : (d.cleanupExpiredManagers a.now).managers.reverse =
      { manager := s.manager } :: old.reverse := by
    rw [hold, List.reverse_append]
    rfl
  rw [hreverse] at hmanagers hresult
  obtain ⟨⟨ms, hms⟩, hopen⟩ := tryManagers_newest (A := A) (K := K) call.1 (reading call.2)
    { manager := s.manager } old.reverse none
  rw [hms] at hmanagers
  refine ⟨⟨by rw [hmanagers]; rfl, ms.reverse, ?_⟩, fun o ho => (hresult o).mpr (hopen o ho)⟩
  rw [hmanagers, List.reverse_cons]
  rfl

/-! ### Runs -/

variable (A K) in
/-- What the manager of `secret` has come to; the decryptor moves to it at `start`. -/
def history (secret : Bytes) (d : Decryptor) (start : ℕ) (arrivals : List Arrival) : History :=
  run (History.step A K) (.start secret (start - d.clock))
    (arrivals.filterMap (Arrival.encrypted d.clock))

variable (A K) in
def received (secret : Bytes) (d : Decryptor) (start : ℕ) (arrivals : List Arrival) : Decryptor :=
  run (fun d a => (receive A K d a).2) (d.transitionToRatchet (.new secret) start) arrivals

lemma follows_transition (d : Decryptor) (start : ℕ) :
    Follows d.clock (d.transitionToRatchet (.new secret) start)
      (.start secret (start - d.clock)) := ⟨rfl, _, rfl⟩

/-- The decryptor follows the history, and the history stays true, while the clock goes on. -/
lemma follows_run {t now : ℕ} {arrivals : List Arrival} (hf : Follows clock d s)
    (hr : Receiving K secret createdAt s) (hlast : s.last ≤ t - clock)
    (hts : (t :: (arrivals.map Arrival.now ++ [now])).Pairwise (· ≤ ·)) :
    Follows clock (run (fun d a => (receive A K d a).2) d arrivals)
        (run (History.step A K) s (arrivals.filterMap (Arrival.encrypted clock))) ∧
      Receiving K secret createdAt
        (run (History.step A K) s (arrivals.filterMap (Arrival.encrypted clock))) ∧
      (run (History.step A K) s (arrivals.filterMap (Arrival.encrypted clock))).last ≤
        now - clock := by
  induction arrivals generalizing d s t with
  | nil =>
    have hle : t ≤ now := List.rel_of_pairwise_cons hts (by simp)
    exact ⟨hf, hr, hlast.trans (Nat.sub_le_sub_right hle clock)⟩
  | cons a arrivals ih =>
    have hle : t ≤ a.now := List.rel_of_pairwise_cons hts (by simp)
    have hlast' : s.last ≤ a.now - clock := hlast.trans (Nat.sub_le_sub_right hle clock)
    have hrest : (a.now :: (arrivals.map Arrival.now ++ [now])).Pairwise (· ≤ ·) :=
      hts.tail
    rw [run_cons]
    rcases hcall : a.encrypted clock with _ | call
    · rw [List.filterMap_cons_none hcall]
      refine ih ?_ hr hlast' hrest
      rw [receive_unencrypted (by rw [hf.clock_eq]; exact hcall)]
      exact hf.cleanup a.now
    · rw [List.filterMap_cons_some hcall, run_cons]
      have htime : call.2 = a.now - clock := (Arrival.encrypted_eq_some hcall).2.2.2
      refine ih (hf.receive a hcall).1 (hr.step call (htime.symm ▸ hlast')) ?_ hrest
      exact htime.le

/-- A frame that was sealed with the ratchet is decrypted, if it comes in time. -/
lemma Follows.hears {now : ℕ} {f : SealedFrame} (hf : Follows clock d s)
    (hr : Receiving K secret createdAt s) (hsealed : f.Sealed A K secret)
    (hlen : f.payload.length < 2 ^ 63) (hlast : s.last ≤ now - clock)
    (hage : framesWithin (now - clock - createdAt) < 2 ^ 56 - 2 ^ 32)
    (hin : InTime s createdAt f.number (now - clock)) (mediaType : MediaType) (capacity : ℕ) :
    (Channel.receive A K d ⟨mediaType, f.bytes, capacity, now⟩).1 =
      some (.ok f.processed.plaintext) := by
  obtain ⟨parsed, hparse, henc, hopen⟩ := hr.opens hsealed hlen hlast hage hin
  have hencrypted : Arrival.encrypted clock ⟨mediaType, f.bytes, capacity, now⟩ =
      some (parsed, now - clock) := by
    have hsilence : ¬ (mediaType = .audio ∧ f.bytes = opusSilenceFrame) := by
      rintro ⟨-, heq⟩
      have hlong := hsealed.length_bytes
      rw [heq] at hlong
      exact absurd hlong (by decide)
    simp only [Arrival.encrypted, if_neg hsilence, hparse, henc, if_true]
  exact (hf.receive (A := A) (K := K) _ hencrypted).2 _ hopen

/-- The same behind any arrivals. -/
theorem receive_sealed {f : SealedFrame} (hlen : f.payload.length < 2 ^ 63) {d : Decryptor}
    {start : ℕ} (hclock : d.clock ≤ start) {arrivals : List Arrival} (mediaType : MediaType)
    (capacity : ℕ) {now : ℕ}
    (hsealed : f.number < callLimit → f.Sealed A K secret)
    (htimes : (start :: (arrivals.map Arrival.now ++ [now])).Pairwise (· ≤ ·))
    (hage : framesWithin (now - start) < 2 ^ 56 - 2 ^ 32)
    (hin : InTime (history A K secret d start arrivals) (start - d.clock) f.number
      (now - d.clock)) :
    (receive A K (received A K secret d start arrivals) ⟨mediaType, f.bytes, capacity, now⟩).1 =
      some (.ok f.processed.plaintext) := by
  have hle : start ≤ now := List.rel_of_pairwise_cons htimes (by simp)
  have hsub : now - d.clock - (start - d.clock) = now - start := by omega
  have hlimit : f.number < callLimit := by
    have hpace := hin.pace
    rw [hsub] at hpace
    simp only [callLimit]
    omega
  obtain ⟨hfollows, hreceiving, hlast⟩ := follows_run (A := A) (follows_transition d start)
    (receiving_start (K := K)) le_rfl htimes
  exact hfollows.hears hreceiving (hsealed hlimit) hlen hlast (by rwa [hsub]) hin mediaType
    capacity

/-- **Frames get through.** A sender and a receiver have come to the same ratchet; the sender
encrypts, and anything may arrive at the receiver. A frame of the sender that comes in time is
decrypted to what was encrypted, whatever arrived before it. -/
theorem delivered (A : Aead) (K : Kdf) (ops : List Op) (secret : Bytes)
    (hsecret : (run (Sending.step A K) {} ops).sender.secret = some secret)
    (f : SealedFrame) (hsent : f ∈ (run (Sending.step A K) {} ops).sent)
    (hlen : f.payload.length < 2 ^ 63) (d : Decryptor) (start : ℕ) (hclock : d.clock ≤ start)
    (arrivals : List Arrival) (mediaType : MediaType) (capacity now : ℕ)
    (htimes : (start :: (arrivals.map Arrival.now ++ [now])).Pairwise (· ≤ ·))
    (hage : framesWithin (now - start) < 2 ^ 56 - 2 ^ 32)
    (hin : InTime (history A K secret d start arrivals) (start - d.clock) f.number
      (now - d.clock)) :
    (receive A K (received A K secret d start arrivals) ⟨mediaType, f.bytes, capacity, now⟩).1 =
        some (.ok f.processed.plaintext) ∧
      (f.codec = .opus ∨ f.codec = .vp8 ∨ f.codec = .vp9 →
        f.processed.plaintext = f.payload) := by
  have hnumbered := (sends_run ops).numbered secret hsecret
  refine ⟨receive_sealed hlen hclock mediaType capacity (hnumbered.is_sealed f hsent) htimes hage
    hin, fun hcodec => plaintext_eq_payload f ?_⟩
  rcases hcodec with h | h | h
  · exact .inl h
  · exact .inr (.inl h)
  · exact .inr (.inr (.inl h))

/-- Three frames after an activation. -/
def threeFrames : List Op :=
  [.stageRatchet [7], .activatePending, .encryptInto .opus [1, 2], .encryptInto .vp8 [3],
    .encryptInto .opus [4, 5, 6]]

/-- Frame `i` of the sender of `threeFrames`. -/
def sentFrame (i : ℕ) : SealedFrame :=
  (run (Sending.step toyAead toyKdf) {} threeFrames).sent.getD i ⟨0, .opus, [], []⟩

/-- The first and the third frame arrive, the first one twice. -/
def arrivedBefore : List Arrival :=
  [⟨.audio, (sentFrame 0).bytes, 0, 5⟩, ⟨.audio, (sentFrame 0).bytes, 0, 6⟩,
    ⟨.audio, (sentFrame 2).bytes, 0, 7⟩]

/-- The second frame comes after the third one, and is decrypted. -/
theorem delivered_late :
    (receive toyAead toyKdf (received toyAead toyKdf [7] (.withPlaintextPassthrough (.disabled 1) 1)
      2 arrivedBefore) ⟨.video, (sentFrame 1).bytes, 0, 8⟩).1 = some (.ok [3]) := by
  have hreceipts : (history toyAead toyKdf [7] (.withPlaintextPassthrough (.disabled 1) 1) 2
      arrivedBefore).receipts = [⟨1, 4⟩, ⟨3, 6⟩] := by decide +kernel
  have hnumber : (sentFrame 1).number = 2 := by decide +kernel
  have hpayload : (sentFrame 1).payload = [3] := by decide +kernel
  have hin : InTime (history toyAead toyKdf [7] (.withPlaintextPassthrough (.disabled 1) 1) 2
      arrivedBefore) 1 (sentFrame 1).number 7 := by
    rw [hnumber]
    refine ⟨?_, Nat.zero_le _, Nat.zero_le _, ?_⟩
    · rw [History.numbers, hreceipts]
      exact .inr (.inr ⟨⟨1, rfl, by decide⟩, by decide, by decide, by decide⟩)
    · rw [hreceipts]
      decide
  obtain ⟨hopen, hplain⟩ := delivered toyAead toyKdf threeFrames [7] (by decide +kernel)
    (sentFrame 1) (by decide +kernel) (by rw [hpayload]; decide)
    (.withPlaintextPassthrough (.disabled 1) 1) 2 (by decide) arrivedBefore .video 0 8
    (by decide) (by decide) hin
  rw [hopen, hplain (by decide +kernel), hpayload]

end Cacophony.Channel
