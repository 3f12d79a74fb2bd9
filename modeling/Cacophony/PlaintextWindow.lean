import Cacophony.DaveSession
import Cacophony.MlsPolicy
import Cacophony.Runs

/-!
When a session lets plaintext frames through.

The session keeps one window, and every decryptor a copy of it, taken when the decryptor is made.
A change of mode is applied to each of them apart. The copies never come apart, so the frames
that are let through are told by the calls so far.
-/

namespace Cacophony.PlaintextWindow

open Mls Progs Runs UserDecryptor DaveSession
open Gcm Cacophony.Frame Ratchet

variable {M : OpenMls}

/-! ### Windows -/

section Windows

variable {p : PlaintextPassthrough} {now t : ℕ}

lemma allowsPlaintext_disabled (h : now ≤ t) :
    (PlaintextPassthrough.disabled now).allowsPlaintext t = false := by
  simpa [PlaintextPassthrough.disabled, PlaintextPassthrough.allowsPlaintext] using h

lemma allowsPlaintext_enabled : (p.apply .enabled now).allowsPlaintext t = true := rfl

/-- The two branches of `apply` agree: the end of the window is cut off at the expiry. -/
lemma allowsPlaintext_disabledAfter (d : ℕ) :
    (p.apply (.disabledAfter d) now).allowsPlaintext t = true ↔
      p.allowsPlaintext t = true ∧ t < now + d := by
  rcases p with ⟨_ | old⟩ <;>
    simp [PlaintextPassthrough.apply, PlaintextPassthrough.allowsPlaintext]

end Windows

/-! ### The calls -/

inductive Call (M : OpenMls)
  | setPassthroughMode (mode : PassthroughMode)
  | resetMediaTransformState
  -- the group is the one the session has come to by then
  | updateReceiveRatchets (group : Option (SessionGroup M.Secrets))
  | decryptInto (userId : UInt64) (mediaType : MediaType) (frame : Bytes) (capacity : ℕ)

/-- A call, and the instant it reads from the clock. -/
structure Event (M : OpenMls) where
  call : Call M
  now : ℕ

def step (A : Aead) (K : Kdf) (s : Session M) (e : Event M) : Session M :=
  match e.call with
  | .setPassthroughMode mode => setPassthroughMode mode e.now s
  | .resetMediaTransformState => resetMediaTransformState e.now s
  | .updateReceiveRatchets group =>
    (exec (updateReceiveRatchetsAndStageSender e.now) { s with group }).2
  | .decryptInto userId mediaType frame capacity =>
    (decryptInto A K userId mediaType frame capacity e.now s).2

/-- Plaintext is enabled since the last reset, and at `t` no `DisabledAfter` since the last
`Enabled` has expired. -/
def WindowOpen (es : List (Event M)) (t : ℕ) : Prop :=
  ∃ before enable after, es = before ++ enable :: after ∧
    enable.call = .setPassthroughMode .enabled ∧
    ∀ e ∈ after, e.call ≠ .resetMediaTransformState ∧ e.call ≠ .setPassthroughMode .enabled ∧
      ∀ d, e.call = .setPassthroughMode (.disabledAfter d) → t < e.now + d

section Histories

variable {es : List (Event M)} {e : Event M} {t : ℕ}

lemma not_windowOpen_nil : ¬ WindowOpen ([] : List (Event M)) t := by
  rintro ⟨before, enable, after, heq, -⟩
  simp at heq

lemma windowOpen_enabled (h : e.call = .setPassthroughMode .enabled) : WindowOpen (es ++ [e]) t :=
  ⟨es, e, [], rfl, h, by simp⟩

/-- A call that does not enable plaintext leaves a window open that was open and that the call
neither resets nor finds expired. -/
lemma windowOpen_append (h : e.call ≠ .setPassthroughMode .enabled) :
    WindowOpen (es ++ [e]) t ↔ WindowOpen es t ∧ e.call ≠ .resetMediaTransformState ∧
      ∀ d, e.call = .setPassthroughMode (.disabledAfter d) → t < e.now + d := by
  constructor
  · rintro ⟨before, enable, after, heq, henable, hafter⟩
    rcases List.eq_nil_or_concat' after with rfl | ⟨after, last, rfl⟩
    · obtain ⟨-, hlast⟩ := List.append_inj' heq rfl
      simp only [List.cons.injEq, and_true] at hlast
      exact absurd (hlast ▸ henable) h
    · rw [← List.cons_append, ← List.append_assoc] at heq
      obtain ⟨hes, hlast⟩ := List.append_inj' heq rfl
      simp only [List.cons.injEq, and_true] at hlast
      obtain ⟨hreset, -, hexpiry⟩ := hafter last (by simp)
      rw [hlast]
      exact ⟨⟨before, enable, after, hes, henable, fun x hx => hafter x (by simp [hx])⟩, hreset,
        hexpiry⟩
  · rintro ⟨⟨before, enable, after, rfl, henable, hafter⟩, hreset, hexpiry⟩
    refine ⟨before, enable, after ++ [e], by simp, henable, fun x hx => ?_⟩
    rcases List.mem_append.mp hx with hx | hx
    · exact hafter x hx
    · rw [List.mem_singleton.mp hx]
      exact ⟨hreset, h, hexpiry⟩

end Histories

/-! ### The copies -/

/-- Every decryptor has the window of the session. -/
def Copies (s : Session M) : Prop := ∀ u d, s.decryptors u = some d → d.passthrough = s.passthrough

variable {s : Session M} {A : Aead} {K : Kdf} {now t : ℕ}

lemma decrypt_passthrough (d : Decryptor) (mediaType : MediaType) (frame : Bytes)
    (capacity now : ℕ) :
    (d.decrypt A K mediaType frame capacity now).2.passthrough = d.passthrough := by
  unfold Decryptor.decrypt
  split
  · rfl
  · split
    · rfl
    · split
      · rfl
      · dsimp only
        split <;> rfl

/-- Putting in a decryptor that has the window of the session. -/
lemma Copies.update (h : Copies s) {d : Decryptor} (hd : d.passthrough = s.passthrough)
    (u : UInt64) : Copies { s with decryptors := Function.update s.decryptors u (some d) } := by
  intro v d' hd'
  by_cases hv : v = u
  · rw [hv] at hd'
    simp only [Function.update_self, Option.some.injEq] at hd'
    rw [← hd', hd]
  · simp only [Function.update_of_ne hv] at hd'
    exact h v d' hd'

lemma Copies.setPassthroughMode (h : Copies s) (mode : PassthroughMode) :
    Copies (setPassthroughMode mode now s) := by
  intro u d hd
  obtain ⟨d', hd', rfl⟩ := Option.map_eq_some_iff.mp hd
  exact congrArg (·.apply mode now) (h u d' hd')

lemma copies_resetMediaTransformState (s : Session M) :
    Copies (resetMediaTransformState now s) := by
  intro u d hd
  simp [resetMediaTransformState] at hd

lemma Copies.decryptInto (h : Copies s) (u : UInt64) (mediaType : MediaType) (frame : Bytes)
    (capacity : ℕ) : Copies (decryptInto A K u mediaType frame capacity now s).2 := by
  unfold DaveSession.decryptInto
  rcases hd : s.decryptors u with _ | d
  · exact h
  · exact h.update ((decrypt_passthrough d mediaType frame capacity now).trans (h u d hd)) u

lemma decryptInto_passthrough (u : UInt64) (mediaType : MediaType) (frame : Bytes)
    (capacity : ℕ) :
    (decryptInto A K u mediaType frame capacity now s).2.passthrough = s.passthrough := by
  unfold decryptInto
  split <;> rfl

/-- The session has the window `p`, and every decryptor too. -/
def HasWindow (p : PlaintextPassthrough) (s : Session M) : Prop := Copies s ∧ s.passthrough = p

variable {p : PlaintextPassthrough}

/-- A decryptor that is made takes the window of the session, one that is there has it. -/
lemma ends_hasWindow :
    Ends (HasWindow p) (updateReceiveRatchetsAndStageSender (M := M) now)
      (fun _ => HasWindow p) (HasWindow p) := by
  refine ends_updateReceiveRatchetsAndStageSender (fun s u d ratchet hs hd => ?_)
    (fun s us hs => ?_) fun s ratchet hs => hs
  · refine ⟨hs.1.update ?_ u, hs.2⟩
    rw [← hd]
    rcases hdu : s.decryptors u with _ | d'
    · rfl
    · exact hs.1 u d' hdu
  · refine ⟨fun u d hd => hs.1 u d ?_, hs.2⟩
    simp only [Option.ite_none_right_eq_some] at hd
    exact hd.2

/-! ### Runs -/

/-- What a call does to the window. -/
def windowAfter (p : PlaintextPassthrough) (e : Event M) : PlaintextPassthrough :=
  match e.call with
  | .setPassthroughMode mode => p.apply mode e.now
  | .resetMediaTransformState => .disabled e.now
  | _ => p

lemma hasWindow_step (h : Copies s) (e : Event M) :
    HasWindow (windowAfter s.passthrough e) (step A K s e) := by
  rcases e with ⟨_ | _ | group | _, now⟩
  · exact ⟨h.setPassthroughMode _, rfl⟩
  · exact ⟨copies_resetMediaTransformState s, rfl⟩
  · exact ends_hasWindow.exec
      (show HasWindow s.passthrough { s with group } from ⟨h, rfl⟩)
  · exact ⟨h.decryptInto _ _ _ _, decryptInto_passthrough _ _ _ _⟩

lemma Copies.run (h : Copies s) (es : List (Event M)) : Copies (run (step A K) s es) :=
  run_inv_of_step (I := Copies) (fun _ e hs => (hasWindow_step hs e).1) es h

lemma copies_new (u c : UInt64) (provider : M.Provider) : Copies (Session.new u c provider now) :=
  fun _ _ h => nomatch h

/-- A window that is open exactly by the calls so far is so after one more. -/
lemma allowsPlaintext_windowAfter {es : List (Event M)} {e : Event M} (he : e.now ≤ t)
    (h : p.allowsPlaintext t = true ↔ WindowOpen es t) :
    (windowAfter p e).allowsPlaintext t = true ↔ WindowOpen (es ++ [e]) t := by
  by_cases henable : e.call = .setPassthroughMode .enabled
  · simp [windowAfter, henable, allowsPlaintext_enabled, windowOpen_enabled henable]
  · rw [windowOpen_append henable, ← h]
    rcases e with ⟨(_ | d) | _ | _ | _, now⟩
    · exact absurd rfl henable
    · simp [windowAfter, allowsPlaintext_disabledAfter]
    · simp [windowAfter, allowsPlaintext_disabled he]
    · simp [windowAfter]
    · simp [windowAfter]

/-- The window of the session is open exactly by the calls so far. The induction is on the last
call, since the window looks back from the end. -/
lemma allowsPlaintext_run {t0 : ℕ} (u c : UInt64) (provider : M.Provider) (es : List (Event M))
    (h0 : t0 ≤ t) (hes : ∀ e ∈ es, e.now ≤ t) :
    (run (step A K) (Session.new u c provider t0) es).passthrough.allowsPlaintext t = true ↔
      WindowOpen es t := by
  induction es using List.reverseRecOn with
  | nil => simp [Session.new, allowsPlaintext_disabled h0, not_windowOpen_nil]
  | append_singleton es e ih =>
    rw [run_append, run_cons, run_nil, (hasWindow_step ((copies_new u c provider).run es) e).2]
    exact allowsPlaintext_windowAfter (hes e (by simp)) (ih fun x hx => hes x (by simp [hx]))

/-- A plaintext frame goes by the window alone. -/
lemma decrypt_plaintext {mediaType : MediaType} {frame : Bytes} {parsed : ParsedFrame}
    (d : Decryptor) (capacity : ℕ) (hparse : parse frame = .ok parsed)
    (hplain : parsed.encrypted = false)
    (hsilence : ¬ (mediaType = .audio ∧ frame = opusSilenceFrame)) :
    (d.decrypt A K mediaType frame capacity t).1 =
      some (if d.passthrough.allowsPlaintext t then .ok frame
        else .error .passthroughDisabled) := by
  unfold Decryptor.decrypt
  simp only [if_neg hsilence, hparse, hplain, Bool.false_eq_true, not_false_eq_true, if_true]
  rfl

/-- Whatever calls a session has seen, at an instant `t` no earlier than they: a frame that is not
encrypted, and is not the silence frame, is returned for a user if and only if the user has a
decryptor and the calls have left the window open. Every decryptor has the window of the session,
and `DisabledAfter` leaves no window open that was closed. -/
theorem decryptInto_plaintext_run (A : Aead) (K : Kdf) (u c : UInt64) (provider : M.Provider)
    (t0 t : ℕ) (es : List (Event M)) (s : Session M)
    (hs : s = run (step A K) (Session.new u c provider t0) es)
    (h0 : t0 ≤ t) (hes : ∀ e ∈ es, e.now ≤ t) :
    (∀ v mediaType frame capacity parsed, parse frame = .ok parsed → parsed.encrypted = false →
      ¬ (mediaType = .audio ∧ frame = opusSilenceFrame) →
      ((decryptInto A K v mediaType frame capacity t s).1 = some (.ok frame) ↔
        (s.decryptors v).isSome ∧ WindowOpen es t)) ∧
    (∀ v d, s.decryptors v = some d → d.passthrough = s.passthrough) ∧
    ∀ d now at', (setPassthroughMode (.disabledAfter d) now s).passthrough.allowsPlaintext at' →
      s.passthrough.allowsPlaintext at' := by
  have hcopies : Copies s := hs ▸ (copies_new u c provider).run es
  refine ⟨fun v mediaType frame capacity parsed hparse hplain hsilence => ?_, hcopies,
    fun d now at' h => ((allowsPlaintext_disabledAfter d).mp h).1⟩
  rcases hd : s.decryptors v with _ | d
  · simp [decryptInto, hd]
  · rw [← allowsPlaintext_run u c provider es h0 hes, ← hs, ← hcopies v d hd]
    simp only [decryptInto, hd, decrypt_plaintext d capacity hparse hplain hsilence]
    cases d.passthrough.allowsPlaintext t <;> simp [Except.mapError]

def idleAead : Aead where
  encrypt _ _ _ _ := none
  decrypt _ _ _ _ _ := none
  length_encrypt h := nomatch h
  decrypt_encrypt h := nomatch h

def idleKdf : Kdf where
  deriveTreeSecret _ _ _ n := List.replicate n 0
  length_derive := by simp

def withUser2 : MlsGroup Unit where
  members := [⟨0, ⟨credentialBasic, u64Be 1⟩⟩, ⟨1, ⟨credentialBasic, u64Be 2⟩⟩]
  context := ⟨mls10, supportedCiphersuite, []⟩
  ownLeafIndex := 0
  pendingProposals := []
  pendingCommit := none
  secrets := ()

/-- Plaintext is enabled before the decryptor of user `2` is made, and given five more
nanoseconds afterwards. -/
def fiveMore : List (Event plainMls) :=
  [⟨.setPassthroughMode .enabled, 1⟩, ⟨.updateReceiveRatchets (some ⟨withUser2, .established⟩), 2⟩,
    ⟨.setPassthroughMode (.disabledAfter 5), 3⟩]

def afterFiveMore : Session plainMls :=
  run (step idleAead idleKdf) (Session.new 1 9 () 0) fiveMore

theorem decryptInto_fiveMore :
    (decryptInto idleAead idleKdf 2 .audio [0] 0 7 afterFiveMore).1 = some (.ok [0]) ∧
    (decryptInto idleAead idleKdf 2 .audio [0] 0 8 afterFiveMore).1 ≠ some (.ok [0]) := by
  obtain ⟨parsed, hparse, hplain⟩ : ∃ parsed, parse [0] = .ok parsed ∧ parsed.encrypted = false :=
    ⟨_, rfl, rfl⟩
  have h7 := (decryptInto_plaintext_run (M := plainMls) idleAead idleKdf 1 9 () 0 7 fiveMore
    afterFiveMore rfl (by decide) (by decide)).1 2 .audio [0] 0 parsed hparse hplain (by decide)
  have h8 := (decryptInto_plaintext_run (M := plainMls) idleAead idleKdf 1 9 () 0 8 fiveMore
    afterFiveMore rfl (by decide) (by decide)).1 2 .audio [0] 0 parsed hparse hplain (by decide)
  rw [h7, ne_eq, h8]
  refine ⟨⟨by decide +kernel, [], _, _, rfl, rfl, by simp⟩, ?_⟩
  rintro ⟨-, before, enable, after, heq, henable, hafter⟩
  rcases before with _ | ⟨_, _ | ⟨_, _ | ⟨_, before⟩⟩⟩ <;> simp [fiveMore] at heq
  · obtain ⟨-, rfl⟩ := heq
    simpa using (hafter ⟨.setPassthroughMode (.disabledAfter 5), 3⟩ (by simp)).2.2 5 rfl
  · simp [← heq.2.1] at henable
  · simp [← heq.2.2.1] at henable

end Cacophony.PlaintextWindow
