import Cacophony.PendingMedia
import Cacophony.PlaintextWindow
import Cacophony.PumpMoves

/-!
For how long the coordinator lets plaintext frames through.

The window is the session's, and the coordinator only remembers the mode it has set last: it does
not set the same mode twice, sets two modes in a row where it grants a time of grace, and forgets
the mode when it replaces the session. As long as its pumps succeed the memory is right: the
window has no end only while the gateway announces no protocol version, and its end is at most a
grace after it was opened last.
-/

namespace Cacophony.PlaintextGrace

open Mls Progs Runs Gateway UserDecryptor
open PlaintextWindow Gcm Ratchet Cacophony.Frame PumpMoves
open PendingMedia (DaveDecryptError)
open DaveSession (SetExternalSenderError ProcessProposalsError ProcessCommitError
  ProcessWelcomeError onGroup onProvider)
open Coordinator (DaveCoordinator Pump PumpM Action GatewayCommand DaveError
  DaveKeyPackageScope call update push davePlaintextReceiveGrace)

/-! ### The window of a session -/

section Sessions

variable {M : OpenMls} {p : PlaintextPassthrough} {ε δ α : Type} {now : ℕ}

lemma always_onGroup {none : ε} {wrap : δ → ε}
    {f : MlsGroup M.Secrets × M.Provider → Except δ α × MlsGroup M.Secrets × M.Provider} :
    Always (HasWindow p) (onGroup none wrap f) :=
  DaveSession.always_onGroup fun _ _ _ _ _ h _ _ => h

lemma always_onProvider {wrap : δ → ε} {f : M.Provider → Except δ α × M.Provider} :
    Always (HasWindow p) (onProvider wrap f) :=
  DaveSession.ends_onProvider (fun _ _ _ h _ => h) fun _ _ _ h _ => h

lemma always_deleteGroup {wrap : M.Error → ε} :
    Always (HasWindow p) (DaveSession.deleteGroup wrap) := by
  refine ends_get_bind fun s hs => ?_
  rcases s.group with _ | g
  · exact ends_pure fun w hw => hw ▸ hs
  · refine ends_bind (Q := fun _ => HasWindow p) (ends_set fun _ _ => hs) fun _ => ?_
    exact always_onProvider

lemma always_setExternalSender (bytes : Bytes) :
    Always (HasWindow p) (DaveSession.setExternalSender (M := M) bytes) := by
  refine always_get_bind fun s => ?_
  split
  · exact always_throw _
  refine always_bind always_deleteGroup fun _ => always_bind (always_ofResult _ _) fun _ => ?_
  refine always_bind (always_modify fun _ h => h) fun _ => ?_
  refine always_bind (always_modify fun _ h => h) fun _ => ends_adapt ?_
  refine always_get_bind fun s => ?_
  split
  · exact always_throw _
  · exact always_bind always_onProvider fun _ => always_modify fun _ h => h

lemma always_activateEstablishedGroup :
    Always (HasWindow p) (DaveSession.activateEstablishedGroup (M := M) now) :=
  always_bind (always_modify fun _ h => h) fun _ => ends_hasWindow

lemma always_processProposals (operation : DaveSession.ProposalsOperation) (proposals : Bytes)
    (expected : UInt64 → Bool) :
    Always (HasWindow p) (DaveSession.processProposals (M := M) operation proposals expected) := by
  have hcommit : ∀ wasEstablished adds,
      Always (HasWindow p) (DaveSession.commitProposals (M := M) wasEstablished adds) := by
    intro wasEstablished adds
    refine always_bind always_onGroup fun _ => always_bind (always_modify fun _ h => h) fun _ => ?_
    refine always_bind (always_ofResult _ _) fun _ => ?_
    refine always_bind (always_modify fun _ h => h) fun _ => ?_
    split
    · exact always_pure _
    · exact always_bind (always_ofResult _ _) fun _ => always_pure _
  refine always_get_bind fun s => ?_
  split
  · exact always_throw _
  refine always_bind (always_ofResult _ _) fun proposals => ?_
  have happly := DaveSession.always_applyProposals (M := M) (I := HasWindow p)
    (fun _ => always_onGroup) (fun _ => always_onGroup) (fun _ => always_onGroup)
    operation proposals expected
  refine always_bind happly fun _ => always_get_bind fun s => ?_
  split
  · refine always_bind always_onGroup fun _ => always_bind (always_modify fun _ h => h) fun _ => ?_
    exact always_bind (always_modify fun _ h => h) fun _ => always_pure _
  · split
    · refine always_bind always_onGroup fun _ => ?_
      exact always_bind (always_modify fun _ h => h) fun _ => hcommit _ _
    · exact hcommit _ _

lemma always_processWelcome (welcome : Bytes) :
    Always (HasWindow p) (DaveSession.processWelcome (M := M) welcome now) := by
  refine always_get_bind fun s => ?_
  split
  · exact always_throw _
  split
  · exact always_throw _
  refine always_bind (always_ofResult _ _) fun _ => always_bind always_onProvider fun staged => ?_
  refine always_bind (always_ofResult _ _) fun _ => always_bind (always_ofResult _ _) fun _ => ?_
  refine always_bind always_onProvider fun group => always_bind (always_ofResult _ _) fun _ => ?_
  refine always_bind always_deleteGroup fun _ => ?_
  refine always_bind (always_modify fun _ h => h) fun _ => ?_
  refine always_bind (always_modify fun _ h => h) fun _ => ?_
  exact ends_adapt always_activateEstablishedGroup

lemma always_mergeCommit (externalSender : ExternalSender) (pendingCommitMatches : Bool)
    (result : Except (ProcessMessageError M.Error) ProcessedMessage) :
    Always (HasWindow p) (DaveSession.mergeCommit externalSender pendingCommitMatches result) := by
  refine always_get_bind fun s => ?_
  split
  · exact always_throw _
  split
  · split
    · exact always_bind (always_ofResult _ _) fun _ => always_onGroup
    · exact always_throw _
  · split
    · exact always_throw _
    · refine always_bind (always_optionForM _ fun _ => always_ofResult _ _) fun _ => ?_
      exact always_onGroup
  · exact always_throw _

lemma always_processCommit (commit : Bytes) :
    Always (HasWindow p) (DaveSession.processCommit (M := M) commit now) := by
  refine always_get_bind fun s => ?_
  split
  · exact always_throw _
  · exact always_throw _
  next g externalSender _ _ =>
    split
    · exact always_throw _
    refine always_bind (always_ofResult _ _) fun _ => always_bind (always_ofResult _ _) fun _ => ?_
    split
    · exact always_throw _
    refine always_bind always_onGroup fun _ => always_bind (always_mergeCommit _ _ _) fun _ => ?_
    refine always_bind (always_modify fun _ h => h) fun _ => ?_
    -- both branches of the last `if` go on to the check of the group
    have hrest : Always (HasWindow p) (do
        let s ← get
        s.group.forM fun g => ofResult .groupPolicy (validateGroupPolicy g.group externalSender)
        adapt .updateRatchets (DaveSession.activateEstablishedGroup now) :
          DaveSession.SessionM M (ProcessCommitError M.Error) Unit) := by
      refine always_get_bind fun s => ?_
      refine always_bind (always_optionForM _ fun _ => always_ofResult _ _) fun _ => ?_
      exact ends_adapt always_activateEstablishedGroup
    dsimp only
    split
    · exact always_bind (always_modify fun _ h => h) fun _ => hrest
    · exact hrest

end Sessions

/-! ### The session as the coordinator sees it -/

inductive SessionError (ε : Type)
  | new (error : ε)
  | setExternalSender (error : SetExternalSenderError ε)
  | createKeyPackage (error : ε)
  | processProposals (error : ProcessProposalsError ε)
  | processCommit (error : ProcessCommitError ε)
  | processWelcome (error : ProcessWelcomeError ε)

/-- What `Session::new` and `create_key_package` take from OpenMLS. -/
structure Keys (M : OpenMls) where
  newProvider : M.Provider → Except M.Error M.Provider
  createKeyPackage : M.Provider → Except M.Error Bytes × M.Provider

/-- The coordinator counts in milliseconds, a session in nanoseconds. -/
def inNanos : Coordinator.PassthroughMode → PassthroughMode
  | .enabled => .enabled
  | .disabledAfter transitionExpiry => .disabledAfter (transitionExpiry * 1000000)

/-- `DAVE_PLAINTEXT_RECEIVE_GRACE` in nanoseconds. -/
def grace : ℕ := davePlaintextReceiveGrace * 1000000

def operationOf : Coordinator.ProposalsOperation → DaveSession.ProposalsOperation
  | .append => .append
  | .revoke => .revoke

variable {M : OpenMls}

/-- The session, for calls that read `now` from the clock. -/
def sessionAt (O : Keys M) (now : ℕ) :
    Coordinator.Session (DaveSession.Session M) (SessionError M.Error) where
  new s := match O.newProvider s.provider with
    | .error error => .error (.new error)
    | .ok provider => .ok (.new s.userId s.channelId provider now)
  setExternalSender bytes := exec (adapt .setExternalSender (DaveSession.setExternalSender bytes))
  createKeyPackage := exec (onProvider .createKeyPackage O.createKeyPackage)
  processProposals operation proposals users s :=
    let (result, s) := exec (adapt .processProposals
      (DaveSession.processProposals (operationOf operation) proposals (· ∈ users))) s
    (result.map (Option.map fun cw => ⟨cw.commit, cw.welcome⟩), s)
  processCommit commit := exec (adapt .processCommit (DaveSession.processCommit commit now))
  processWelcome welcome := exec (adapt .processWelcome (DaveSession.processWelcome welcome now))
  activateStagedSender := DaveSession.activateStagedSender
  setPassthroughMode mode := DaveSession.setPassthroughMode (inNanos mode) now
  receiveReady s := s.receiveReady

/-- The window of a session is changed by `set_passthrough_mode` only. -/
structure Windowed {σ ε : Type} (S : Coordinator.Session σ ε)
    (has : PlaintextPassthrough → σ → Prop) (now : ℕ) : Prop where
  new : ∀ p s s', has p s → S.new s = .ok s' → has (.disabled now) s'
  setExternalSender : ∀ p bytes s, has p s → has p (S.setExternalSender bytes s).2
  createKeyPackage : ∀ p s, has p s → has p (S.createKeyPackage s).2
  processProposals : ∀ p operation proposals users s, has p s →
    has p (S.processProposals operation proposals users s).2
  processCommit : ∀ p commit s, has p s → has p (S.processCommit commit s).2
  processWelcome : ∀ p welcome s, has p s → has p (S.processWelcome welcome s).2
  activateStagedSender : ∀ p s, has p s → has p (S.activateStagedSender s).2
  setPassthroughMode : ∀ p mode s, has p s →
    has (p.apply (inNanos mode) now) (S.setPassthroughMode mode s)

lemma windowed_sessionAt (O : Keys M) (now : ℕ) : Windowed (sessionAt O now) HasWindow now where
  new p s s' _ hnew := by
    simp only [sessionAt] at hnew
    rcases hp : O.newProvider s.provider with e | provider <;> rw [hp] at hnew <;> cases hnew
    exact ⟨copies_new _ _ _, rfl⟩
  setExternalSender _ bytes _ h := (always_setExternalSender bytes).exec h
  createKeyPackage _ _ h := always_onProvider.exec h
  processProposals _ operation proposals users _ h :=
    (always_processProposals (operationOf operation) proposals (· ∈ users)).exec h
  processCommit _ commit _ h := (always_processCommit commit).exec h
  processWelcome _ welcome _ h := (always_processWelcome welcome).exec h
  activateStagedSender _ _ h := h
  setPassthroughMode p mode s h := by
    refine ⟨h.1.setPassthroughMode _, ?_⟩
    rw [← h.2]
    rfl

/-! ### Pumps -/

section Pumps

variable {σ ε α : Type} {S : Coordinator.Session σ ε} {has : PlaintextPassthrough → σ → Prop}
  {now : ℕ}

/-- The pump has enabled plaintext. -/
def enables (actions : List Action) : Bool := .setPassthroughMode .enabled ∈ actions

@[simp] lemma enables_append (actions : List Action) (a : Action) :
    enables (actions ++ [a]) = (enables actions || a = .setPassthroughMode .enabled) := by
  simp [enables, eq_comm]

/-- `J` holds of the mode that was set last, of the window, and of whether the pump has enabled
plaintext. -/
def Sees (has : PlaintextPassthrough → σ → Prop)
    (J : Option Coordinator.PassthroughMode → PlaintextPassthrough → Bool → Prop) (w : Pump σ) :
    Prop :=
  ∃ p, has p w.coord.session ∧ J w.coord.lastApplied p (enables w.actions)

variable {J L : Option Coordinator.PassthroughMode → PlaintextPassthrough → Bool → Prop}

lemma holds_call {f : σ → α × σ} {action : α → Action} (hf : ∀ p s, has p s → has p (f s).2)
    (ha : ∀ r, action r ≠ .setPassthroughMode .enabled) :
    Holds (Sees has J) (call f action : PumpM σ ε α) fun _ => Sees has J := by
  refine holds_modifyGet fun w ⟨p, hp, hJ⟩ => ⟨p, hf p _ hp, ?_⟩
  simpa [ha] using hJ

lemma holds_update {f : DaveCoordinator σ → DaveCoordinator σ}
    (hsession : ∀ c, (f c).session = c.session)
    (hlast : ∀ c, (f c).lastApplied = c.lastApplied) :
    Holds (Sees has J) (update f : PumpM σ ε Unit) fun _ => Sees has J := by
  refine holds_modify fun w ⟨p, hp, hJ⟩ => ⟨p, ?_, ?_⟩
  · rwa [hsession]
  · rwa [hlast]

lemma holds_push (c : GatewayCommand) :
    Holds (Sees has J) (push c : PumpM σ ε Unit) fun _ => Sees has J :=
  holds_modify fun _ h => h

variable (hS : Windowed S has now) {bound : ℕ} {p : PlaintextPassthrough} {dave : DaveInternalState}

include hS in
/-- A change of the mode apart, the window is that of the session before, or of a new one. -/
lemma Sees.change {part : Part} {w w' : Pump σ} (h : Sees has J w) (hc : Change S part w w')
    (hmode : part ≠ .mode)
    (hnew : part = .session → ∀ last p b, J last p b → J none (.disabled now) b) :
    Sees has J w' := by
  obtain ⟨p, hp, hJ⟩ := h
  cases hc with
  | setMode | applied => exact absurd rfl hmode
  | activate => exact ⟨p, hS.activateStagedSender p _ hp, by simpa [after] using hJ⟩
  | replace _ hsession =>
    exact ⟨_, hS.new p _ _ hp hsession, by simpa [after] using hnew rfl _ p _ hJ⟩
  | setExternalSender => exact ⟨p, hS.setExternalSender p _ _ hp, by simpa [after] using hJ⟩
  | createKeyPackage => exact ⟨p, hS.createKeyPackage p _ hp, by simpa [after] using hJ⟩
  | processProposals => exact ⟨p, hS.processProposals p _ _ _ _ hp, by simpa [after] using hJ⟩
  | unready | ready | senderSet | sent | counted | forget | follow | push => exact ⟨p, hp, hJ⟩

include hS in
lemma holds_of_makes {x : PumpM σ ε α} {parts : List Part} (hx : Makes (Touches S parts) x)
    (hparts : .mode ∉ parts ∧ .session ∉ parts) :
    Holds (Sees has J) x fun _ => Sees has J :=
  hx.holds fun _ _ ⟨_, hpart, hc⟩ h => h.change hS hc (fun heq => hparts.1 (heq ▸ hpart))
    fun heq => absurd (heq ▸ hpart) hparts.2

include hS in
lemma holds_activateExecuted :
    Holds (Sees has J) (Coordinator.activateSenderIfTransitionExecuted S dave)
      fun _ => Sees has J :=
  holds_of_makes hS (makes_activateExecuted S dave) (by decide)

include hS in
/-- A session that is replaced is closed from `now` on, and the mode is forgotten. -/
lemma holds_syncPreparedEpoch (h : ∀ last p b, J last p b → J none (.disabled now) b) :
    Holds (Sees has J) (Coordinator.syncPreparedEpoch S dave) fun _ => Sees has J := by
  refine (makes_syncPreparedEpoch S dave).holds fun _ _ ⟨part, hpart, hc⟩ hw => ?_
  refine hw.change hS hc ?_ fun _ => h
  rintro rfl
  simp at hpart

include hS in
lemma holds_setMode (mode : Coordinator.PassthroughMode)
    (h : ∀ last p b, J last p b → L last (p.apply (inNanos mode) now) (b || mode = .enabled)) :
    Holds (Sees has J) (call (fun s => ((), S.setPassthroughMode mode s))
      fun _ => .setPassthroughMode mode : PumpM σ ε Unit) fun _ => Sees has L := by
  refine holds_modifyGet fun w ⟨p, hp, hJ⟩ => ⟨_, hS.setPassthroughMode p mode _ hp, ?_⟩
  simpa using h _ p _ hJ

include hS in
lemma holds_forceApply (mode : Coordinator.PassthroughMode)
    (h : ∀ last p b, J last p b →
      L (some mode) (p.apply (inNanos mode) now) (b || mode = .enabled)) :
    Holds (Sees has J) (Coordinator.forceApply S mode) fun _ => Sees has L := by
  refine holds_bind (Q := fun _ => Sees has fun _ => L (some mode)) (holds_setMode hS mode h)
    fun _ => holds_modify fun w hw => hw

include hS in
/-- Setting a mode that was set last does nothing. -/
lemma holds_setPassthroughMode (mode : Coordinator.PassthroughMode)
    (hskip : ∀ p b, J (some mode) p b → L (some mode) p b)
    (h : ∀ last p b, last ≠ some mode → J last p b →
      L (some mode) (p.apply (inNanos mode) now) (b || mode = .enabled)) :
    Holds (Sees has J) (Coordinator.setPassthroughMode S mode) fun _ => Sees has L := by
  refine holds_bind holds_get fun v => ?_
  split
  next hlast =>
    refine holds_pure fun w ⟨⟨p, hp, hJ⟩, hv⟩ => ⟨p, hp, ?_⟩
    rw [← hv, hlast] at hJ ⊢
    exact hskip p _ hJ
  next hlast =>
    refine (holds_forceApply (J := fun last p b => last ≠ some mode ∧ J last p b) hS mode
      fun last p b hJ => h last p b hJ.1 hJ.2).mono (fun w ⟨⟨p, hp, hJ⟩, hv⟩ => ⟨p, hp, ?_, hJ⟩)
      fun _ _ h => h
    rwa [← hv]

include hS in
lemma holds_allowPlaintextReceiveGrace
    (h : ∀ last p b, J last p b →
      L (some (.disabledAfter davePlaintextReceiveGrace)) ⟨some (now + grace)⟩ true) :
    Holds (Sees has J) (Coordinator.allowPlaintextReceiveGrace S) fun _ => Sees has L := by
  refine holds_bind (holds_setMode (L := fun last p b =>
    p = ⟨none⟩ ∧ b = true ∧ ∃ p b, J last p b) hS .enabled fun last p b hJ => ?_) fun _ => ?_
  · exact ⟨rfl, by simp, p, b, hJ⟩
  · refine holds_forceApply hS _ fun last p b hJ => ?_
    obtain ⟨rfl, rfl, p, b, hJ⟩ := hJ
    exact h last p b hJ

include hS in
/-- Grace is granted for transition `0` under a protocol version, and nothing else is done to the
window. -/
lemma holds_markTransitionReady (t v : Option UInt16)
    (h : t = some 0 → 0 < v.getD 0 → ∀ last p b, J last p b →
      J (some (.disabledAfter davePlaintextReceiveGrace)) ⟨some (now + grace)⟩ true) :
    Holds (Sees has J) (Coordinator.markTransitionReady S t v) fun _ => Sees has J := by
  refine holds_get_bind fun w => ?_
  split
  · exact holds_pure fun _ h => h
  next t =>
    split
    · exact holds_pure fun _ h => h
    · refine holds_bind (holds_update (fun _ => rfl) fun _ => rfl) fun _ => ?_
      split
      next h0 =>
        split
        next hv => exact holds_allowPlaintextReceiveGrace hS (h (by rw [h0]) hv)
        next => exact holds_pure fun _ h => h
      next => exact holds_push _

/-! ### A whole pump -/

/-- No plaintext is let through at `bound` or later. -/
def ClosesBy (bound : ℕ) (p : PlaintextPassthrough) : Prop :=
  ∀ t, p.allowsPlaintext t = true → t < bound

lemma closesBy_disabled (h : now ≤ bound) : ClosesBy bound (.disabled now) := by
  intro t ht
  by_contra hb
  rw [allowsPlaintext_disabled (h.trans (not_lt.mp hb))] at ht
  cases ht

lemma ClosesBy.mono {bound' : ℕ} (h : ClosesBy bound p) (hb : bound ≤ bound') : ClosesBy bound' p :=
  fun t ht => (h t ht).trans_le hb

/-- A mode with an end opens nothing, and ends what is open. -/
lemma closesBy_grace (h : now + grace ≤ bound ∨ ClosesBy bound p) :
    ClosesBy bound (p.apply (inNanos (.disabledAfter davePlaintextReceiveGrace)) now) := by
  intro t ht
  obtain ⟨hp, hlt⟩ := (allowsPlaintext_disabledAfter _).mp ht
  rcases h with h | h
  · exact hlt.trans_le h
  · exact h t hp

lemma closesBy_some (u : ℕ) : ClosesBy u ⟨some u⟩ := by
  intro t ht
  simpa [PlaintextPassthrough.allowsPlaintext] using ht

variable (now) in
/-- A pump that has not set a mode yet. -/
def Unset (bound : ℕ) (last : Option Coordinator.PassthroughMode) (p : PlaintextPassthrough)
    (enabled : Bool) : Prop :=
  enabled = false ∧ (last = some .enabled → now + grace ≤ bound) ∧
    (last ≠ some .enabled → ClosesBy bound p)

variable (now) in
/-- A pump behind its first mode, under a protocol version. -/
def Limited (dave : DaveInternalState) (bound : ℕ) (last : Option Coordinator.PassthroughMode)
    (p : PlaintextPassthrough) (enabled : Bool) : Prop :=
  last ≠ some .enabled ∧ (enabled = true → dave.transitionId = some 0) ∧
    ClosesBy (if enabled then max bound (now + grace) else bound) p

variable {dave : DaveInternalState} {bound : ℕ}

include hS in
lemma holds_markLimited :
    Holds (Sees has (Limited now dave bound))
      (Coordinator.markTransitionReady S dave.transitionId dave.protocolVersion)
      fun _ => Sees has (Limited now dave bound) := by
  refine holds_markTransitionReady hS _ _ fun h0 _ last p b _ => ⟨by simp, fun _ => h0, ?_⟩
  rw [if_pos rfl]
  exact (closesBy_some _).mono (le_max_right _ _)

include hS in
/-- A rejected message fails the pump, so that the session it would be replaced by is not seen. -/
lemma holds_processMlsMessage (m : PendingDaveMlsMessage) :
    Holds (Sees has (Limited now dave bound)) (Coordinator.processMlsMessage S dave m)
      fun _ => Sees has (Limited now dave bound) := by
  have hhand : Holds (Sees has (Limited now dave bound)) (Coordinator.handMls S m)
      fun _ => Sees has (Limited now dave bound) := by
    unfold Coordinator.handMls
    split
    · exact holds_call (fun p s hp => hS.processCommit p _ s hp) fun _ => by simp
    · exact holds_call (fun p s hp => hS.processWelcome p _ s hp) fun _ => by simp
  refine holds_get_bind fun w => ?_
  split
  · exact holds_pure fun _ h => h
  · refine holds_bind hhand fun r => ?_
    refine holds_bind (holds_update (fun _ => rfl) fun _ => rfl) fun _ => ?_
    cases r with
    | ok _ => exact holds_markLimited hS
    | error e =>
      refine holds_bind holds_any fun _ => holds_bind holds_any fun _ => ?_
      exact holds_bind holds_any fun _ => holds_throw e

include hS in
lemma holds_pumpGroup (users : Finset UInt64) (roster : Bool) :
    Holds (Sees has (Limited now dave bound)) (Coordinator.pumpGroup S dave users roster)
      fun _ => Sees has (Limited now dave bound) := by
  refine holds_bind (holds_activateExecuted hS) fun _ => ?_
  refine holds_bind (holds_update (fun c => ?_) fun c => ?_) fun _ => holds_get_bind fun w => ?_
  · split <;> rfl
  · split <;> rfl
  split
  · exact holds_pure fun _ h => h
  refine holds_bind (holds_forM _ fun payload _ =>
    holds_of_makes hS (makes_processProposals S users payload) (by decide)) fun _ => ?_
  refine holds_bind (holds_forM _ fun m _ => holds_processMlsMessage hS m) fun _ => ?_
  exact holds_bind (holds_of_makes hS (makes_activateZeroReady S dave) (by decide)) fun _ =>
    holds_activateExecuted hS

include hS in
/-- **A pump under a protocol version** ends the window. -/
lemma holds_pump_dave (users : Finset UInt64) (roster : Bool)
    (hv : dave.protocolVersion.getD 0 ≠ 0) (hnow : now ≤ bound) :
    Holds (Sees has (Unset now bound)) (Coordinator.pump S dave users roster)
      fun _ => Sees has (Limited now dave bound) := by
  refine holds_bind (holds_syncPreparedEpoch hS fun last p b hJ => ?_) fun _ => ?_
  · exact ⟨hJ.1, by simp, fun _ => closesBy_disabled hnow⟩
  refine holds_bind (holds_activateExecuted hS) fun _ => ?_
  rw [if_neg hv]
  refine holds_bind (holds_setPassthroughMode (L := Limited now dave bound) hS _
    (fun p b hJ => ?_) fun last p b _ hJ => ?_) fun _ => holds_get_bind fun w => ?_
  · refine ⟨by simp, by simp [hJ.1], ?_⟩
    simpa [hJ.1] using hJ.2.2 (by simp)
  · refine ⟨by simp, by simp [hJ.1], ?_⟩
    simp only [hJ.1, Bool.false_or, reduceCtorEq, decide_false, Bool.false_eq_true, if_false]
    refine closesBy_grace ?_
    by_cases hlast : last = some .enabled
    · exact .inl (hJ.2.1 hlast)
    · exact .inr (hJ.2.2 hlast)
  refine holds_bind (holds_optionForM _ fun bytes => ?_) fun _ => holds_get_bind fun w => ?_
  · split
    · exact holds_pure fun _ h => h
    · exact holds_of_makes hS (makes_setExternalSender S bytes) (by decide)
  refine holds_bind (holds_optionForM _ fun scope => ?_) fun _ => holds_get_bind fun w => ?_
  · split
    · exact holds_pure fun _ h => h
    · exact holds_of_makes hS (makes_sendKeyPackage S scope) (by decide)
  split
  · exact holds_pumpGroup hS users roster
  · exact holds_pure fun _ h => h

include hS in
/-- **A pump without a protocol version** leaves the mode that has no end. -/
lemma holds_pump_plain (users : Finset UInt64) (roster : Bool)
    (hv : dave.protocolVersion.getD 0 = 0) :
    Holds (Sees has fun _ _ _ => True) (Coordinator.pump S dave users roster)
      fun _ => Sees has fun last _ _ => last = some .enabled := by
  refine holds_bind (holds_syncPreparedEpoch hS fun _ _ _ _ => trivial) fun _ => ?_
  refine holds_bind (holds_activateExecuted hS) fun _ => ?_
  rw [if_pos hv]
  refine holds_bind (holds_setPassthroughMode (L := fun last _ _ => last = some .enabled) hS _
    (fun _ _ _ => rfl) fun _ _ _ _ _ => rfl) fun _ => ?_
  refine holds_markTransitionReady hS _ _ fun _ hpos => ?_
  simp [hv] at hpos

end Pumps

/-! ### Runs -/

inductive Event
  | gateway (event : GatewayEvent)
  | pump (connectedUserIds : Finset UInt64) (rosterAuthoritative : Bool)
  | allowPlaintextReceiveGrace
  | decryptMediaFrameInto (userId : Option UInt64) (mediaType : MediaType) (frame : Bytes)
      (capacity : ℕ)

/-- A call, and the instant it reads from the clock. -/
structure Call where
  event : Event
  now : ℕ

/-- The gateway's state and the coordinator. The other fields only remember: the last reading of
the clock, the version that the latest pump saw (`0` also for none), and the instant at which the
window was opened last. -/
structure System (M : OpenMls) where
  dave : DaveInternalState
  coord : DaveCoordinator (DaveSession.Session M)
  clock : ℕ
  seenVersion : Option UInt16 := none
  opened : Option ℕ := none

/-- `DaveCoordinator::new`, beside the initial state of the gateway. -/
def System.new (userId channelId : UInt64) (provider : M.Provider) (now : ℕ) : System M where
  dave := {}
  coord := { session := .new userId channelId provider now }
  clock := now

def decryptMediaFrameInto (A : Aead) (K : Kdf) (userId : Option UInt64) (mediaType : MediaType)
    (frame : Bytes) (capacity now : ℕ) (c : DaveCoordinator (DaveSession.Session M)) :
    Option (Except DaveDecryptError Bytes) × DaveCoordinator (DaveSession.Session M) :=
  match userId with
  | none => (some (.error .missingUser), c)
  | some userId =>
    let (result, session) :=
      DaveSession.decryptInto A K userId mediaType frame capacity now c.session
    (result.map (·.mapError .source), { c with session })

def pumped (O : Keys M) (users : Finset UInt64) (roster : Bool) (now : ℕ) (s : System M) :
    Except (DaveError (SessionError M.Error)) Unit × Pump (DaveSession.Session M) :=
  exec (Coordinator.pump (sessionAt O now) s.dave users roster) { coord := s.coord }

/-- A pump opens the window when it sees a version and the pump before it saw none, and when it
grants grace for transition `0`. -/
def opens (s : System M) (actions : List Action) : Bool :=
  s.dave.protocolVersion.getD 0 ≠ 0 ∧
    (s.seenVersion = some 0 ∨ s.dave.transitionId = some 0 ∧ enables actions)

def step (A : Aead) (K : Kdf) (O : Keys M) (s : System M) (c : Call) : System M :=
  match c.event with
  | .gateway event => { s with dave := handle s.dave event, clock := c.now }
  | .pump users roster =>
    let w := (pumped O users roster c.now s).2
    { s with
      coord := w.coord, clock := c.now
      seenVersion := some (s.dave.protocolVersion.getD 0)
      opened := if opens s w.actions then some c.now else s.opened }
  | .allowPlaintextReceiveGrace =>
    let w := (exec (Coordinator.allowPlaintextReceiveGrace (sessionAt O c.now))
      { coord := s.coord }).2
    { s with coord := w.coord, clock := c.now, opened := some c.now }
  | .decryptMediaFrameInto userId mediaType frame capacity =>
    { s with
      coord := (decryptMediaFrameInto A K userId mediaType frame capacity c.now s.coord).2
      clock := c.now }

/-- The clock does not go back, and a pump succeeds. -/
def Orderly (O : Keys M) (s : System M) (c : Call) : Prop :=
  s.clock ≤ c.now ∧
    ∀ users roster, c.event = .pump users roster → (pumped O users roster c.now s).1 = .ok ()

/-- The window is closed by then, unless it has no end. -/
def System.bound (s : System M) : ℕ := max s.clock (s.opened.elim 0 (· + grace))

/-- The mode set last is right about the window. -/
structure Remembers (s : System M) : Prop where
  opened_le : ∀ o, s.opened = some o → o ≤ s.clock
  window : ∃ p, HasWindow p s.coord.session ∧
    (s.coord.lastApplied = some .enabled → s.seenVersion = some 0) ∧
    (s.coord.lastApplied ≠ some .enabled → ClosesBy s.bound p)

lemma Remembers.bound_le {s : System M} (h : Remembers s) {now : ℕ} (hclock : s.clock ≤ now) :
    s.bound ≤ now + grace := by
  refine max_le (hclock.trans (Nat.le_add_right _ _)) ?_
  rcases ho : s.opened with _ | o
  · exact Nat.zero_le _
  · exact Nat.add_le_add_right ((h.opened_le o ho).trans hclock) grace

/-- A call that leaves the window and the mode alone. -/
lemma Remembers.keep {s s' : System M} (h : Remembers s) (hclock : s.clock ≤ s'.clock)
    (hwindow : ∀ p, HasWindow p s.coord.session → HasWindow p s'.coord.session)
    (hlast : s'.coord.lastApplied = s.coord.lastApplied)
    (hseen : s'.seenVersion = s.seenVersion) (hopened : s'.opened = s.opened) : Remembers s' := by
  obtain ⟨p, hp, henabled, hcloses⟩ := h.window
  refine ⟨fun o ho => (h.opened_le o (hopened ▸ ho)).trans hclock, p, hwindow p hp, ?_, ?_⟩
  · rwa [hlast, hseen]
  · rw [hlast]
    intro hne
    refine (hcloses hne).mono ?_
    rw [System.bound, System.bound, hopened]
    exact max_le_max_right _ hclock

lemma hasWindow_decryptMediaFrameInto {A : Aead} {K : Kdf} {p : PlaintextPassthrough}
    {c : DaveCoordinator (DaveSession.Session M)} (h : HasWindow p c.session)
    (userId : Option UInt64) (mediaType : MediaType) (frame : Bytes) (capacity now : ℕ) :
    HasWindow p (decryptMediaFrameInto A K userId mediaType frame capacity now c).2.session := by
  cases userId with
  | none => exact h
  | some u => exact ⟨h.1.decryptInto u _ _ _, (decryptInto_passthrough u _ _ _).trans h.2⟩

section Steps

variable {A : Aead} {K : Kdf} {O : Keys M} {s : System M} {users : Finset UInt64} {roster : Bool}
  {now : ℕ}

lemma remembers_pump_dave (hs : Remembers s) (hclock : s.clock ≤ now)
    (hok : (pumped O users roster now s).1 = .ok ()) (hv : s.dave.protocolVersion.getD 0 ≠ 0) :
    Remembers (step A K O s ⟨.pump users roster, now⟩) := by
  obtain ⟨p, hp, henabled, hcloses⟩ := hs.window
  -- the bound behind the pump, but for what the pump itself grants
  let bound := if s.seenVersion = some 0 then now + grace else { s with clock := now }.bound
  have hbound : s.bound ≤ bound := by
    dsimp only [bound]
    split
    · exact hs.bound_le hclock
    · exact max_le_max_right _ hclock
  have hgrace : bound ≤ now + grace := by
    dsimp only [bound]
    split
    · exact le_rfl
    · have hkeep : Remembers { s with clock := now } :=
        hs.keep hclock (fun _ h => h) rfl rfl rfl
      exact hkeep.bound_le le_rfl
  have hnow : now ≤ bound := by
    dsimp only [bound]
    split
    · exact Nat.le_add_right _ _
    · exact le_max_left _ _
  have hunset : Sees HasWindow (Unset now bound) { coord := s.coord } := by
    refine ⟨p, hp, rfl, fun h => ?_, fun h => (hcloses h).mono hbound⟩
    simp [bound, henabled h]
  obtain ⟨p', hp', hlast, htransition, hcloses'⟩ :=
    holds_pump_dave (windowed_sessionAt O now) users roster hv hnow _ hunset _ _
      (Prod.ext hok rfl : pumped O users roster now s = (.ok (), (pumped O users roster now s).2))
  refine ⟨fun o ho => ?_, p', hp', fun h => absurd h hlast, fun _ => hcloses'.mono ?_⟩
  · simp only [step] at ho ⊢
    split at ho
    · exact (Option.some.inj ho).ge
    · exact (hs.opened_le o ho).trans hclock
  · have hopens : opens s (pumped O users roster now s).2.actions =
        (decide (s.seenVersion = some 0) || enables (pumped O users roster now s).2.actions) := by
      rcases hb : enables (pumped O users roster now s).2.actions with _ | _
      · simp [opens, hv, hb]
      · simp [opens, hv, hb, htransition hb]
    simp only [step, hopens]
    rcases hb : enables (pumped O users roster now s).2.actions with _ | _
    · rw [if_neg Bool.false_ne_true, Bool.or_false]
      by_cases h0 : s.seenVersion = some 0
      · simp [System.bound, bound, h0]
      · simp [System.bound, bound, h0]
    · rw [if_pos rfl, Bool.or_true, if_pos rfl]
      exact max_le (hgrace.trans (le_max_right _ _)) (le_max_right _ _)

lemma remembers_pump_plain (hs : Remembers s) (hclock : s.clock ≤ now)
    (hok : (pumped O users roster now s).1 = .ok ()) (hv : s.dave.protocolVersion.getD 0 = 0) :
    Remembers (step A K O s ⟨.pump users roster, now⟩) := by
  obtain ⟨p, hp, -, -⟩ := hs.window
  obtain ⟨p', hp', hlast⟩ :=
    holds_pump_plain (windowed_sessionAt O now) users roster hv _ ⟨p, hp, trivial⟩ _ _
      (Prod.ext hok rfl : pumped O users roster now s = (.ok (), (pumped O users roster now s).2))
  refine ⟨fun o ho => ?_, p', hp', fun _ => congrArg some hv, fun h => absurd hlast h⟩
  have hopens : opens s (pumped O users roster now s).2.actions = false := by simp [opens, hv]
  simp only [step, hopens, Bool.false_eq_true, if_false] at ho ⊢
  exact (hs.opened_le o ho).trans hclock

lemma remembers_grace (hs : Remembers s) :
    Remembers (step A K O s ⟨.allowPlaintextReceiveGrace, now⟩) := by
  obtain ⟨p, hp, -, -⟩ := hs.window
  obtain ⟨p', hp', rfl, hlast⟩ := holds_allowPlaintextReceiveGrace (J := fun _ _ _ => True)
    (L := fun last p _ => p = ⟨some (now + grace)⟩ ∧
      last = some (.disabledAfter davePlaintextReceiveGrace))
    (windowed_sessionAt O now) (fun _ _ _ _ => ⟨rfl, rfl⟩) { coord := s.coord }
    ⟨p, hp, trivial⟩ () _ rfl
  refine ⟨fun o ho => (Option.some.inj ho).ge, _, hp', fun h => ?_, fun _ => ?_⟩
  · cases hlast.symm.trans h
  · exact (closesBy_some _).mono (le_max_right _ _)

/-- What a step keeps. -/
lemma Remembers.step (hs : Remembers s) {c : Call} (hc : Orderly O s c) :
    Remembers (step A K O s c) := by
  obtain ⟨hclock, hok⟩ := hc
  rcases c with ⟨event | ⟨users, roster⟩ | _ | ⟨userId, mediaType, frame, capacity⟩, now⟩
  · exact hs.keep hclock (fun _ h => h) rfl rfl rfl
  · by_cases hv : s.dave.protocolVersion.getD 0 = 0
    · exact remembers_pump_plain hs hclock (hok users roster rfl) hv
    · exact remembers_pump_dave hs hclock (hok users roster rfl) hv
  · exact remembers_grace hs
  · refine hs.keep hclock (fun p h => ?_) ?_ rfl rfl
    · exact hasWindow_decryptMediaFrameInto h userId mediaType frame capacity now
    · cases userId <;> rfl

lemma remembers_new (userId channelId : UInt64) (provider : M.Provider) (t0 : ℕ) :
    Remembers (System.new userId channelId provider t0) := by
  refine ⟨fun o ho => (by cases ho), _, ⟨copies_new _ _ _, rfl⟩, fun h => (by cases h), fun _ => ?_⟩
  exact closesBy_disabled (le_max_left _ _)

end Steps

/-- In every run of gateway events, successful pumps, grants of grace and decryptions, on a clock
that does not go back: a frame that is not encrypted, and is not the silence frame, is accepted
only if the latest pump saw no protocol version, or less than a grace after the window was opened
last. -/
theorem plaintext_accepted_within_grace (A : Aead) (K : Kdf) (O : Keys M)
    (userId channelId : UInt64) (provider : M.Provider) (t0 : ℕ) (calls : List Call)
    (s : System M) (hs : s = run (step A K O) (System.new userId channelId provider t0) calls)
    (hcalls : Along (step A K O) (Orderly O) (System.new userId channelId provider t0) calls)
    (t : ℕ) (ht : s.clock ≤ t) (user : Option UInt64) (mediaType : MediaType) (frame : Bytes)
    (capacity : ℕ) (parsed : ParsedFrame) (hparse : parse frame = .ok parsed)
    (hplain : parsed.encrypted = false)
    (hsilence : ¬ (mediaType = .audio ∧ frame = opusSilenceFrame)) (output : Bytes)
    (haccept : (decryptMediaFrameInto A K user mediaType frame capacity t s.coord).1 =
      some (.ok output)) :
    s.seenVersion = some 0 ∨ ∃ o, s.opened = some o ∧ t < o + grace := by
  have hinv : Remembers s := by
    rw [hs]
    exact run_inv (fun _ _ h hc => h.step hc) (remembers_new userId channelId provider t0) hcalls
  obtain ⟨p, hp, henabled, hcloses⟩ := hinv.window
  have hallows : p.allowsPlaintext t = true := by
    rcases user with _ | u
    · cases haccept
    · rcases hd : s.coord.session.decryptors u with _ | d
      · simp [decryptMediaFrameInto, DaveSession.decryptInto, hd, Except.mapError] at haccept
      · rw [← hp.2, ← hp.1 u d hd]
        by_contra hno
        simp [decryptMediaFrameInto, DaveSession.decryptInto, hd,
          decrypt_plaintext d capacity hparse hplain hsilence, hno, Except.mapError] at haccept
  by_cases hlast : s.coord.lastApplied = some .enabled
  · exact .inl (henabled hlast)
  · refine .inr ?_
    have hlt : t < s.bound := hcloses hlast t hallows
    rcases ho : s.opened with _ | o
    · rw [System.bound, ho] at hlt
      exact absurd hlt (not_lt.mpr (max_le ht (Nat.zero_le t)))
    · refine ⟨o, rfl, ?_⟩
      rw [System.bound, ho] at hlt
      exact (lt_max_iff.mp hlt).resolve_left (not_lt.mpr ht)

/-- `plainMls` with a welcome to a group of users `1` and `2`. -/
def welcomingMls : OpenMls :=
  { plainMls with
    deserializeWelcome := fun _ => .ok ()
    buildFromWelcome := fun _ p =>
      (.ok {
        context := ⟨mls10, supportedCiphersuite,
          [.externalSenders [⟨[7], ⟨credentialBasic, []⟩⟩]]⟩
        members := withUser2.members, secrets := () }, p)
    intoGroup := fun staged p =>
      (.ok {
        members := staged.members, context := staged.context, ownLeafIndex := 0
        pendingProposals := [], pendingCommit := none, secrets := () }, p) }

def plainKeys : Keys welcomingMls where
  newProvider := .ok
  createKeyPackage p := (.ok [9], p)

/-- A welcome for transition `0`, and the pump that joins. -/
def welcomed : List Call :=
  [⟨.gateway (.sessionDescription (some 1)), 1⟩, ⟨.gateway (.externalSender [7]), 1⟩,
    ⟨.gateway (.mlsMessage ⟨⟨.welcome, 1, 0⟩, []⟩), 1⟩, ⟨.pump ∅ true, 2⟩]

def afterWelcome : System welcomingMls :=
  run (step idleAead idleKdf plainKeys) (.new 1 9 () 0) welcomed

theorem plaintext_after_welcome :
    (decryptMediaFrameInto idleAead idleKdf (some 2) .audio [0] 0 3 afterWelcome.coord).1 =
      some (.ok [0]) ∧
    (afterWelcome.seenVersion = some 0 ∨ ∃ o, afterWelcome.opened = some o ∧ 3 < o + grace) := by
  obtain ⟨parsed, hparse, hplain⟩ : ∃ parsed, parse [0] = .ok parsed ∧ parsed.encrypted = false :=
    ⟨_, rfl, rfl⟩
  have haccept : (decryptMediaFrameInto idleAead idleKdf (some 2) .audio [0] 0 3
      afterWelcome.coord).1 = some (.ok [0]) := by decide +kernel
  refine ⟨haccept, plaintext_accepted_within_grace idleAead idleKdf plainKeys 1 9 () 0 welcomed
    afterWelcome rfl ?_ 3 (by decide +kernel) (some 2) .audio [0] 0 parsed hparse hplain (by decide)
    [0] haccept⟩
  refine ⟨⟨by decide, fun _ _ h => by cases h⟩, ⟨by decide, fun _ _ h => by cases h⟩,
    ⟨by decide, fun _ _ h => by cases h⟩, ⟨by decide, fun _ _ h => ?_⟩, trivial⟩
  cases h
  have hok : ∀ r : Except (DaveError (SessionError welcomingMls.Error)) Unit,
      r.toBool = true → r = .ok () := by
    rintro (_ | _) hr
    · cases hr
    · rfl
  exact hok _ (by decide +kernel)

end Cacophony.PlaintextGrace
