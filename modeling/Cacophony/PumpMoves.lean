import Cacophony.Coordinator

/-!
What the functions of the coordinator do to a pump.

A change touches one part of a pump: a field of the coordinator or a few that belong together, with
the call on the session and the entry in the log that go with it. Of each function it is said here
which parts its successes touch; what it keeps follows from what the changes of these parts keep.
-/

namespace Cacophony.PumpMoves

open Gateway Progs Coordinator

variable {σ ε α : Type}

inductive Part
  | mode
  | sender
  | unready
  | ready
  | session
  | externalSender
  | keyPackage
  | proposals
  | epoch
  | commands
  deriving DecidableEq

/-- The pump behind a call that leaves this session. -/
def after (w : Pump σ) (session : σ) (action : Action) : Pump σ :=
  { w with coord := { w.coord with session }, actions := w.actions ++ [action] }

/-- The changes of a part. A session that is replaced comes with the fields that are reset. -/
inductive Change (S : Session σ ε) : Part → Pump σ → Pump σ → Prop
  | setMode (w : Pump σ) (mode : PassthroughMode) : Change S .mode w
      (after w (S.setPassthroughMode mode w.coord.session) (.setPassthroughMode mode))
  | applied (w : Pump σ) (mode : PassthroughMode) :
      Change S .mode w { w with coord.lastApplied := some mode }
  | activate (w : Pump σ) : Change S .sender w (after w (S.activateStagedSender w.coord.session).2
      (.activateStagedSender (S.activateStagedSender w.coord.session).1))
  | unready (w : Pump σ) : Change S .unready w { w with coord.transitionReady := none }
  | ready (w : Pump σ) (transitionId : UInt16) :
      Change S .ready w { w with coord.transitionReady := some transitionId }
  | replace (w : Pump σ) {session : σ} (h : S.new w.coord.session = .ok session) :
      Change S .session w { after w session (.replaceSession true) with
        coord := { w.coord with session, lastApplied := none, externalSenderSet := false } }
  | setExternalSender (w : Pump σ) (bytes : Bytes) : Change S .externalSender w
      (after w (S.setExternalSender bytes w.coord.session).2
        (.setExternalSender (S.setExternalSender bytes w.coord.session).1.toBool))
  | senderSet (w : Pump σ) :
      Change S .externalSender w { w with coord.externalSenderSet := true }
  | createKeyPackage (w : Pump σ) : Change S .keyPackage w
      (after w (S.createKeyPackage w.coord.session).2
        (.createKeyPackage (S.createKeyPackage w.coord.session).1.toBool))
  | sent (w : Pump σ) (scope : Option DaveKeyPackageScope) :
      Change S .keyPackage w { w with coord.sentKeyPackageFor := scope }
  | processProposals (w : Pump σ) (operation : ProposalsOperation) (proposals payload : Bytes)
      (users : Finset UInt64) : Change S .proposals w
      (after w (S.processProposals operation proposals users w.coord.session).2
        (.processProposals payload
          (S.processProposals operation proposals users w.coord.session).1.toBool))
  | counted (w : Pump σ) (processed : ℕ) :
      Change S .proposals w { w with coord.processedProposals := processed }
  | forget (w : Pump σ) :
      Change S .epoch w { w with coord := { w.coord with
        sentKeyPackageFor := none, processedProposals := 0, processedMls := {} } }
  | follow (w : Pump σ) (preparedEpoch : Option DavePreparedEpoch) :
      Change S .epoch w { w with coord.preparedEpoch := preparedEpoch }
  | push (w : Pump σ) (command : GatewayCommand) :
      Change S .commands w { w with commands := w.commands ++ [command] }

/-- A change of one of these parts. -/
def Touches (S : Session σ ε) (parts : List Part) (w w' : Pump σ) : Prop :=
  ∃ part ∈ parts, Change S part w w'

variable {S : Session σ ε} {parts : List Part} {part : Part}

lemma makes_update {f : DaveCoordinator σ → DaveCoordinator σ} (hpart : part ∈ parts)
    (h : ∀ w : Pump σ, Change S part w { w with coord := f w.coord }) :
    Makes (Touches S parts) (update f : PumpM σ ε Unit) :=
  fun _ => holds_modify fun w hw => hw.tail ⟨part, hpart, h w⟩

lemma makes_call {f : σ → α × σ} {action : α → Action} (hpart : part ∈ parts)
    (h : ∀ w : Pump σ, Change S part w
      (after w (f w.coord.session).2 (action (f w.coord.session).1))) :
    Makes (Touches S parts) (call f action : PumpM σ ε α) :=
  fun _ => holds_modifyGet fun w hw => hw.tail ⟨part, hpart, h w⟩

lemma makes_push (command : GatewayCommand) (hpart : .commands ∈ parts) :
    Makes (Touches S parts) (push command : PumpM σ ε Unit) :=
  fun _ => holds_modify fun w hw => hw.tail ⟨_, hpart, .push w command⟩

lemma holds_orThrow {P : Pump σ → Prop} (wrap : ε → DaveError ε) (r : Except ε α) :
    Holds P (orThrow wrap r : PumpM σ ε α) fun _ => P := by
  cases r with
  | ok a => exact holds_pure fun _ hw => hw
  | error e => exact holds_throw _

/-! ### The functions -/

variable (S) (dave : DaveInternalState)

lemma makes_forceApply (mode : PassthroughMode) (hpart : .mode ∈ parts) :
    Makes (Touches S parts) (forceApply S mode) := fun _ =>
  holds_bind (makes_call hpart (fun w => .setMode w mode) _) fun _ =>
    makes_update hpart (fun w => .applied w mode) _

lemma makes_setPassthroughMode (mode : PassthroughMode) :
    Makes (Touches S [.mode]) (setPassthroughMode S mode) := by
  refine fun _ => holds_get_bind fun w => ?_
  split
  · exact holds_pure fun _ h => h
  · exact makes_forceApply S mode List.mem_cons_self _

lemma makes_allowPlaintextReceiveGrace (parts : List Part) (hpart : .mode ∈ parts) :
    Makes (Touches S parts) (allowPlaintextReceiveGrace S) := fun _ =>
  holds_bind (makes_call hpart (fun w => .setMode w _) _) fun _ => makes_forceApply S _ hpart _

lemma makes_activateExecuted :
    Makes (Touches S [.sender, .unready]) (activateSenderIfTransitionExecuted S dave) := by
  intro w₀
  unfold activateSenderIfTransitionExecuted
  split
  · refine holds_bind (makes_call (by decide) .activate _) fun switched => ?_
    split
    · exact makes_update (by decide) .unready _
    · exact holds_pure fun _ h => h
  · exact holds_pure fun _ h => h

lemma makes_activateZeroReady :
    Makes (Touches S [.sender]) (activateSenderIfTransitionZeroReady S dave) := by
  refine fun _ => holds_get_bind fun w => ?_
  split
  · exact holds_bind (makes_call (by decide) .activate _) fun _ => holds_pure fun _ h => h
  · exact holds_pure fun _ h => h

lemma makes_markTransitionReady (t v : Option UInt16) :
    Makes (Touches S [.ready, .mode, .commands]) (markTransitionReady S t v) := by
  refine fun _ => holds_get_bind fun w => ?_
  split
  · exact holds_pure fun _ h => h
  · split
    · exact holds_pure fun _ h => h
    · refine holds_bind (makes_update (by decide) (fun w => .ready w _) _) fun _ => ?_
      split
      · split
        · exact makes_allowPlaintextReceiveGrace S _ (by decide) _
        · exact holds_pure fun _ h => h
      · exact makes_push _ (by decide) _

lemma makes_replaceSession (v : UInt16) (hpart : .session ∈ parts) :
    Makes (Touches S parts) (replaceSession S v) := by
  intro w₀
  unfold replaceSession
  split
  · exact holds_throw _
  · intro w hw a w' heq
    -- the call and the update behind it are one change
    rcases hnew : S.new w.coord.session with e | s
    · simp [exec_bind, call, orThrow, hnew] at heq
    · simp only [exec_bind, call, exec_modifyGet, orThrow, hnew, update, exec_modify,
        Prod.mk.injEq, exec_pure] at heq
      rw [← heq.2]
      exact hw.tail ⟨_, hpart, .replace w hnew⟩

lemma makes_syncPreparedEpoch :
    Makes (Touches S [.epoch, .unready, .session]) (syncPreparedEpoch S dave) := by
  refine fun _ => holds_get_bind fun w => ?_
  dsimp only
  split
  · exact holds_pure fun _ h => h
  · refine holds_bind (holds_optionForM _ fun p => ?_) fun _ =>
      makes_update (by decide) (fun w => .follow w _) _
    refine holds_bind (makes_update (by decide) .forget _) fun _ => ?_
    split
    · refine holds_bind (makes_update (by decide) .unready _) fun _ => ?_
      exact makes_replaceSession S _ (by decide) _
    · exact holds_pure fun _ h => h

lemma makes_setExternalSender (bytes : Bytes) :
    Makes (Touches S [.externalSender]) (setExternalSender S bytes) := fun _ =>
  holds_bind (makes_call (by decide) (fun w => .setExternalSender w bytes) _) fun r =>
    holds_bind (holds_orThrow _ r) fun _ => makes_update (by decide) .senderSet _

lemma makes_sendKeyPackage (scope : DaveKeyPackageScope) :
    Makes (Touches S [.keyPackage, .commands]) (sendKeyPackage S scope) := fun _ =>
  holds_bind (makes_call (by decide) .createKeyPackage _) fun r =>
    holds_bind (holds_orThrow _ r) fun _ => holds_bind (makes_push _ (by decide) _) fun _ =>
      makes_update (by decide) (fun w => .sent w _) _

lemma makes_processProposals (users : Finset UInt64) (payload : Bytes) :
    Makes (Touches S [.proposals, .commands]) (processProposals S users payload) := by
  intro w₀
  unfold processProposals
  split
  · exact holds_throw _
  next operation proposals _ =>
    refine holds_bind (makes_call (by decide)
      (fun w => .processProposals w operation proposals payload users) _) fun r => ?_
    refine holds_bind (holds_optionForM _ fun cw => makes_push _ (by decide) _) fun _ => ?_
    exact makes_update (by decide) (fun w => .counted w _) _

end Cacophony.PumpMoves
