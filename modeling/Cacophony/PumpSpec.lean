import Cacophony.PumpMoves

/-!
What a pump that succeeds has done.

Up to its last activation attempt every action of a pump is explained by the gateway state it
was given: only pending messages are handed to the session, the sender is switched only when
no transition is in flight, and no group was recovered. The last of these is why the report of
a rejected message never leaves the coordinator: the recovery writes the report, and then the
pump fails.
-/

namespace Cacophony.PumpSpec

open Gateway Progs Coordinator PumpMoves

variable {σ ε α : Type} (S : Session σ ε) (dave : DaveInternalState)

/-- The gateway state lets `activate_sender_if_transition_executed` switch the sender. -/
def Executed : Prop := dave.transitionId = none ∧ 0 < dave.activeSendProtocolVersion.getD 0

instance : Decidable (Executed dave) := inferInstanceAs (Decidable (_ ∧ _))

/-- An action that a pump may take before its last activation attempt. -/
def Early : Action → Prop
  | .processMls m _ => m ∈ dave.pendingMls.welcomeThenCommit
  | .activateStagedSender _ => Executed dave
  | .recovered _ => False
  | _ => True

/-- Transition `0` was marked ready before the pump, or the pump has handed over a message. -/
def Staged (ready : Option UInt16) (actions : List Action) : Prop :=
  ready = some 0 ∨ ∃ m, .processMls m true ∈ actions

/-- A pump underway that was started on a coordinator with `transition_ready` equal to
`ready`. -/
structure Underway (ready : Option UInt16) (w : Pump σ) : Prop where
  early : ∀ a ∈ w.actions, Early dave a
  staged : w.coord.transitionReady = some 0 → Staged ready w.actions

variable {dave} {ready : Option UInt16}

lemma Underway.act {w : Pump σ} (h : Underway dave ready w) {a : Action} (ha : Early dave a)
    (s : σ) : Underway dave ready (after w s a) where
  early := by
    intro b hb
    rcases List.mem_append.mp hb with hb | hb
    · exact h.early b hb
    · rwa [List.mem_singleton.mp hb]
  staged := fun hw => (h.staged hw).imp_right fun ⟨m, hm⟩ => ⟨m, List.mem_append_left _ hm⟩

variable {S}

/-- What a change keeps, unless it marks a transition ready. -/
lemma Underway.change {part : Part} {w w' : Pump σ} (h : Underway dave ready w)
    (hc : Change S part w w') (hready : part ≠ .ready) (hsender : part = .sender → Executed dave) :
    Underway dave ready w' := by
  cases hc with
  | ready => exact absurd rfl hready
  | activate => exact h.act (a := .activateStagedSender _) (hsender rfl) _
  | unready => exact ⟨h.early, nofun⟩
  | replace =>
    have hact := h.act (a := .replaceSession true) trivial w.coord.session
    exact ⟨hact.early, hact.staged⟩
  | setMode | setExternalSender | createKeyPackage | processProposals => exact h.act (by trivial) _
  | applied | senderSet | sent | counted | forget | follow | push => exact ⟨h.early, h.staged⟩

lemma holds_of_makes {x : PumpM σ ε α} {parts : List Part} (hx : Makes (Touches S parts) x)
    (hparts : .ready ∉ parts ∧ .sender ∉ parts) :
    Holds (Underway dave ready) x fun _ => Underway dave ready :=
  hx.holds fun _ _ ⟨_, hpart, hc⟩ h => h.change hc (fun heq => hparts.1 (heq ▸ hpart))
    fun heq => absurd (heq ▸ hpart) hparts.2

variable (S) {m : PendingDaveMlsMessage}

lemma holds_activateExecuted :
    Holds (Underway dave ready) (activateSenderIfTransitionExecuted S dave)
      fun _ => Underway dave ready := by
  by_cases hx : Executed dave
  · refine (makes_activateExecuted S dave).holds fun w w' ⟨part, hpart, hc⟩ h => ?_
    refine h.change hc ?_ fun _ => hx
    rintro rfl
    simp at hpart
  · rw [Executed] at hx
    rw [activateSenderIfTransitionExecuted, if_neg hx]
    exact holds_pure fun _ h => h

/-! ### Messages of the group -/

lemma holds_handMls (hm : m ∈ dave.pendingMls.welcomeThenCommit) :
    Holds (Underway dave ready) (handMls S m) fun r w =>
      Underway dave ready w ∧ (r.toBool = true → .processMls m true ∈ w.actions) := by
  unfold handMls
  split
  all_goals
    refine holds_modifyGet fun w hw => ⟨hw.act (show Early dave (.processMls m _) from hm) _, ?_⟩
    intro h
    exact List.mem_append_right _ (List.mem_singleton.mpr (congrArg _ h.symm))

lemma holds_markTransitionReady (t v : Option UInt16) :
    Holds (fun w => Underway dave ready w ∧ Staged ready w.actions)
      (markTransitionReady S t v) fun _ => Underway dave ready := by
  refine ((makes_markTransitionReady S t v).holds fun w w' ⟨part, hpart, hc⟩ ⟨h, hstaged⟩ =>
    ?_).mono (fun _ h => h) fun _ _ h => h.1
  cases hc with
  | ready => exact ⟨⟨h.early, fun _ => hstaged⟩, hstaged⟩
  | setMode =>
    exact ⟨h.act (by trivial) _, hstaged.imp_right fun ⟨m, hm⟩ => ⟨m, List.mem_append_left _ hm⟩⟩
  | applied | push => exact ⟨⟨h.early, h.staged⟩, hstaged⟩
  | _ => simp at hpart

/-- A rejected message fails the pump, recovered or not. -/
lemma holds_processMlsMessage (hm : m ∈ dave.pendingMls.welcomeThenCommit) :
    Holds (Underway dave ready) (processMlsMessage S dave m) fun _ => Underway dave ready := by
  refine holds_get_bind fun w => ?_
  split
  · exact holds_pure fun _ hw => hw
  · refine holds_bind (holds_handMls S hm) fun r => ?_
    cases r with
    | ok =>
      refine holds_bind (Q := fun _ w => Underway dave ready w ∧ Staged ready w.actions)
        (holds_modify fun w hw => ⟨⟨hw.1.early, hw.1.staged⟩, .inr ⟨m, hw.2 rfl⟩⟩) fun _ => ?_
      exact holds_markTransitionReady S _ _
    | error e =>
      refine holds_bind holds_any fun _ => holds_bind holds_any fun _ => ?_
      exact holds_bind holds_any fun _ => holds_bind holds_any fun _ => holds_throw e

/-! ### The whole pump -/

variable (dave ready) in
/-- What a successful pump leaves: early actions, and after them at most one switch of the
sender, for transition `0`. -/
def Done (w : Pump σ) : Prop :=
  ∃ early last, w.actions = early ++ last ∧ (∀ a ∈ early, Early dave a) ∧
    (last = [] ∨ ∃ switched, last = [.activateStagedSender switched] ∧
      dave.transitionId = some 0 ∧ Staged ready early)

lemma Underway.done {w : Pump σ} {r : Option UInt16} (h : Underway dave r w) :
    Done dave ready w :=
  ⟨w.actions, [], by simp, h.early, .inl rfl⟩

lemma holds_activateZeroReady :
    Holds (Underway dave ready) (activateSenderIfTransitionZeroReady S dave)
      fun _ w => Done dave ready w ∧ (Executed dave → Underway dave ready w) := by
  refine holds_bind holds_get fun v => ?_
  split
  next hz =>
    simp only [DaveInternalState.transitionZeroMediaReady, Bool.and_eq_true,
      decide_eq_true_eq] at hz
    refine holds_bind (Q := fun _ w => Done dave ready w) (holds_modifyGet fun w hw => ?_)
      fun _ => holds_pure fun w hw => ⟨hw, fun hx => absurd (hz.1.symm.trans hx.1) (by simp)⟩
    exact ⟨w.actions, _, rfl, hw.1.early, .inr ⟨_, rfl, hz.1, hw.1.staged (hw.2 ▸ hz.2)⟩⟩
  next => exact holds_pure fun w hw => ⟨hw.1.done, fun _ => hw.1⟩

lemma holds_pumpGroup (users : Finset UInt64) (roster : Bool) :
    Holds (Underway dave ready) (pumpGroup S dave users roster) fun _ => Done dave ready := by
  refine holds_bind (holds_activateExecuted S) fun _ => ?_
  refine holds_bind (Q := fun _ => Underway dave ready) (holds_modify fun w hw => ⟨hw.early, ?_⟩)
    fun _ => holds_get_bind fun w => ?_
  · dsimp only
    split <;> exact hw.staged
  split
  · exact holds_pure fun _ hw => hw.done
  refine holds_bind (holds_forM _ fun p _ =>
    holds_of_makes (makes_processProposals S users p) (by decide)) fun _ => ?_
  refine holds_bind (holds_forM _ fun m hm => holds_processMlsMessage S hm) fun _ => ?_
  refine holds_bind (holds_activateZeroReady S) fun _ => ?_
  by_cases hx : Executed dave
  · exact (holds_activateExecuted S).mono (fun _ hw => hw.2 hx) fun _ _ hw => hw.done
  · rw [Executed] at hx
    rw [activateSenderIfTransitionExecuted, if_neg hx]
    exact holds_pure fun _ hw => hw.1

/-- **A successful pump.** -/
theorem holds_pump (users : Finset UInt64) (roster : Bool) :
    Holds (Underway dave ready) (pump S dave users roster) fun _ => Done dave ready := by
  refine holds_bind (holds_of_makes (makes_syncPreparedEpoch S dave) (by decide)) fun _ => ?_
  refine holds_bind (holds_activateExecuted S) fun _ => ?_
  split
  · refine holds_bind (holds_of_makes (makes_setPassthroughMode S _) (by decide)) fun _ => ?_
    -- nothing is activated behind this mark, so what it is due to does not matter
    refine Holds.mono (Q := fun _ => Underway dave (some 0)) (holds_markTransitionReady S _ _)
      (fun w hw => ?_) fun _ _ h => h.done
    exact ⟨⟨hw.early, fun _ => .inl rfl⟩, .inl rfl⟩
  refine holds_bind (holds_of_makes (makes_setPassthroughMode S _) (by decide))
    fun _ => holds_get_bind fun w => ?_
  refine holds_bind (holds_optionForM _ fun p => ?_) fun _ => holds_get_bind fun w => ?_
  · split
    · exact holds_pure fun _ hw => hw
    · exact holds_of_makes (makes_setExternalSender S p) (by decide)
  refine holds_bind (holds_optionForM _ fun scope => ?_) fun _ => holds_get_bind fun w => ?_
  · split
    · exact holds_pure fun _ hw => hw
    · exact holds_of_makes (makes_sendKeyPackage S scope) (by decide)
  split
  · exact holds_pumpGroup S users roster
  · exact holds_pure fun _ hw => hw.done

lemma underway_start (c : DaveCoordinator σ) :
    Underway dave c.transitionReady ({ coord := c } : Pump σ) :=
  ⟨by simp, .inl⟩

/-! ### Rejected messages -/

/-- The report of a rejected message: the invalid transition, when one is in flight, and a
fresh key package. -/
def report (dave : DaveInternalState) (keyPackage : Bytes) : List GatewayCommand :=
  dave.transitionId.toList.map .daveMlsInvalidCommitWelcome ++ [.daveMlsKeyPackage keyPackage]

/-- The report is among the commands the pump returns, and it is sent. -/
def Reported (dave : DaveInternalState) (result : Except (DaveError ε) (List GatewayCommand))
    (sent : List GatewayCommand) : Prop :=
  ∃ commands keyPackage, result = .ok commands ∧ (report dave keyPackage).Sublist commands ∧
    (report dave keyPackage).Sublist sent

/-- A pump that recovered the group has failed. -/
lemma pumpResult_of_recovered {users : Finset UInt64} {roster : Bool} {coord : DaveCoordinator σ}
    (h : .recovered m ∈ (pumpResult S dave users roster coord).2.actions) :
    ∃ e, (pumpResult S dave users roster coord).1 = .error e := by
  rcases hx : exec (pump S dave users roster) { coord := coord } with ⟨e | _, w⟩
  · exact ⟨e, by simp [pumpResult, hx, Except.map]⟩
  · exfalso
    obtain ⟨early, last, heq, hearly, hlast⟩ :=
      holds_pump S users roster _ (underway_start coord) _ _ hx
    have hm : .recovered m ∈ early ++ last := by simpa [pumpResult, hx, heq] using h
    rcases List.mem_append.mp hm with hm | hm
    · exact hearly _ hm
    · rcases hlast with rfl | ⟨_, rfl, -⟩ <;> simp at hm

/-- **A rejected message is never reported.** Whenever the session rejects a pending commit or
welcome and the group is recovered, the pump returns the error, and with it no command. -/
theorem not_reported_of_recovered (users : Finset UInt64) (roster : Bool)
    (coord : DaveCoordinator σ) (limit : ℕ) (m : PendingDaveMlsMessage)
    (h : .recovered m ∈ (pumpResult S dave users roster coord).2.actions) :
    ¬ Reported dave (pumpResult S dave users roster coord).1
      (pumpDave limit (pumpResult S dave users roster coord).1) := by
  obtain ⟨e, he⟩ := pumpResult_of_recovered S h
  rintro ⟨commands, keyPackage, hok, -⟩
  rw [he] at hok
  cases hok

/-- A session that rejects every commit and welcome. -/
def rejecting : Session Unit Unit where
  new := .ok
  setExternalSender _ s := (.ok (), s)
  createKeyPackage s := (.ok [7], s)
  processProposals _ _ _ s := (.ok none, s)
  processCommit _ s := (.error (), s)
  processWelcome _ s := (.error (), s)
  activateStagedSender s := (false, s)
  setPassthroughMode _ s := s
  receiveReady _ := false

def rejectedCommit : PendingDaveMlsMessage := ⟨⟨.commit, 1, 5⟩, [2]⟩

/-- Transition `5` is in flight with a commit for it. -/
def withCommit : DaveInternalState where
  phase := .preparedTransition 5 (.dave ⟨1, by decide⟩)
  externalSender := some [1]
  pendingMls := { commit := some rejectedCommit }

/-- The recovery puts the report behind the first key package, and all three are lost. -/
theorem report_dropped :
    let r := pumpResult rejecting withCommit ∅ true { session := () }
    .recovered rejectedCommit ∈ r.2.actions ∧
      r.2.commands = .daveMlsKeyPackage [7] :: report withCommit [7] ∧
      r.1 = .error (.processCommit ()) ∧ pumpDave 3 r.1 = [] ∧
      ¬ Reported withCommit r.1 (pumpDave 3 r.1) := by
  refine ⟨by decide, by decide, rfl, rfl, ?_⟩
  rintro ⟨_, _, h, -⟩
  cases h

theorem not_reported_withCommit :
    ¬ Reported withCommit (pumpResult rejecting withCommit ∅ true { session := () }).1
      (pumpDave 3 (pumpResult rejecting withCommit ∅ true { session := () }).1) :=
  not_reported_of_recovered rejecting ∅ true _ 3 rejectedCommit (by decide)

end Cacophony.PumpSpec
