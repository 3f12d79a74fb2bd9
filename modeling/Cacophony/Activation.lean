import Cacophony.PumpSpec

/-!
When the sender switches to a staged ratchet.

Processing a commit or a welcome stages a sender ratchet, which is meant to wait for the
execution of the transition that announced the message. The coordinator does not remember that
transition: it switches when none is in flight, or when transition `0` is marked ready. The log
of a run, gateway events and actions of the pumps in one list, says whether a switch waited.
-/

namespace Cacophony.Activation

open Runs Progs Gateway Coordinator PumpMoves PumpSpec

inductive Happening
  | event (event : GatewayEvent)
  | action (action : Action)
  deriving DecidableEq

/-- The staged ratchet does not survive this. -/
def Unstages : Happening → Prop
  | .action (.processMls _ true) => True
  | .action (.replaceSession true) => True
  | .action (.activateStagedSender _) => True
  | _ => False

/-- A ratchet that is staged for a message announced for a transition other than `0` is
switched to only after that transition was executed since the announcement. -/
def WaitsForExecute (log : List Happening) : Prop :=
  ∀ l₀ m l₁ l₂ l₃, log = l₀ ++ .event (.mlsMessage m) :: (l₁ ++ .action (.processMls m true) ::
      (l₂ ++ .action (.activateStagedSender true) :: l₃)) →
    .event (.mlsMessage m) ∉ l₁ → (∀ h ∈ l₂, ¬ Unstages h) → m.identity.transitionId ≠ 0 →
    .event (.executeTransition m.identity.transitionId) ∈ l₁ ++ l₂

/-- The message whose ratchet is staged for a transition that is not `0` and was not executed
since. -/
def observe (waiting : Option PendingDaveMlsMessage) : Happening → Option PendingDaveMlsMessage
  | .action (.processMls m true) => if m.identity.transitionId = 0 then none else some m
  | .action (.replaceSession true) => none
  | .action (.activateStagedSender _) => none
  | .event (.executeTransition t) => waiting.filter fun m => m.identity.transitionId ≠ t
  | _ => waiting

/-- The sender is not switched while a ratchet waits. -/
def SwitchesInTime (waiting : Option PendingDaveMlsMessage) (h : Happening) : Prop :=
  ∀ switched, h = .action (.activateStagedSender switched) → waiting = none

variable {m : PendingDaveMlsMessage} {l : List Action}

lemma observe_quiet {h : Happening} (hu : ¬ Unstages h)
    (hx : h ≠ .event (.executeTransition m.identity.transitionId)) :
    observe (some m) h = some m := by
  unfold observe
  split
  -- a ratchet staged anew, a session replaced, a switch: each unstages
  · exact absurd trivial hu
  · exact absurd trivial hu
  · exact absurd trivial hu
  next t =>
    have ht : m.identity.transitionId ≠ t := fun heq => hx (by rw [heq])
    exact Option.filter_eq_some_iff.mpr ⟨rfl, decide_eq_true ht⟩
  · rfl

lemma run_observe_quiet {l : List Happening} (hu : ∀ h ∈ l, ¬ Unstages h)
    (hx : .event (.executeTransition m.identity.transitionId) ∉ l) :
    run observe (some m) l = some m := by
  induction l with
  | nil => rfl
  | cons h l ih =>
    simp only [List.mem_cons, not_or, forall_eq_or_imp] at hu hx
    rw [run_cons, observe_quiet hu.1 (Ne.symm hx.1), ih hu.2 hx.2]

theorem waitsForExecute_of_along {log : List Happening}
    (h : Along observe SwitchesInTime none log) : WaitsForExecute log := by
  rintro l₀ m l₁ l₂ l₃ rfl - hu ht
  by_contra hx
  have hcut := along_iff.mp h
    (l₀ ++ .event (.mlsMessage m) :: (l₁ ++ .action (.processMls m true) :: l₂)) _ l₃
    (by simp) true rfl
  have hrun : run observe (some m) l₂ = some m :=
    run_observe_quiet hu fun hm => hx (List.mem_append_right _ hm)
  simp [run_append, observe, ht, hrun] at hcut

/-! ### One pump -/

/-- The action stages no ratchet for a transition other than `0`. -/
def StagesZero : Action → Prop
  | .processMls m _ => m.identity.transitionId = 0
  | _ => True

lemma observe_stagesZero {a : Action} (h : StagesZero a) : observe none (.action a) = none := by
  unfold observe
  split <;> simp_all [StagesZero]

lemma along_of_none (h : ∀ a ∈ l, StagesZero a) :
    Along observe SwitchesInTime none (l.map .action) ∧
      run observe none (l.map .action) = none := by
  induction l with
  | nil => simp
  | cons a l ih =>
    rw [List.map_cons, along_cons, run_cons, observe_stagesZero (h a List.mem_cons_self)]
    obtain ⟨hal, hrun⟩ := ih fun b hb => h b (List.mem_cons_of_mem a hb)
    exact ⟨⟨fun _ _ => rfl, hal⟩, hrun⟩

/-- A message of transition `0` takes the place of a ratchet that waits. -/
lemma run_observe_of_staged (h : ∀ a ∈ l, StagesZero a) (hm : .processMls m true ∈ l)
    (w : Option PendingDaveMlsMessage) : run observe w (l.map .action) = none := by
  obtain ⟨l₁, l₂, rfl⟩ := List.append_of_mem hm
  have h0 : m.identity.transitionId = 0 := h _ hm
  rw [List.map_append, run_append, List.map_cons, run_cons]
  simp only [observe, h0, if_true]
  exact (along_of_none fun a ha => h a (by simp [ha])).2

lemma along_of_no_switch (h : ∀ b, .activateStagedSender b ∉ l) (w : Option PendingDaveMlsMessage) :
    Along observe SwitchesInTime w (l.map .action) := by
  refine along_iff.mpr fun pre e post heq b he => absurd ?_ (h b)
  have hmem : e ∈ l.map .action := by simp [heq]
  obtain ⟨a, ha, rfl⟩ := List.mem_map.mp hmem
  cases he
  exact ha

/-- A pending message names the transition in flight, if there is one. -/
def PendingInFlight (dave : DaveInternalState) : Prop :=
  ∀ m ∈ dave.pendingMls.welcomeThenCommit,
    dave.transitionId = some m.identity.transitionId ∨ dave.transitionId = none

/-- The coordinator is ready to switch the sender. -/
def GateOpen (dave : DaveInternalState) (ready : Option UInt16) : Prop :=
  Executed dave ∨ dave.transitionZeroMediaReady ready = true

instance (dave : DaveInternalState) (ready : Option UInt16) : Decidable (GateOpen dave ready) :=
  inferInstanceAs (Decidable (_ ∨ _))

/-- The gate is not open while a ratchet waits, nor while a message for a transition other than
`0` is pending. -/
def ClosedWhileWaiting (dave : DaveInternalState) (ready : Option UInt16)
    (waiting : Option PendingDaveMlsMessage) : Prop :=
  GateOpen dave ready →
    waiting = none ∧ ∀ m ∈ dave.pendingMls.welcomeThenCommit, m.identity.transitionId = 0

instance (dave : DaveInternalState) (ready : Option UInt16)
    (waiting : Option PendingDaveMlsMessage) : Decidable (ClosedWhileWaiting dave ready waiting) :=
  inferInstanceAs (Decidable (_ → _ ∧ _))

theorem along_of_done {σ : Type} {dave : DaveInternalState} {ready : Option UInt16}
    {waiting : Option PendingDaveMlsMessage} {w : Pump σ} (hdone : Done dave ready w)
    (hp : PendingInFlight dave) (hc : ClosedWhileWaiting dave ready waiting) :
    Along observe SwitchesInTime waiting (w.actions.map .action) := by
  obtain ⟨early, last, heq, hearly, hlast⟩ := hdone
  have hzero (h : ∀ m ∈ dave.pendingMls.welcomeThenCommit, m.identity.transitionId = 0) :
      ∀ a ∈ early, StagesZero a := by
    intro a ha
    have := hearly a ha
    cases a <;> first | trivial | exact h _ this
  rw [heq, List.map_append, along_append]
  by_cases hx : Executed dave
  · obtain ⟨rfl, hm⟩ := hc (.inl hx)
    obtain ⟨hal, hrun⟩ := along_of_none (hzero hm)
    rw [hrun]
    refine ⟨hal, (along_of_none ?_).1⟩
    rcases hlast with rfl | ⟨_, rfl, -⟩ <;> simp [StagesZero]
  · refine ⟨along_of_no_switch (fun b hb => hx (hearly _ hb)) _, ?_⟩
    rcases hlast with rfl | ⟨b, rfl, ht, hs⟩
    · trivial
    -- transition `0` is in flight, so no pending message names another one
    have hm : ∀ m ∈ dave.pendingMls.welcomeThenCommit, m.identity.transitionId = 0 := by
      intro m hm
      have := hp m hm
      simpa [ht, eq_comm] using this
    have hnone : run observe waiting (early.map .action) = none := by
      rcases hs with rfl | ⟨m, hmem⟩
      · have hg : GateOpen dave (some 0) :=
          .inr (by simp [DaveInternalState.transitionZeroMediaReady, ht])
        rw [(hc hg).1]
        exact (along_of_none (hzero hm)).2
      · exact run_observe_of_staged (hzero hm) hmem _
    exact ⟨fun _ _ => hnone, trivial⟩

/-! ### The events -/

variable {dave : DaveInternalState}

@[simp] lemma mem_welcomeThenCommit {α : Type} {s : DaveMlsSlots α} {x : α} :
    x ∈ s.welcomeThenCommit ↔ s.welcome = some x ∨ s.commit = some x := by
  simp [DaveMlsSlots.welcomeThenCommit]

lemma mem_of_mem_setMessage {s : DaveMlsSlots PendingDaveMlsMessage} {m' : PendingDaveMlsMessage}
    (h : m' ∈ (s.setMessage m).welcomeThenCommit) (hne : m' ≠ m) : m' ∈ s.welcomeThenCommit := by
  simp only [DaveMlsSlots.setMessage, DaveMlsSlots.set, mem_welcomeThenCommit] at h ⊢
  split at h
  · exact h.imp_right fun h => absurd (Option.some.inj h).symm hne
  · exact h.imp_left fun h => absurd (Option.some.inj h).symm hne

lemma pendingInFlight_clear : PendingInFlight dave.clearPendingMls := by
  simp [PendingInFlight, DaveInternalState.clearPendingMls]

/-- The handlers that name a transition first drop what another one left pending. -/
lemma pending_of_renamed (h : PendingInFlight dave) {t : UInt16} {m : PendingDaveMlsMessage}
    (hm : m ∈ (if dave.transitionId ≠ some t then dave.clearPendingMls else dave
      ).pendingMls.welcomeThenCommit) : m.identity.transitionId = t := by
  split at hm
  · simp [DaveInternalState.clearPendingMls] at hm
  · next ht =>
    rw [not_not] at ht
    simpa [ht, eq_comm] using h m hm

lemma pendingInFlight_ite_execute {c : Prop} [Decidable c] (h : PendingInFlight dave) {t : UInt16} :
    PendingInFlight (if c then dave.executeTransition t else dave) := by
  split
  · exact pendingInFlight_clear
  · exact h

lemma pendingInFlight_prepareTransition (h : PendingInFlight dave) (t v : UInt16) :
    PendingInFlight (dave.prepareTransition t v) := by
  refine pendingInFlight_ite_execute fun m hm => .inl ?_
  rw [pending_of_renamed h hm, DaveInternalState.transitionId]
  dsimp only
  split <;> rfl

lemma pendingInFlight_setPendingMlsMessage (h : PendingInFlight dave) (m : PendingDaveMlsMessage) :
    PendingInFlight (dave.setPendingMlsMessage m) := by
  intro m' hm'
  left
  have ht : m'.identity.transitionId = m.identity.transitionId := by
    by_cases heq : m' = m
    · rw [heq]
    refine pending_of_renamed h (mem_of_mem_setMessage hm' heq)
  simp [DaveInternalState.setPendingMlsMessage, DaveInternalState.transitionId, ht]

theorem pendingInFlight_handle (h : PendingInFlight dave) (e : GatewayEvent) :
    PendingInFlight (handle dave e) := by
  cases e with
  | sessionDescription v =>
    refine fun _ _ => .inr ?_
    simp only [handle, DaveInternalState.setSessionProtocol]
    split <;> rfl
  | prepareTransition t v => exact pendingInFlight_prepareTransition h t v
  | prepareEpoch v e =>
    have hc : PendingInFlight
        (if e = 1 ∨ dave.epoch ≠ some e then dave.clearPendingMls else dave) := by
      split
      · exact pendingInFlight_clear
      · exact h
    exact hc
  | executeTransition t => exact pendingInFlight_clear
  | mlsMessage m => exact pendingInFlight_setPendingMlsMessage h m
  | proposals p => exact h
  | externalSender p => exact h

/-! ### Runs -/

/-- A gateway event, with what the driver knows of the channel when it pumps. -/
structure Input where
  event : GatewayEvent
  connectedUserIds : Finset UInt64
  rosterAuthoritative : Bool

structure System (σ : Type) where
  gateway : DaveInternalState := {}
  coord : DaveCoordinator σ
  log : List Happening := []

/-- `GatewayEventEffects::allow_plaintext_receive_grace` of an event. -/
def plaintextReceiveGrace (dave : DaveInternalState) : GatewayEvent → Bool
  | .executeTransition t => dave.transitionId = some t && dave.active.receiveProtocol.getD 0 = 0 &&
      0 < dave.protocolVersion.getD 0
  | _ => false

variable {σ ε : Type} (S : Session σ ε)

/-- The part of `apply_gateway_effects` that touches the coordinator. -/
def applyGatewayEffects (allowGrace : Bool) : PumpM σ ε Unit :=
  if allowGrace then allowPlaintextReceiveGrace S else pure ()

/-- The driver after an event: it applies the effects of the event, and pumps. -/
def follow (s : System σ) (i : Input) : Except (DaveError ε) Unit × Pump σ :=
  exec (do
    applyGatewayEffects S (plaintextReceiveGrace s.gateway i.event)
    pump S (handle s.gateway i.event) i.connectedUserIds i.rosterAuthoritative) { coord := s.coord }

def System.step (s : System σ) (i : Input) : System σ where
  gateway := handle s.gateway i.event
  coord := (follow S s i).2.coord
  log := s.log ++ .event i.event :: (follow S s i).2.actions.map .action

/-- The pump of the step succeeds. -/
def Succeeds (s : System σ) (i : Input) : Prop := (follow S s i).1 = .ok ()

/-- The event of the step opens no gate to a ratchet that waits. -/
def KeepsClosed (s : System σ) (i : Input) : Prop :=
  ClosedWhileWaiting (handle s.gateway i.event) s.coord.transitionReady
    (run observe none (s.log ++ [.event i.event]))

instance [DecidableEq ε] (s : System σ) (i : Input) : Decidable (Succeeds S s i) :=
  inferInstanceAs (Decidable (_ = _))

instance (s : System σ) (i : Input) : Decidable (KeepsClosed s i) :=
  inferInstanceAs (Decidable (ClosedWhileWaiting _ _ _))

lemma done_of_succeeds {s : System σ} {i : Input} (h : Succeeds S s i) :
    Done (handle s.gateway i.event) s.coord.transitionReady (follow S s i).2 := by
  have hf : Holds (Underway (handle s.gateway i.event) s.coord.transitionReady)
      (do
        applyGatewayEffects S (plaintextReceiveGrace s.gateway i.event)
        pump S (handle s.gateway i.event) i.connectedUserIds i.rosterAuthoritative)
      fun _ => Done (handle s.gateway i.event) s.coord.transitionReady := by
    refine holds_bind ?_ fun _ => holds_pump S _ _
    unfold applyGatewayEffects
    split
    · exact holds_of_makes (makes_allowPlaintextReceiveGrace S [.mode] (by decide)) (by decide)
    · exact holds_pure fun _ hw => hw
  exact hf _ (underway_start s.coord) () _ (Prod.ext h rfl)

/-- A step with a successful pump and a closed gate keeps the order of the log. -/
lemma step_inv {s : System σ} {i : Input} (hs : Succeeds S s i) (hc : KeepsClosed s i)
    (h : PendingInFlight s.gateway ∧ Along observe SwitchesInTime none s.log) :
    PendingInFlight (s.step S i).gateway ∧ Along observe SwitchesInTime none (s.step S i).log := by
  have hp := pendingInFlight_handle h.1 i.event
  refine ⟨hp, ?_⟩
  rw [System.step, ← List.singleton_append, ← List.append_assoc, along_append, along_append]
  refine ⟨⟨h.2, (along_cons _ _ _).mpr ⟨fun _ he => (nomatch he), trivial⟩⟩, ?_⟩
  exact along_of_done (done_of_succeeds S hs) hp hc

/-- **Staged ratchets wait.** In every run from a new coordinator whose pumps all succeed and
whose events open no gate to a ratchet that waits, every switch of the sender to a ratchet of a
transition other than `0` comes after the execution of that transition. -/
theorem waitsForExecute_run (session : σ) (inputs : List Input)
    (h : Along (System.step S) (fun s i => Succeeds S s i ∧ KeepsClosed s i)
      { coord := { session := session } } inputs) :
    WaitsForExecute (run (System.step S) { coord := { session := session } } inputs).log := by
  refine waitsForExecute_of_along (run_inv (I := fun s : System σ =>
    PendingInFlight s.gateway ∧ Along observe SwitchesInTime none s.log) ?_ ?_ h).2
  · exact fun s i hI hP => step_inv S hP.1 hP.2 hI
  · exact ⟨by simp [PendingInFlight], trivial⟩

/-- A session that accepts everything and only remembers whether a ratchet is staged. -/
def accepting : Session Bool Unit where
  new _ := .ok false
  setExternalSender _ s := (.ok (), s)
  createKeyPackage s := (.ok [7], s)
  processProposals _ _ _ s := (.ok none, s)
  processCommit _ _ := (.ok (), true)
  processWelcome _ _ := (.ok (), true)
  activateStagedSender s := (s, false)
  setPassthroughMode _ s := s
  receiveReady s := s

def commitFor (t : UInt16) : PendingDaveMlsMessage := ⟨⟨.commit, 1, t⟩, [2]⟩

def inputOf (e : GatewayEvent) : Input := ⟨e, ∅, true⟩

/-- DAVE becomes active by transition `3`, and a commit is announced for transition `5`. -/
def announced : List Input :=
  [.sessionDescription (some 1), .externalSender [1], .prepareTransition 3 1,
    .executeTransition 3, .mlsMessage (commitFor 5)].map inputOf

theorem waitsForExecute_announced :
    WaitsForExecute (run (System.step accepting) { coord := { session := false } }
      (announced ++ [inputOf (.executeTransition 5)])).log :=
  waitsForExecute_run accepting false _ (by decide)

/-- A second session description takes transition `5` out of flight, and the sender switches
although `5` was never executed. -/
theorem switched_without_execute :
    Along (System.step accepting) (Succeeds accepting) { coord := { session := false } }
        (announced ++ [inputOf (.sessionDescription (some 1))]) ∧
      ¬ WaitsForExecute (run (System.step accepting) { coord := { session := false } }
        (announced ++ [inputOf (.sessionDescription (some 1))])).log := by
  refine ⟨by decide, fun h => ?_⟩
  have hx := h ((run (System.step accepting) { coord := { session := false } }
      (announced.take 4)).log) (commitFor 5) [] [.event (.sessionDescription (some 1))]
    [.action (.activateStagedSender false), .action (.activateStagedSender false)]
    (by decide) (by simp) (by simp [Unstages]) (by decide)
  simp at hx

end Cacophony.Activation
