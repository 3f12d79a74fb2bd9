import Cacophony.Activation
import Cacophony.Downgrade

/-!
Pending commits and welcomes, and the transition in flight.

The gateway announces a commit or a welcome for a transition, and executes that transition
later. A handler that names another transition drops what is pending; one that only takes the
transition out of flight has to drop it too, or the execute finds nothing to execute.
-/

namespace Cacophony.PendingTransition

open Gateway Runs Downgrade Activation DaveInternalState

variable {s : DaveInternalState}

/-- Every pending message carries the id of the transition in flight. -/
def InFlight (s : DaveInternalState) : Prop :=
  ∀ m ∈ s.pendingMls.welcomeThenCommit, s.transitionId = some m.identity.transitionId

/-- Executing the transition of a pending message makes the prepared protocol the active one,
both ways, and takes the transition out of flight. -/
def Executable (s : DaveInternalState) : Prop :=
  ∀ m ∈ s.pendingMls.welcomeThenCommit,
    (handle s (.executeTransition m.identity.transitionId)).active = .setBoth s.phase.protocol ∧
      (handle s (.executeTransition m.identity.transitionId)).transitionId = none

instance (s : DaveInternalState) : Decidable (InFlight s) :=
  inferInstanceAs (Decidable (∀ m ∈ s.pendingMls.welcomeThenCommit, _))

/-- The event does not end the transition that a pending message waits for: a session
description that keeps the protocol finds nothing pending. -/
def KeepsTransition (s : DaveInternalState) : GatewayEvent → Prop
  | .sessionDescription v =>
      s.phase.protocol = .fromGateway v → s.pendingMls.welcomeThenCommit = []
  | _ => True

lemma InFlight.executable (h : InFlight s) : Executable s := by
  intro m hm
  obtain ⟨hactive, hphase⟩ := executeTransition_of_eq s (h m hm)
  refine ⟨hactive, ?_⟩
  unfold transitionId handle
  rw [hphase]
  exact DaveGatewayPhase.transitionId_withoutTransition (h m hm)

/-- What is in flight, apart from the case that nothing is. -/
lemma inFlight_iff :
    InFlight s ↔ PendingInFlight s ∧
      (s.transitionId = none → s.pendingMls.welcomeThenCommit = []) := by
  constructor
  · intro h
    refine ⟨fun m hm => .inl (h m hm), fun hnone => List.eq_nil_iff_forall_not_mem.mpr ?_⟩
    intro m hm
    have := h m hm
    simp [hnone] at this
  · rintro ⟨h, hnone⟩ m hm
    rcases h m hm with ht | ht
    · exact ht
    · rw [hnone ht] at hm
      exact absurd hm List.not_mem_nil

lemma pending_clear : s.clearPendingMls.pendingMls.welcomeThenCommit = [] := rfl

lemma inFlight_clear : InFlight s.clearPendingMls := by
  intro m hm
  rw [pending_clear] at hm
  exact absurd hm List.not_mem_nil

/-- A session description takes every transition out of flight. -/
lemma inFlight_setSessionProtocol (s : DaveInternalState) (v : Option UInt16) :
    InFlight (s.setSessionProtocol v) ↔ KeepsTransition s (.sessionDescription v) := by
  have hnone : (s.setSessionProtocol v).transitionId = none := by
    unfold setSessionProtocol
    dsimp only
    split <;> rfl
  have hpending : (s.setSessionProtocol v).pendingMls =
      (if s.phase.protocol ≠ .fromGateway v then s.clearPendingMls else s).pendingMls := by
    unfold setSessionProtocol
    dsimp only
    split <;> rfl
  have hempty : InFlight (s.setSessionProtocol v) ↔
      (s.setSessionProtocol v).pendingMls.welcomeThenCommit = [] := by
    simp [InFlight, hnone, List.eq_nil_iff_forall_not_mem]
  rw [hempty, hpending]
  unfold KeepsTransition
  by_cases hp : s.phase.protocol = .fromGateway v
  · rw [if_neg (not_not.mpr hp)]
    simp [hp]
  · rw [if_pos hp]
    simp [hp, pending_clear]

lemma InFlight.prepareTransition (h : InFlight s) (t v : UInt16) :
    InFlight (s.prepareTransition t v) := by
  refine inFlight_iff.mpr ⟨pendingInFlight_prepareTransition (inFlight_iff.mp h).1 t v, ?_⟩
  obtain ⟨s', -, -, ht, heq⟩ := prepareTransition_eq s t v
  rw [heq]
  split
  · exact fun _ => pending_clear
  · intro hnone
    rw [ht] at hnone
    cases hnone

lemma InFlight.prepareEpoch (h : InFlight s) (v : UInt16) (e : UInt64) :
    InFlight (s.prepareEpoch v e) := by
  have hc : InFlight (if e = 1 ∨ s.epoch ≠ some e then s.clearPendingMls else s) := by
    split
    · exact inFlight_clear
    · exact h
  exact hc

lemma InFlight.setPendingMlsMessage (h : InFlight s) (m : PendingDaveMlsMessage) :
    InFlight (s.setPendingMlsMessage m) := by
  refine inFlight_iff.mpr ⟨pendingInFlight_setPendingMlsMessage (inFlight_iff.mp h).1 m, ?_⟩
  rw [(setPendingMlsMessage_view s m).2.2]
  intro hnone
  cases hnone

/-- One event. -/
lemma inFlight_handle (s : DaveInternalState) (e : GatewayEvent) (h : InFlight s) :
    InFlight (handle s e) ↔ KeepsTransition s e := by
  cases e with
  | sessionDescription v => exact inFlight_setSessionProtocol s v
  | prepareTransition t v => exact iff_of_true (h.prepareTransition t v) trivial
  | prepareEpoch v e => exact iff_of_true (h.prepareEpoch v e) trivial
  | executeTransition t => exact iff_of_true inFlight_clear trivial
  | mlsMessage m => exact iff_of_true (h.setPendingMlsMessage m) trivial
  | proposals p => exact iff_of_true h trivial
  | externalSender p => exact iff_of_true h trivial

/-- **Pending messages wait for the transition in flight.** In a run of gateway events every
state has all its pending messages in flight, and can execute them, if and only if no session
description keeps the protocol while a message is pending. -/
theorem inFlight_run_iff (es : List GatewayEvent) :
    (∀ pre, pre <+: es → InFlight (run handle {} pre) ∧ Executable (run handle {} pre)) ↔
      Along handle KeepsTransition {} es := by
  have hstart : InFlight {} := by
    intro m hm
    exact absurd hm List.not_mem_nil
  rw [← always_iff_along inFlight_handle es hstart]
  exact ⟨fun h pre hpre => (h pre hpre).1, fun h pre hpre => ⟨h pre hpre, (h pre hpre).executable⟩⟩

/-- A second session description with the same version, while a commit waits for transition `5`:
the commit stays, and executing `5` changes nothing any more. -/
theorem commit_outlives_transition :
    let s := run handle {} [.sessionDescription (some 1), .mlsMessage (commitFor 5),
      .sessionDescription (some 1)]
    commitFor 5 ∈ s.pendingMls.welcomeThenCommit ∧ s.transitionId = none ∧ ¬ InFlight s ∧
      (handle s (.executeTransition 5)).active = s.active ∧ s.active = {} ∧
      s.phase.protocol = .fromGateway (some 1) ∧ ¬ Executable s := by
  refine ⟨by decide, by decide, by decide, by decide, by decide, by decide, fun h => ?_⟩
  exact absurd (h (commitFor 5) (by decide)).1 (by decide)

end Cacophony.PendingTransition
