import Cacophony.Gateway

/-!
When outgoing media may fall back to plaintext.

`sendRequiresDave` is a disjunction over the active and the prepared protocol, and every
handler rewrites one of the two. The transition that ends DAVE is meant to do so when it is
executed; while DAVE is only pending, the prepared protocol alone keeps media encrypted, and
preparing another one is enough to lose it.
-/

namespace Cacophony.Downgrade

open Gateway Runs DaveInternalState

/-- DAVE is required because it is active, or because it is prepared and either named by
transition `0` or the first protocol of the session. -/
lemma sendRequiresDave_iff (s : DaveInternalState) :
    s.sendRequiresDave = true ↔ s.active.send.isDave = true ∨
      (s.phase.protocol.isDave = true ∧ (s.transitionId = some 0 ∨ s.active.send = .unknown)) := by
  have hv : 0 < s.protocolVersion.getD 0 ↔ s.phase.protocol.isDave = true :=
    DaveProtocolState.gatewayVersion_pos _
  simp only [sendRequiresDave, transitionZeroDavePending, initialDaveNegotiationPending,
    DaveActiveMediaState.sendActive, activeSendProtocolVersion, DaveActiveMediaState.sendProtocol,
    Bool.or_eq_true, Bool.and_eq_true, decide_eq_true_eq, hv, Option.isNone_iff_eq_none,
    DaveProtocolState.gatewayVersion_eq_none]
  tauto

/-! ### What each handler does to the three fields `sendRequiresDave` reads -/

variable (s : DaveInternalState)

@[simp] lemma active_clearPendingMls : s.clearPendingMls.active = s.active := rfl
@[simp] lemma phase_clearPendingMls : s.clearPendingMls.phase = s.phase := rfl

-- every handler clears the pending messages under a condition of its own
@[simp] lemma active_ite_clear (c : Prop) [Decidable c] :
    (if c then s.clearPendingMls else s).active = s.active := by
  split <;> rfl

@[simp] lemma phase_ite_clear (c : Prop) [Decidable c] :
    (if c then s.clearPendingMls else s).phase = s.phase := by
  split <;> rfl

lemma setSessionProtocol_dave {v : Option UInt16}
    (h : (DaveProtocolState.fromGateway v).isDave = true) :
    (s.setSessionProtocol v).active = s.active ∧
      (s.setSessionProtocol v).phase = .session (.fromGateway v) := by
  simp only [setSessionProtocol, DaveProtocolState.isTransportOrUnknown, h, Bool.not_true,
    Bool.false_eq_true, if_false, and_true]
  exact active_ite_clear s _

lemma prepareEpoch_view (v : UInt16) (e : UInt64) :
    (s.prepareEpoch v e).active = s.active ∧
      (s.prepareEpoch v e).phase.protocol = .fromPrepared v ∧
      (s.prepareEpoch v e).transitionId = s.transitionId := by
  simp [prepareEpoch, DaveGatewayPhase.protocol, transitionId, DaveGatewayPhase.transitionId]

lemma setPendingMlsMessage_view (m : PendingDaveMlsMessage) :
    (s.setPendingMlsMessage m).active = s.active ∧
      (s.setPendingMlsMessage m).phase.protocol = s.phase.protocol ∧
      (s.setPendingMlsMessage m).transitionId = some m.identity.transitionId := by
  refine ⟨active_ite_clear s _, ?_, DaveGatewayPhase.transitionId_withTransitionId _ _⟩
  rw [← phase_ite_clear s (s.transitionId ≠ some m.identity.transitionId)]
  exact DaveGatewayPhase.protocol_withTransitionId _ _

lemma executeTransition_of_eq {t : UInt16} (h : s.transitionId = some t) :
    (s.executeTransition t).active = .setBoth s.phase.protocol ∧
      (s.executeTransition t).phase = s.phase.withoutTransition t := by
  simp [executeTransition, h]

lemma executeTransition_of_ne {t : UInt16} (h : s.transitionId ≠ some t) :
    (s.executeTransition t).active = s.active ∧ (s.executeTransition t).phase = s.phase := by
  simp [executeTransition, h]

/-- Preparing a transition puts it in flight; the reset of a sole member is executed at once. -/
lemma prepareTransition_eq (t v : UInt16) :
    ∃ s' : DaveInternalState, s'.active = s.active ∧ s'.phase.protocol = .fromPrepared v ∧
      s'.transitionId = some t ∧
      s.prepareTransition t v =
        if s'.epoch = some 1 ∧ t = 0 ∧ (DaveProtocolState.fromPrepared v).isDave then
          s'.executeTransition t else s' := by
  unfold prepareTransition
  refine ⟨_, ?_, ?_, ?_, rfl⟩
  · exact active_ite_clear s (s.transitionId ≠ some t)
  · dsimp only
    split <;> rfl
  · unfold transitionId
    dsimp only
    split <;> rfl

/-- Preparing a transition leaves it in flight, or has executed it as the reset of a sole
member. -/
lemma prepareTransition_view (t v : UInt16) :
    ((s.prepareTransition t v).active = s.active ∧
        (s.prepareTransition t v).phase.protocol = .fromPrepared v ∧
        (s.prepareTransition t v).transitionId = some t) ∨
      (v ≠ 0 ∧ t = 0 ∧ (s.prepareTransition t v).active = .setBoth (.fromPrepared v) ∧
        (s.prepareTransition t v).phase.protocol = .fromPrepared v ∧
        (s.prepareTransition t v).transitionId = none) := by
  obtain ⟨s', ha, hp, ht, heq⟩ := prepareTransition_eq s t v
  rw [heq]
  split
  next hc =>
    obtain ⟨hac, hph⟩ := executeTransition_of_eq s' ht
    refine Or.inr ⟨by simpa using hc.2.2, hc.2.1, by rw [hac, hp], by rw [hph]; simp [hp], ?_⟩
    unfold transitionId
    rw [hph]
    exact DaveGatewayPhase.transitionId_withoutTransition ht
  next => exact Or.inl ⟨ha, hp, ht⟩

/-! ### The downgrade -/

/-- The events at which DAVE may stop being required: executing the in-flight transition to
a protocol that is not DAVE, and a session description without a DAVE version. -/
def Permitted (s : DaveInternalState) : GatewayEvent → Prop
  | .executeTransition t => s.transitionId = some t ∧ s.phase.protocol.isDave = false
  | .sessionDescription v => v = none ∨ v = some 0
  | _ => False

/-- Outgoing media goes from DAVE to plaintext only where it is permitted to. -/
def NoEarlyDowngrade (s : DaveInternalState) (e : GatewayEvent) : Prop :=
  s.sendRequiresDave = true → (handle s e).sendRequiresDave = false → Permitted s e

/-- The event leaves a DAVE version prepared, and leaves it pending. -/
def Keeps (s : DaveInternalState) : GatewayEvent → Prop
  | .sessionDescription v => v = none ∨ v = some 0 ∨ s.active.send = .unknown
  | .prepareTransition t v => v ≠ 0 ∧ (t = 0 ∨ s.active.send = .unknown)
  | .prepareEpoch v _ => v ≠ 0
  | .mlsMessage m => m.identity.transitionId = 0 ∨ s.active.send = .unknown
  | _ => True

/-- The event does not take away the prepared protocol DAVE is pending on. There is nothing
to ask once DAVE is active: preparing never changes the active protocol. -/
def KeepsPendingDave (s : DaveInternalState) (e : GatewayEvent) : Prop :=
  s.sendRequiresDave = true → s.active.send.isDave = false → Keeps s e

instance (s : DaveInternalState) : ∀ e, Decidable (Permitted s e)
  | .executeTransition _ => inferInstanceAs (Decidable (_ ∧ _))
  | .sessionDescription _ => inferInstanceAs (Decidable (_ ∨ _))
  | .prepareTransition _ _ => isFalse id
  | .prepareEpoch _ _ => isFalse id
  | .mlsMessage _ => isFalse id
  | .proposals _ => isFalse id
  | .externalSender _ => isFalse id

instance (s : DaveInternalState) (e : GatewayEvent) : Decidable (NoEarlyDowngrade s e) :=
  inferInstanceAs (Decidable (_ → _ → _))

variable {s : DaveInternalState}

/-- While DAVE is pending, the prepared protocol is DAVE. -/
lemma pending_prepared (h : s.sendRequiresDave = true) (ha : s.active.send.isDave = false) :
    s.phase.protocol.isDave = true ∧ (s.transitionId = some 0 ∨ s.active.send = .unknown) := by
  rcases (sendRequiresDave_iff s).mp h with h | h
  · simp [ha] at h
  · exact h

lemma not_dave_version {v : Option UInt16}
    (h : (DaveProtocolState.fromGateway v).isDave = false) : v = none ∨ v = some 0 := by
  rcases v with _ | v
  · exact Or.inl rfl
  · by_contra hc
    have := (DaveProtocolState.isDave_fromGateway (some v)).mpr ⟨v, rfl, by simpa using hc⟩
    simp [h] at this

lemma active_keeps (ha : s.active.send.isDave = true) (e : GatewayEvent) :
    (handle s e).sendRequiresDave = true ∨ Permitted s e := by
  simp only [sendRequiresDave_iff]
  cases e with
  | sessionDescription v =>
    rcases Bool.eq_false_or_eq_true (DaveProtocolState.fromGateway v).isDave with hv | hv
    · simp [handle, setSessionProtocol_dave s hv, ha]
    · exact Or.inr (not_dave_version hv)
  | prepareTransition t v =>
    rcases prepareTransition_view s t v with ⟨h, -, -⟩ | ⟨hv, -, h, -, -⟩
    · simp [handle, h, ha]
    · simp [handle, h, DaveActiveMediaState.setBoth, hv]
  | prepareEpoch v e => simp [handle, prepareEpoch_view, ha]
  | executeTransition t =>
    by_cases ht : s.transitionId = some t
    · rcases Bool.eq_false_or_eq_true s.phase.protocol.isDave with hp | hp
      · simp [handle, executeTransition_of_eq s ht, DaveActiveMediaState.setBoth, hp]
      · exact Or.inr ⟨ht, hp⟩
    · simp [handle, executeTransition_of_ne s ht, ha]
  | mlsMessage m => simp [handle, setPendingMlsMessage_view, ha]
  | proposals p => simp [handle, ha]
  | externalSender p => simp [handle, ha]

lemma pending_keeps_iff (ha : s.active.send.isDave = false) (hp : s.phase.protocol.isDave = true)
    (hid : s.transitionId = some 0 ∨ s.active.send = .unknown) (e : GatewayEvent) :
    ((handle s e).sendRequiresDave = true ∨ Permitted s e) ↔ Keeps s e := by
  simp only [sendRequiresDave_iff]
  cases e with
  | sessionDescription v =>
    rcases Bool.eq_false_or_eq_true (DaveProtocolState.fromGateway v).isDave with hv | hv
    · obtain ⟨x, rfl, hx⟩ := (DaveProtocolState.isDave_fromGateway v).mp hv
      obtain ⟨h1, h2⟩ := setSessionProtocol_dave s hv
      simp [handle, h1, transitionId, h2, ha, hv, Permitted, Keeps, hx, DaveGatewayPhase.protocol,
        DaveGatewayPhase.transitionId]
    · have := not_dave_version hv
      simp only [Permitted, Keeps, this, or_true, true_iff]
      tauto
  | prepareTransition t v =>
    rcases prepareTransition_view s t v with ⟨h1, h2, h3⟩ | ⟨hv, rfl, h1, h2, h3⟩
    · simp [handle, h1, h2, h3, ha, Permitted, Keeps]
    · simp [handle, h1, DaveActiveMediaState.setBoth, hv, Keeps]
  | prepareEpoch v e => simp [handle, prepareEpoch_view, ha, hid, Permitted, Keeps]
  | executeTransition t =>
    by_cases ht : s.transitionId = some t
    · simp [handle, executeTransition_of_eq s ht, DaveActiveMediaState.setBoth, hp, Keeps]
    · obtain ⟨h1, h2⟩ := executeTransition_of_ne s ht
      simp only [handle, h1, h2, transitionId, ha, hp, Keeps, Bool.false_eq_true, true_and,
        false_or, iff_true]
      exact Or.inl hid
  | mlsMessage m => simp [handle, setPendingMlsMessage_view, ha, hp, Permitted, Keeps]
  | proposals p => simpa [handle, hp, ha, Permitted, Keeps, transitionId] using hid
  | externalSender p => simpa [handle, hp, ha, Permitted, Keeps, transitionId] using hid

/-- One event: it makes no early downgrade exactly when it keeps what DAVE is pending on. -/
lemma noEarlyDowngrade_iff_step (s : DaveInternalState) (e : GatewayEvent) :
    NoEarlyDowngrade s e ↔ KeepsPendingDave s e := by
  have key : NoEarlyDowngrade s e ↔ (s.sendRequiresDave = true →
      (handle s e).sendRequiresDave = true ∨ Permitted s e) := by
    unfold NoEarlyDowngrade
    cases (handle s e).sendRequiresDave <;> simp
  rw [key, KeepsPendingDave]
  refine imp_congr_right fun h => ?_
  rcases Bool.eq_false_or_eq_true s.active.send.isDave with ha | ha
  · -- DAVE is active: only a permitted event changes the active protocol
    simp only [ha, Bool.true_eq_false, false_imp_iff, iff_true]
    exact active_keeps ha e
  · obtain ⟨hp, hid⟩ := pending_prepared h ha
    simp only [ha, true_imp_iff]
    exact pending_keeps_iff ha hp hid e

/-- **No early downgrade.** A run of gateway events goes from DAVE to plaintext only at the
execute of a transition away from DAVE or a session description without DAVE, if and only
if no event takes away the protocol DAVE is pending on. -/
theorem noEarlyDowngrade_iff (es : List GatewayEvent) :
    Along handle NoEarlyDowngrade {} es ↔ Along handle KeepsPendingDave {} es :=
  along_congr noEarlyDowngrade_iff_step {} es

/-- A session with DAVE, and a transition to version `0` prepared before anything was
executed: media is plaintext from the prepare on. -/
theorem downgrade_at_prepare :
    ¬ Along handle NoEarlyDowngrade {}
      [.sessionDescription (some 1), .prepareTransition 5 0] := by
  decide

end Cacophony.Downgrade
