import Cacophony.DaveSession
import Cacophony.MlsPolicy
import Cacophony.Runs

/-!
The status of a session and its group.

`status` says whether there is a group, and whether it is established. The calls write the two at
different points, and leave early at many others, so that the question is which failures leave
one without the other. The answer rests on the policy: a commit is merged before the group it
leaves is checked, and a check that failed there would leave an established group that the status
does not know of.
-/

namespace Cacophony.SessionStatus

open Mls Progs Runs DaveSession

variable {M : OpenMls}

/-! ### What the status says -/

/-- The state of the group that the status goes with. -/
def expects : DaveSession.SessionStatus → Option SessionGroupState
  | .inactive => none
  | .pending | .awaitingInitialResponse => some .pending
  | .awaitingCommit | .active => some .established

/-- `Inactive` without a group, `Pending` or `AwaitingInitialResponse` with a pending one, and
`AwaitingCommit` or `Active` with an established one. -/
def Agrees (s : Session M) : Prop :=
  (s.status = .inactive ↔ s.group = none) ∧
  (s.status = .pending ∨ s.status = .awaitingInitialResponse ↔
    ∃ g, s.group = some g ∧ g.isPending) ∧
  (s.status = .awaitingCommit ∨ s.status = .active ↔ ∃ g, s.group = some g ∧ g.isEstablished)

lemma agrees_iff {s : Session M} :
    Agrees s ↔ expects s.status = s.group.map SessionGroup.state := by
  unfold Agrees
  rcases s.group with _ | ⟨group, _ | _⟩ <;> cases s.status <;>
    simp [expects, SessionGroup.isPending, SessionGroup.isEstablished]

/-- The external sender is `x`, status and group agree on `o`, and the group is within the
policy. -/
structure Held (x : Option ExternalSender) (o : Option SessionGroupState) (s : Session M) :
    Prop where
  externalSender : s.externalSender = x
  status : expects s.status = o
  group : s.group.map SessionGroup.state = o
  policy : ∀ g, s.group = some g → ∃ e, x = some e ∧ validateGroupPolicy g.group e = .ok ()

variable {x : Option ExternalSender} {o : Option SessionGroupState} {s : Session M}
  {e : ExternalSender} {g : SessionGroup M.Secrets}

lemma Held.agrees (h : Held x o s) : Agrees s := agrees_iff.mpr (h.status.trans h.group.symm)

lemma Held.some_state (h : Held x o s) (hg : s.group = some g) : o = some g.state := by
  rw [← h.group, hg]
  rfl

/-- A group within the policy in place of the old one. -/
lemma Held.setGroup (h : Held x o s) {group : MlsGroup M.Secrets} {provider : M.Provider}
    (hg : s.group = some g) (hx : x = some e) (hpolicy : validateGroupPolicy group e = .ok ()) :
    Held x o { s with group := some { g with group }, provider } where
  externalSender := h.externalSender
  status := h.status
  group := (h.some_state hg).symm
  policy := by
    intro _ hsome
    cases hsome
    exact ⟨e, hx, hpolicy⟩

/-- A change that the policy does not look at. -/
lemma Held.sameGroup (h : Held x o s) {group : MlsGroup M.Secrets} {provider : M.Provider}
    (hg : s.group = some g) (hsame : SameGroup g.group group) :
    Held x o { s with group := some { g with group }, provider } := by
  obtain ⟨e, hx, hpolicy⟩ := h.policy g hg
  exact h.setGroup hg hx (hsame.validateGroupPolicy hpolicy)

variable {ε δ α : Type} {E : Session M → Prop}

lemma ends_onGroup_same {none : ε} {wrap : δ → ε}
    {f : MlsGroup M.Secrets × M.Provider → Except δ α × MlsGroup M.Secrets × M.Provider}
    (hf : ∀ w, SameGroup w.1 (f w).2.1) : Always (Held x o) (onGroup none wrap f) := by
  refine always_onGroup fun s g r group provider hs hg heq => ?_
  have := hf (g.group, s.provider)
  rw [heq] at this
  exact hs.sameGroup hg this

lemma ends_onProvider_held {wrap : δ → ε} {f : M.Provider → Except δ α × M.Provider} :
    Always (Held x o) (onProvider wrap f) :=
  ends_onProvider (fun _ _ _ hs _ => ⟨hs.1, hs.2, hs.3, hs.4⟩)
    fun _ _ _ hs _ => ⟨hs.1, hs.2, hs.3, hs.4⟩

/-! ### Proposals -/

lemma ends_applyProposals (hM : Lawful M) (operation : ProposalsOperation) (proposals : Bytes)
    (expected : UInt64 → Bool) :
    Always (Held x o) (applyProposals (M := M) operation proposals expected) :=
  always_applyProposals (fun m => ends_onGroup_same (hM.processMessage m))
    (fun q => ends_onGroup_same (hM.storePendingProposal q))
    (fun r => ends_onGroup_same (hM.removePendingProposal r)) operation proposals expected

lemma expects_settled (status : DaveSession.SessionStatus) :
    expects status.settled = expects status := by
  cases status <;> rfl

lemma ends_commitProposals (hM : Lawful M) (ho : o = some g.state) (adds : Bool) :
    Always (Held x o) (commitProposals (M := M) g.isEstablished adds) := by
  refine always_bind (ends_onGroup_same hM.commitToPendingProposals) fun out => ?_
  refine always_bind (always_modify fun s hs => ?_) fun _ => ?_
  · refine ⟨hs.1, ?_, hs.3, hs.4⟩
    rcases g with ⟨group, _ | _⟩ <;> rw [ho] <;> rfl
  · refine always_bind (always_ofResult _ _) fun commit => ?_
    refine always_bind (always_modify fun s hs => ⟨hs.1, hs.2, hs.3, hs.4⟩) fun _ => ?_
    split
    · exact always_pure _
    · exact always_bind (always_ofResult _ _) fun _ => always_pure _

lemma ends_processProposals (hM : Lawful M) (operation : ProposalsOperation) (proposals : Bytes)
    (expected : UInt64 → Bool) :
    Always (Held x o) (processProposals (M := M) operation proposals expected) := by
  refine ends_get_bind fun s hs => ?_
  have hkept : ∀ w, w = s → Held x o w := fun w hw => hw ▸ hs
  rcases hg : s.group with _ | g
  · exact ends_throw hkept
  · have hclear : Always (Held x o) (onGroup .noGroup ProcessProposalsError.clearPendingCommit
        (M.clearPendingCommit)) := ends_onGroup_same hM.clearPendingCommit
    have hforget : Always (Held (M := M) x o) (modify fun s => { s with pendingCommit := none } :
        SessionM M (ProcessProposalsError M.Error) Unit) :=
      always_modify fun _ hs => ⟨hs.1, hs.2, hs.3, hs.4⟩
    refine Ends.mono_pre (P := Held x o) (always_bind (always_ofResult _ _) fun b => ?_) hkept
    refine always_bind (ends_applyProposals hM operation b expected) fun adds => ?_
    refine always_get_bind fun v => ?_
    split
    · refine always_bind hclear fun _ => always_bind hforget fun _ => ?_
      refine always_bind (always_modify fun w hw => ?_) fun _ => always_pure _
      exact ⟨hw.1, (expects_settled w.status).trans hw.2, hw.3, hw.4⟩
    · have hcommit := ends_commitProposals (x := x) hM (hs.some_state hg) adds
      split
      · exact always_bind hclear fun _ => always_bind hforget fun _ => hcommit
      · exact hcommit

/-! ### The group is taken -/

/-- With a storage that does not fail, only the group goes. -/
lemma ends_deleteGroup (hM : Lawful M) {wrap : M.Error → ε} {P Q : Session M → Prop}
    (h : ∀ s provider, P s → Q { s with group := none, provider }) :
    Ends P (deleteGroup wrap) (fun _ => Q) E := by
  refine ends_get_bind fun s hs => ?_
  rcases hg : s.group with _ | g
  · have heq : { s with group := none, provider := s.provider } = s := by rw [← hg]
    exact ends_pure fun w hw => hw ▸ heq ▸ h s s.provider hs
  · refine ends_bind (Q := fun _ => (· = { s with group := none })) (ends_set fun _ _ => rfl)
      fun _ => ?_
    refine ends_onProvider (fun w a provider hw _ => ?_) fun w e provider _ hdelete => ?_
    · rw [hw]
      exact h s provider hs
    · have := hM.delete g.group w.provider
      rw [hdelete] at this
      cases this

lemma ends_reset (hM : Lawful M) (now : ℕ) :
    Ends (Held x o) (reset (M := M) now) (fun _ => Held x none) (Held x none) := by
  refine ends_bind (ends_deleteGroup hM (Q := fun s => s.externalSender = x ∧ s.group = none)
    fun s _ hs => ⟨hs.externalSender, rfl⟩) fun _ => ?_
  refine ends_get_bind fun s hs => ?_
  rcases hclear : M.clearStorage s.provider with ⟨ok, provider⟩
  obtain rfl : ok = true := by simpa [hclear] using hM.clearStorage s.provider
  refine ends_bind (Q := fun _ s => s.externalSender = x ∧ s.group = none)
    (ends_set fun _ _ => hs) fun _ => ?_
  refine ends_bind (Q := fun _ => Held x none) (ends_modify fun w hw => ?_) fun _ => ?_
  · exact ⟨hw.1, rfl, congrArg _ hw.2, fun g hg => by simp [hw.2] at hg⟩
  · refine ends_bind (Q := fun _ => Held x none)
      (ends_modify fun w hw => ⟨hw.1, hw.2, hw.3, hw.4⟩) fun _ => ?_
    exact ends_modify fun w hw => ⟨hw.1, hw.2, hw.3, hw.4⟩

/-- A group of one's own is within the policy. -/
lemma ends_createPendingGroup (hM : Lawful M) :
    Ends (fun s => s.externalSender = some e) (createPendingGroup (M := M))
      (fun _ => Held (some e) (some .pending)) E := by
  refine ends_get_bind fun s hs => ?_
  rw [hs]
  obtain ⟨g, p, userId, hnew, hmembers, hcontext⟩ :=
    hM.newWithGroupId e s.groupId s.provider
  have hpolicy : validateGroupPolicy g e = .ok () := by
    rw [validateGroupPolicy_eq_ok, hmembers, hcontext]
    refine ⟨rfl, by simp [validateGroupContextExtensions, externalSenders], ?_, by simp⟩
    simp [credentialUserId, u64Be, u32Be]
  refine ends_bind (Q := fun a w => a = g ∧ w.externalSender = some e)
    (ends_onProvider (fun w a provider hw heq => ?_) fun w error provider hw heq => ?_) fun a => ?_
  · subst hw
    rw [hnew] at heq
    cases heq
    exact ⟨rfl, hs⟩
  · subst hw
    rw [hnew] at heq
    cases heq
  · refine ends_modify fun w hw => ⟨hw.2, rfl, rfl, fun _ hsome => ?_⟩
    cases hsome
    exact ⟨e, rfl, hw.1 ▸ hpolicy⟩

lemma Held.hasEstablishedGroup (h : Held x o s) :
    s.hasEstablishedGroup = true ↔ o = some .established := by
  rw [← h.group]
  rcases hg : s.group with _ | g <;>
    simp [Session.hasEstablishedGroup, hg, SessionGroup.isEstablished]

lemma ends_setExternalSender_established (bytes : Bytes) :
    Ends (Held x (some .established)) (setExternalSender (M := M) bytes)
      (fun _ => Held x (some .established)) (Held x (some .established)) := by
  refine ends_get_bind fun s hs => ?_
  rw [if_pos (hs.hasEstablishedGroup.mpr rfl)]
  exact ends_throw fun w hw => hw ▸ hs

lemma ends_setExternalSender_decoded (hM : Lawful M) {bytes : Bytes} (ho : o ≠ some .established)
    (hdecode : M.deserializeExternalSender bytes = .ok e) :
    Ends (Held x o) (setExternalSender (M := M) bytes)
      (fun _ => Held (some e) (some .pending)) E := by
  refine ends_get_bind fun s hs => ?_
  rw [if_neg fun h => ho (hs.hasEstablishedGroup.mp h), hdecode]
  refine ends_bind (ends_deleteGroup hM (Q := fun _ => True) fun _ _ _ => trivial) fun _ => ?_
  refine ends_bind (ends_pure (Q := fun a _ => a = e) fun _ _ => rfl) fun a => ?_
  refine ends_bind (Q := fun _ s => s.externalSender = some e)
    (ends_modify fun w hw => congrArg some hw) fun _ => ?_
  refine ends_bind (Q := fun _ s => s.externalSender = some e) (ends_modify fun w hw => hw)
    fun _ => ?_
  exact ends_adapt (ends_createPendingGroup hM)

/-- The pending group has gone by the time the bytes are read. -/
lemma ends_setExternalSender_undecoded (hM : Lawful M) {bytes : Bytes} {error : M.Error}
    (ho : o ≠ some .established) (hdecode : M.deserializeExternalSender bytes = .error error) :
    Ends (Held x o) (setExternalSender (M := M) bytes) (fun _ _ => False)
      (fun s => s.externalSender = x ∧ expects s.status = o ∧ s.group = none) := by
  refine ends_get_bind fun s hs => ?_
  rw [if_neg fun h => ho (hs.hasEstablishedGroup.mp h), hdecode]
  refine ends_bind (ends_deleteGroup hM (Q := fun s =>
    s.externalSender = x ∧ expects s.status = o ∧ s.group = none) fun w _ hw => ?_) fun _ => ?_
  · rw [hw]
    exact ⟨hs.externalSender, hs.status, rfl⟩
  · refine ends_bind (Q := fun _ _ => False) (ends_throw fun _ h => h) fun _ => ?_
    exact fun _ h => h.elim

/-! ### The group is established -/

/-- The group is established and within the policy. -/
def Ready (e : ExternalSender) (s : Session M) : Prop :=
  s.externalSender = some e ∧
    ∃ group, s.group = some ⟨group, .established⟩ ∧ validateGroupPolicy group e = .ok ()

lemma ends_activateEstablishedGroup (e : ExternalSender) (now : ℕ) :
    Ends (Ready e) (activateEstablishedGroup (M := M) now)
      (fun _ => Held (some e) (some .established)) (Held (some e) (some .established)) := by
  refine ends_bind (Q := fun _ => Held (some e) (some .established)) (ends_modify fun s hs => ?_)
    fun _ => ?_
  · obtain ⟨hx, group, hg, hpolicy⟩ := hs
    refine ⟨hx, rfl, congrArg _ hg, fun g hg' => ⟨e, rfl, ?_⟩⟩
    cases hg.symm.trans hg'
    exact hpolicy
  · exact ends_updateReceiveRatchetsAndStageSender (fun s _ _ _ hs _ => ⟨hs.1, hs.2, hs.3, hs.4⟩)
      (fun s _ hs => ⟨hs.1, hs.2, hs.3, hs.4⟩) fun s _ hs => ⟨hs.1, hs.2, hs.3, hs.4⟩

/-- A welcome that fails before its group is in leaves the old one, one that fails later leaves
the new one, with the status of it. -/
lemma ends_processWelcome (hM : Lawful M) (welcome : Bytes) (now : ℕ) :
    Ends (Held x o) (processWelcome (M := M) welcome now)
      (fun _ => Held x (some .established))
      (fun s => Held x o s ∨ Held x (some .established) s) := by
  refine ends_get_bind fun s hs => ?_
  have hkept : ∀ w, w = s → Held x o w ∨ Held x (some .established) w := fun w hw => .inl (hw ▸ hs)
  split
  · exact ends_throw hkept
  · rcases hx : s.externalSender with _ | e
    · exact ends_throw hkept
    · obtain rfl : x = some e := hs.externalSender.symm.trans hx
      refine Ends.mono_pre (P := Held (some e) o) ?_ fun w hw => hw ▸ hs
      refine ends_bind (always_ofResult _ _).or_left fun welcome => ?_
      refine ends_bind ends_onProvider_held.or_left fun staged => ?_
      refine ends_bind (always_ofResult _ _).or_left fun _ => ?_
      refine ends_bind (always_ofResult _ _).or_left fun _ => ?_
      refine ends_bind ends_onProvider_held.or_left fun group => ?_
      refine ends_bind (ends_ofResult _ _ fun _ => .inl) fun _ => ?_
      refine ends_bind (ends_deleteGroup hM (Q := fun s => s.externalSender = some e ∧
        validateGroupPolicy group e = .ok ()) fun w _ hw => ⟨hw.1.externalSender, hw.2⟩) fun _ => ?_
      refine ends_bind (Q := fun _ => Ready e)
        (ends_modify fun w hw => ⟨hw.1, group, rfl, hw.2⟩) fun _ => ?_
      refine ends_bind (Q := fun _ => Ready e) (ends_modify fun w hw => hw) fun _ => ?_
      exact ends_adapt (ends_activateEstablishedGroup e now).or_right

/-- What OpenMLS has made of a commit, in the state it is merged in. -/
def Staged (result : Except (ProcessMessageError M.Error) ProcessedMessage) (s : Session M) :
    Prop :=
  ∀ g sender staged, s.group = some g → result = .ok ⟨sender, .stagedCommitMessage staged⟩ →
    ∀ r w, M.mergeStagedCommit staged (g.group, s.provider) = (r, w) →
      (r = .ok () → Merges g.group sender staged w.1) ∧ (r ≠ .ok () → SameGroup g.group w.1)

lemma Held.policy_some (h : Held (some e) o s) (hg : s.group = some g) :
    validateGroupPolicy g.group e = .ok () := by
  obtain ⟨e', he, hpolicy⟩ := h.policy g hg
  cases he
  exact hpolicy

/-- A merge that fails leaves the group as it was, and one that does not leaves a group within the
policy. -/
lemma ends_onGroup_merge {e : ExternalSender} {g : SessionGroup M.Secrets} {none : ε}
    {wrap : δ → ε}
    {f : MlsGroup M.Secrets × M.Provider → Except δ Unit × MlsGroup M.Secrets × M.Provider}
    (hs : Held (some e) o s) (hg : s.group = some g)
    (hf : ∀ r w, f (g.group, s.provider) = (r, w) →
      (r = .ok () → validateGroupPolicy w.1 e = .ok ()) ∧ (r ≠ .ok () → SameGroup g.group w.1)) :
    Ends (· = s) (onGroup none wrap f) (fun _ => Held (some e) o) (Held (some e) o) := by
  refine ends_onGroup (fun w hw _ => hw ▸ hs) (fun w g' _ group provider hw hg' hmerge => ?_)
    fun w g' error group provider hw hg' hmerge => ?_
  · subst hw
    cases hg.symm.trans hg'
    exact hs.setGroup hg rfl ((hf _ _ hmerge).1 rfl)
  · subst hw
    cases hg.symm.trans hg'
    exact hs.sameGroup hg ((hf _ _ hmerge).2 fun h => nomatch h)

/-- A commit that is merged keeps the group within the policy, since it has been checked. -/
lemma ends_mergeCommit (hM : Lawful M) (pendingCommitMatches : Bool)
    (result : Except (ProcessMessageError M.Error) ProcessedMessage) :
    Ends (fun s => Held (some e) o s ∧ Staged result s)
      (mergeCommit e pendingCommitMatches result) (fun _ => Held (some e) o)
      (Held (some e) o) := by
  refine ends_get_bind fun s hs => ?_
  obtain ⟨hs, hstaged⟩ := hs
  have hkept : ∀ w, w = s → Held (some e) o w := fun w hw => hw ▸ hs
  rcases hg : s.group with _ | g
  · exact ends_throw hkept
  · rcases result with (_ | error) | ⟨sender, _ | staged | _⟩
    · -- the own commit
      dsimp only
      split
      · exact ends_throw hkept
      · refine ends_bind (Q := fun _ w => w = s ∧ ∀ staged, g.group.pendingCommit = some staged →
          validateStagedCommit g.group.members e (.member g.group.ownLeafIndex) staged = .ok ())
          ?_ fun _ => ?_
        · rcases hpending : g.group.pendingCommit with _ | staged
          · exact ends_pure fun w hw => ⟨hw, fun _ h => nomatch h⟩
          · refine (ends_ofResult _ _ hkept).mono (fun _ h => h) (fun _ w hw => ⟨hw.1, ?_⟩)
              fun _ h => h
            intro _ h
            cases h
            exact hw.2
        · refine ends_and_pure fun hvalid => ends_onGroup_merge hs hg fun r w hmerge => ?_
          refine ⟨?_, hM.mergePendingCommit_fails _ _ _ hmerge⟩
          rintro rfl
          rcases hpending : g.group.pendingCommit with _ | staged
          · exact (hM.mergeNothing _ _ hpending hmerge).validateGroupPolicy (hs.policy_some hg)
          · exact (hM.mergePendingCommit _ _ staged hpending hmerge).validateGroupPolicy
              (hvalid staged hpending)
    · exact ends_throw hkept
    · exact ends_throw hkept
    · -- a commit of another member
      refine ends_bind (ends_ofResult _ _ hkept) fun _ => ?_
      refine ends_and_pure fun hvalid => ends_onGroup_merge hs hg fun r w hmerge => ?_
      have hlaw := hstaged g sender staged hg rfl r w hmerge
      exact ⟨fun hr => (hlaw.1 hr).validateGroupPolicy hvalid, hlaw.2⟩
    · exact ends_throw hkept

/-- A group within the policy passes the last check. -/
lemma ends_checkMerged (e : ExternalSender) (now : ℕ) :
    Ends (Ready e) (do
        let s ← get
        s.group.forM fun g => ofResult .groupPolicy (validateGroupPolicy g.group e)
        adapt .updateRatchets (activateEstablishedGroup now) :
      SessionM M (ProcessCommitError M.Error) Unit)
      (fun _ => Held (some e) (some .established)) (Held (some e) (some .established)) := by
  refine ends_get_bind fun s hs => ?_
  obtain ⟨hx, group, hg, hpolicy⟩ := hs
  rw [hg]
  refine ends_bind (Q := fun _ => Ready e) ?_
    fun _ => ends_adapt (ends_activateEstablishedGroup e now)
  change Ends _ (ofResult _ (validateGroupPolicy group e)) _ _
  rw [hpolicy]
  refine ends_pure fun w hw => ?_
  rw [hw]
  exact ⟨hx, group, hg, hpolicy⟩

lemma Held.ready (h : Held (some e) (some .established) s) : Ready e s := by
  obtain ⟨g, hg, hstate⟩ := Option.map_eq_some_iff.mp h.group
  refine ⟨h.externalSender, g.group, ?_, h.policy_some hg⟩
  rw [hg, ← hstate]

lemma Held.ready_establish {state : SessionGroupState} (h : Held (some e) (some state) s) :
    Ready e { s with group := s.group.map SessionGroup.establish } := by
  obtain ⟨g, hg, -⟩ := Option.map_eq_some_iff.mp h.group
  refine ⟨h.externalSender, g.group, ?_, h.policy_some hg⟩
  rw [hg]
  rfl

/-- OpenMLS takes a message without a change to the group. -/
lemma ends_processMessage (hM : Lawful M) (message : M.ProtocolMessage) {none : ε}
    {wrap : Empty → ε} :
    Ends (Held x o)
      (onGroup none wrap fun w =>
        let (result, w) := M.processMessage message w
        (.ok result, w))
      (fun result w => Held x o w ∧ Staged result w) (Held x o) := by
  refine ends_onGroup (fun _ hw _ => hw) (fun w g result group provider hw hg hp => ?_)
    fun w g error _ _ _ _ _ => error.elim
  rcases hmessage : M.processMessage message (g.group, w.provider) with ⟨r, w'⟩
  have hsame := hM.processMessage message (g.group, w.provider)
  change (Except.ok (M.processMessage message (g.group, w.provider)).1,
    (M.processMessage message (g.group, w.provider)).2) = _ at hp
  rw [hmessage] at hsame hp
  cases hp
  refine ⟨hw.sameGroup hg hsame, fun h sender staged hh hresult => ?_⟩
  cases hh
  obtain rfl : r = _ := hresult
  refine fun r w hmerge => ⟨?_, hM.mergeStagedCommit_fails _ _ _ _ _ _ _ hmessage hmerge⟩
  rintro rfl
  exact hM.mergeStagedCommit _ _ sender staged _ _ hmessage hmerge

/-- The group that is checked after the merge is within the policy already, so that no failure
comes between the merge and the new status. -/
lemma ends_processCommit (hM : Lawful M) (commit : Bytes) (now : ℕ) :
    Ends (Held x o) (processCommit (M := M) commit now)
      (fun _ => Held x (some .established))
      (fun s => Held x o s ∨ Held x (some .established) s) := by
  refine ends_get_bind fun s hs => ?_
  have hkept : ∀ w, w = s → Held x o w ∨ Held x (some .established) w := fun w hw => .inl (hw ▸ hs)
  rcases hg : s.group with _ | g
  · exact ends_throw hkept
  rcases hx : s.externalSender with _ | e
  · exact ends_throw hkept
  obtain rfl : x = some e := hs.externalSender.symm.trans hx
  obtain rfl : o = some g.state := hs.some_state hg
  dsimp only
  split
  · exact ends_throw hkept
  · refine Ends.mono_pre (P := Held (some e) (some g.state)) ?_ fun w hw => hw ▸ hs
    refine ends_bind (always_ofResult _ _).or_left fun message => ?_
    refine ends_bind (always_ofResult _ _).or_left fun message => ?_
    split
    · exact ends_throw fun _ => .inl
    · refine ends_bind (ends_processMessage hM message).or_left fun result => ?_
      refine ends_bind (ends_mergeCommit hM _ result).or_left fun _ => ?_
      refine ends_bind (Q := fun _ => Held (some e) (some g.state))
        (ends_modify fun w hw => ⟨hw.1, hw.2, hw.3, hw.4⟩) fun _ => ?_
      split
      · exact ends_bind (Q := fun _ => Ready e) (ends_modify fun w hw => hw.ready_establish)
          fun _ => (ends_checkMerged e now).or_right
      · rename_i hpending
        have hstate : g.state = .established := by
          rcases g with ⟨group, _ | _⟩
          · exact absurd rfl hpending
          · rfl
        rw [hstate]
        exact (ends_checkMerged e now).or_right.mono_pre fun w hw => hw.ready

/-! ### Runs -/

/-- A call, with the instant that it reads from the clock. -/
inductive Call
  | setExternalSender (bytes : Bytes)
  | processProposals (operation : ProposalsOperation) (proposals : Bytes)
      (expected : UInt64 → Bool)
  | processWelcome (welcome : Bytes) (now : ℕ)
  | processCommit (commit : Bytes) (now : ℕ)
  | activateStagedSender
  | reset (now : ℕ)

def step (s : Session M) : Call → Session M
  | .setExternalSender bytes => (exec (setExternalSender bytes) s).2
  | .processProposals operation proposals expected =>
    (exec (processProposals operation proposals expected) s).2
  | .processWelcome welcome now => (exec (processWelcome welcome now) s).2
  | .processCommit commit now => (exec (processCommit commit now) s).2
  | .activateStagedSender => (activateStagedSender s).2
  | .reset now => (exec (reset now) s).2

/-- An external sender that does not decode finds no pending group. -/
def Decodes (s : Session M) : Call → Prop
  | .setExternalSender bytes =>
    (∃ g, s.group = some g ∧ g.isPending) → ∃ e, M.deserializeExternalSender bytes = .ok e
  | _ => True

/-- Status, group and policy agree. -/
def Sound (s : Session M) : Prop := ∃ x o, Held x o s

lemma Held.hasPendingGroup (h : Held x o s) :
    (∃ g, s.group = some g ∧ g.isPending) ↔ o = some .pending := by
  rw [← h.group]
  rcases hg : s.group with _ | g <;> simp [SessionGroup.isPending]

/-- Bytes that do not decode cost a pending group, and nothing else does. -/
lemma Held.setExternalSender (hM : Lawful M) (h : Held x o s) (bytes : Bytes) :
    Decodes s (.setExternalSender bytes) ∧ Sound (step s (.setExternalSender bytes)) ∨
      ¬ Decodes s (.setExternalSender bytes) ∧ ¬ Agrees (step s (.setExternalSender bytes)) := by
  unfold Decodes
  rw [h.hasPendingGroup]
  by_cases ho : o = some .established
  · subst ho
    exact .inl ⟨fun h => (nomatch h), _, _, (ends_setExternalSender_established bytes).exec h⟩
  · rcases hdecode : M.deserializeExternalSender bytes with error | e
    · obtain ⟨hx, hstatus, hgroup⟩ := ((ends_setExternalSender_undecoded hM ho hdecode).mono
        (fun _ h => h) (fun _ _ h => h.elim) fun _ h => h).exec h
      rcases o with _ | _ | _
      · exact .inl ⟨fun h => (nomatch h), x, none, hx, hstatus, congrArg _ hgroup,
          fun g hg => (nomatch hgroup.symm.trans hg)⟩
      · refine .inr ⟨by simp [hdecode], fun hagrees => ?_⟩
        rw [agrees_iff, step, hstatus, hgroup] at hagrees
        cases hagrees
      · exact absurd rfl ho
    · exact .inl ⟨fun _ => ⟨e, hdecode⟩, _, _,
        (ends_setExternalSender_decoded hM ho hdecode).exec h⟩

/-- One call: it keeps status, group and policy together, or it loses a pending group. -/
lemma Sound.step (hM : Lawful M) (h : Sound s) (c : Call) :
    Decodes s c ∧ Sound (step s c) ∨ ¬ Decodes s c ∧ ¬ Agrees (step s c) := by
  obtain ⟨x, o, h⟩ := h
  cases c with
  | setExternalSender bytes => exact h.setExternalSender hM bytes
  | processProposals operation proposals expected =>
    exact .inl ⟨trivial, x, o, (ends_processProposals hM operation proposals expected).exec h⟩
  | processWelcome welcome now =>
    rcases ((ends_processWelcome hM welcome now).mono (fun _ h => h) (fun _ _ => .inr)
      fun _ h => h).exec h with h | h
    · exact .inl ⟨trivial, x, o, h⟩
    · exact .inl ⟨trivial, x, _, h⟩
  | processCommit commit now =>
    rcases ((ends_processCommit hM commit now).mono (fun _ h => h) (fun _ _ => .inr)
      fun _ h => h).exec h with h | h
    · exact .inl ⟨trivial, x, o, h⟩
    · exact .inl ⟨trivial, x, _, h⟩
  | activateStagedSender => exact .inl ⟨trivial, x, o, h.1, h.2, h.3, h.4⟩
  | reset now => exact .inl ⟨trivial, x, none, (ends_reset hM now).exec h⟩

lemma sound_new (userId channelId : UInt64) (provider : M.Provider) (now : ℕ) :
    Sound (Session.new userId channelId provider now) :=
  ⟨none, none, rfl, rfl, rfl, fun _ h => nomatch h⟩

/-- Status and group agree in every state of a run if and only if no external sender that does
not decode is set while a group is pending. -/
theorem agrees_run_iff (hM : Lawful M) (userId channelId : UInt64) (provider : M.Provider)
    (now : ℕ) (calls : List Call) :
    (∀ pre, pre <+: calls → Agrees (run step (Session.new userId channelId provider now) pre)) ↔
      Along step Decodes (Session.new userId channelId provider now) calls := by
  refine always_iff_along_of_inv (I := Sound) (fun s ⟨_, _, hs⟩ => hs.agrees)
    (fun s c hs hc => ?_) (fun s c hs hc => ?_) calls (sound_new userId channelId provider now)
  · rcases hs.step hM c with ⟨-, hsound⟩ | ⟨hlost, -⟩
    · exact hsound
    · exact absurd hc hlost
  · rcases hs.step hM c with ⟨hdecodes, -⟩ | ⟨-, hdisagrees⟩
    · exact hdecodes
    · exact absurd hc hdisagrees

/-- A group is made and a user added to it by a commit of one's own. -/
def firstCommit : List Call :=
  [.setExternalSender [7], .processProposals .append [2] fun _ => true, .processCommit [0] 5]

theorem agrees_firstCommit :
    Agrees (run step (Session.new 1 0 () 0 : Session plainMls) firstCommit) :=
  (agrees_run_iff lawful_plainMls 1 0 () 0 firstCommit).mpr
    ⟨fun _ => ⟨_, rfl⟩, trivial, trivial, trivial⟩ firstCommit (List.prefix_refl _)

/-- Empty bytes in place of a second external sender: the pending group is gone, and the session
still reports `Pending`. -/
theorem pending_without_group :
    (run step (Session.new 1 0 () 0 : Session plainMls)
      [.setExternalSender [7], .setExternalSender []]).status = .pending ∧
    (run step (Session.new 1 0 () 0 : Session plainMls)
      [.setExternalSender [7], .setExternalSender []]).group.isNone = true ∧
    ¬ Agrees (run step (Session.new 1 0 () 0 : Session plainMls)
      [.setExternalSender [7], .setExternalSender []]) := by
  refine ⟨rfl, rfl, fun h => ?_⟩
  have hinactive := h.1.mpr rfl
  cases hinactive

end Cacophony.SessionStatus
