import Cacophony.DaveSession
import Cacophony.MlsPolicy

/-!
The policy errors of `process_commit`.

A commit is checked before it is merged, against the members that it will leave; the group is
checked again once it is merged, when there is no way back. The first check predicts the second:
whatever the policy has against a commit is said before anything is merged.
-/

namespace Cacophony.CommitPolicy

open Mls Progs DaveSession

variable {M : OpenMls} {ε : Type} {g : SessionGroup M.Secrets} {now : ℕ}

/-- The error says that a commit, a group or a member is outside the policy. -/
def PolicyError : ProcessCommitError ε → Prop
  | .commitPolicy _ => True
  | .groupPolicy _ => True
  | .updateRatchets (.memberCredential _) => True
  | _ => False

/-! ### The commit in the bytes -/

/-- The group and the message that the call gives to OpenMLS. -/
def handed (s : Session M) (commit : Bytes) :
    Option (SessionGroup M.Secrets × M.ProtocolMessage) := do
  let g ← s.group
  let message ← (M.deserializeMessageExact commit).toOption
  let message ← (M.tryIntoProtocolMessage message).toOption
  return (g, message)

/-- The session as OpenMLS leaves it once it has processed the message. Nothing is merged yet. -/
def processed (s : Session M) (commit : Bytes) : Session M :=
  ((handed s commit).map fun (g, message) =>
    called s g (M.processMessage message (g.group, s.provider))).getD s

/-- The commit that a processed message asks to merge: the one in it, or the pending one if the
message is a commit of one's own. -/
def requested (group : MlsGroup M.Secrets) :
    Except (ProcessMessageError M.Error) ProcessedMessage → Option (Sender × StagedCommit)
  | .ok ⟨sender, .stagedCommitMessage staged⟩ => some (sender, staged)
  | .error .ownCommit => group.pendingCommit.map fun staged => (.member group.ownLeafIndex, staged)
  | _ => none

/-- The commit that the call gets to merge, if it gets so far. -/
def commitToMerge (s : Session M) (commit : Bytes) : Option (Sender × StagedCommit) := do
  let (g, message) ← handed s commit
  let result := M.processMessage message (g.group, s.provider)
  requested result.2.1 result.1

/-- The group of the session passes the check of the group. -/
def WithinPolicy (s : Session M) : Prop :=
  ∀ g e, s.group = some g → s.externalSender = some e → validateGroupPolicy g.group e = .ok ()

/-! ### After the merge -/

/-- What `process_commit` does once the commit is merged. -/
def afterMerge (externalSender : ExternalSender) (wasPending : Bool) (now : ℕ) :
    SessionM M (ProcessCommitError M.Error) Unit := do
  modify fun s => { s with pendingCommit := none }
  if wasPending then
    modify fun s => { s with group := s.group.map SessionGroup.establish }
  let s ← get
  s.group.forM fun g => ofResult .groupPolicy (validateGroupPolicy g.group externalSender)
  adapt .updateRatchets (activateEstablishedGroup now)

/-- Not for the credential of a member. -/
def NotCredential (e : UpdateRatchetsError ε) : Prop := ∀ error, e ≠ .memberCredential error

lemma throws_keyRatchet (s : Session M) (userId : UInt64) :
    Throws NotCredential (ofResult id (keyRatchet s userId) :
      SessionM M (UpdateRatchetsError M.Error) Ratchet.HashRatchet) := by
  have hno : NotCredential (UpdateRatchetsError.noEstablishedGroup (ε := M.Error)) := fun _ => nofun
  unfold keyRatchet
  split
  · exact throws_throw hno
  · split
    · exact throws_throw hno
    · rcases M.exportSecret _ userId with error | secret
      · exact throws_throw fun _ => nofun
      · exact throws_pure _

lemma throws_updateReceiveRatchet {member : Member} {userId : UInt64}
    (h : credentialUserId member.credential = .ok userId) (now : ℕ) (us : List UInt64) :
    Throws NotCredential (updateReceiveRatchet (M := M) now us member) := by
  refine throws_get_bind fun s => ?_
  rw [h]
  refine throws_bind (throws_pure userId) fun u => ?_
  dsimp only
  split
  · exact throws_pure _
  · exact throws_bind (throws_keyRatchet s u) fun _ =>
      throws_bind (throws_modify _) fun _ => throws_pure _

/-- Members whose credentials can be read get their ratchets without a policy error. -/
lemma notCredential_of_activate {s s' : Session M} (hg : s.group = some g)
    (hmembers : Distinct (g.group.members.map Member.credential)) {e : UpdateRatchetsError M.Error}
    (h : exec (activateEstablishedGroup now) s = (.error e, s')) : NotCredential e := by
  simp only [activateEstablishedGroup, updateReceiveRatchetsAndStageSender, exec_bind, exec_modify,
    exec_get, hg] at h
  split at h
  · cases h
    exact fun _ => nofun
  · -- the loop goes over the members that the group has at its start
    have hloop : Throws NotCredential
        (g.group.members.foldlM (updateReceiveRatchet (M := M) now) []) := by
      refine throws_foldlM (fun us m hm => ?_) []
      obtain ⟨userId, huser⟩ := hmembers.1 m.credential (List.mem_map_of_mem hm)
      exact throws_updateReceiveRatchet huser now us
    refine throws_bind hloop (fun us => ?_) _ e s' h
    exact throws_bind (throws_modify _) fun _ => throws_get_bind fun v =>
      throws_bind (throws_keyRatchet v v.userId) fun _ => throws_modify _

lemma group_activate {s s' : Session M} {r : Except (UpdateRatchetsError M.Error) Unit}
    (h : exec (activateEstablishedGroup now) s = (r, s')) : s'.group = s.group := by
  have hkeeps : Always (fun w : Session M => w.group = s.group)
      (activateEstablishedGroup (M := M) now) :=
    always_bind (always_modify fun _ hw => hw) fun _ =>
      ends_updateReceiveRatchetsAndStageSender (fun _ _ _ _ hw _ => hw) (fun _ _ hw => hw)
        fun _ _ hw => hw
  have := hkeeps.exec rfl
  rwa [h] at this

/-- The session when the merged group is checked. -/
def settled (s : Session M) (g : SessionGroup M.Secrets) (wasPending : Bool) : Session M :=
  { s with pendingCommit := none, group := some (if wasPending then g.establish else g) }

lemma exec_afterMerge {s : Session M} (hg : s.group = some g) (e : ExternalSender)
    (wasPending : Bool) (now : ℕ) :
    exec (afterMerge e wasPending now) s = exec (do
      ofResult .groupPolicy (validateGroupPolicy g.group e)
      adapt .updateRatchets (activateEstablishedGroup now)) (settled s g wasPending) := by
  cases wasPending
  · simp only [afterMerge, exec_bind, exec_modify, Bool.false_eq_true, if_false, exec_get, hg]
    rfl
  · simp only [afterMerge, exec_bind, exec_modify, if_true, exec_get, hg]
    rfl

/-- A group within the policy gives no policy error after the merge. -/
lemma not_policyError_afterMerge {s s' : Session M} (hg : s.group = some g) {e : ExternalSender}
    (hpolicy : validateGroupPolicy g.group e = .ok ()) {wasPending : Bool}
    {error : ProcessCommitError M.Error}
    (h : exec (afterMerge e wasPending now) s = (.error error, s')) : ¬ PolicyError error := by
  have hmembers := (validateGroupPolicy_eq_ok.mp hpolicy).2.2
  rw [exec_afterMerge hg, hpolicy, exec_bind] at h
  simp only [ofResult, exec_pure, exec_adapt] at h
  rcases hres : exec (activateEstablishedGroup now) (settled s g wasPending) with ⟨d | _, s₁⟩
  · rw [hres] at h
    cases h
    have hnot : NotCredential d := by
      refine notCredential_of_activate (g := if wasPending then g.establish else g) rfl ?_ hres
      cases wasPending <;> exact hmembers
    rcases d with _ | _ | error
    · exact id
    · exact id
    · exact absurd rfl (hnot error)
  · rw [hres] at h
    cases h

/-- The call succeeds only with a group within the policy. -/
lemma distinct_of_afterMerge {s s' : Session M} (hg : s.group = some g) {e : ExternalSender}
    {wasPending : Bool} (h : exec (afterMerge e wasPending now) s = (.ok (), s')) :
    ∃ g', s'.group = some g' ∧ Distinct (g'.group.members.map Member.credential) := by
  rw [exec_afterMerge hg, exec_bind] at h
  rcases hpolicy : validateGroupPolicy g.group e with error | _
  · rw [hpolicy] at h
    cases h
  · rw [hpolicy] at h
    simp only [ofResult, exec_pure, exec_adapt] at h
    rcases hres : exec (activateEstablishedGroup now) (settled s g wasPending) with ⟨_ | _, s₁⟩
    · rw [hres] at h
      cases h
    · rw [hres] at h
      cases h
      refine ⟨_, group_activate hres, ?_⟩
      have hmembers := (validateGroupPolicy_eq_ok.mp hpolicy).2.2
      cases wasPending <;> exact hmembers

/-! ### The merge -/

/-- How the merge ends: it is refused before anything is merged, OpenMLS fails, or the group that
comes out is within the policy. With no commit to merge, that rests on the group before. -/
inductive MergeEnds (e : ExternalSender) (s : Session M) (g : SessionGroup M.Secrets)
    (commit : Option (Sender × StagedCommit)) :
    Except (ProcessCommitError M.Error) Unit × Session M → Prop
  | refused (error : ProcessCommitError M.Error) : MergeEnds e s g commit (.error error, s)
  | failed {error : ProcessCommitError M.Error} {s' : Session M} (herror : ¬ PolicyError error) :
      MergeEnds e s g commit (.error error, s')
  | merged {w : MlsGroup M.Secrets × M.Provider}
      (h : commit.isSome ∨ validateGroupPolicy g.group e = .ok () →
        validateGroupPolicy w.1 e = .ok ()) :
      MergeEnds e s g commit (.ok (), called s g ((), w))

variable {s : Session M} {g : SessionGroup M.Secrets} {e : ExternalSender}

lemma mergeEnds_own (hM : Merging M) (hg : s.group = some g) (pendingCommitMatches : Bool) :
    MergeEnds e s g (requested g.group (.error .ownCommit))
      (exec (mergeCommit e pendingCommitMatches (.error .ownCommit)) s) := by
  rw [mergeCommit, exec_bind, exec_get]
  simp only [hg]
  split
  · exact .refused _
  rw [exec_bind]
  rcases hpending : g.group.pendingCommit with _ | staged
  · -- nothing is pending: the group stays, and so does what the policy says of it
    rw [Option.forM, exec_pure]
    dsimp only
    rw [exec_onGroup hg]
    rcases hmerge : M.mergePendingCommit (g.group, s.provider) with ⟨error | _, w⟩
    · exact .failed id
    · refine .merged fun h => ?_
      have hsame := hM.mergeNothing _ _ hpending hmerge
      exact hsame.validateGroupPolicy (h.resolve_left (by simp [requested, hpending]))
  · rw [Option.forM]
    rcases hvalid : validateStagedCommit g.group.members e (.member g.group.ownLeafIndex) staged
      with error | _
    · exact .refused _
    · rw [ofResult, exec_pure]
      dsimp only
      rw [exec_onGroup hg]
      rcases hmerge : M.mergePendingCommit (g.group, s.provider) with ⟨error | _, w⟩
      · exact .failed id
      · have hmerged := hM.mergePendingCommit _ _ staged hpending hmerge
        exact .merged fun _ => hmerged.validateGroupPolicy hvalid

lemma mergeEnds_mergeCommit (hM : Merging M) (hg : s.group = some g)
    {message : M.ProtocolMessage} {w : MlsGroup M.Secrets × M.Provider}
    {result : Except (ProcessMessageError M.Error) ProcessedMessage}
    (hmessage : M.processMessage message w = (result, g.group, s.provider))
    (pendingCommitMatches : Bool) :
    MergeEnds e s g (requested g.group result)
      (exec (mergeCommit e pendingCommitMatches result) s) := by
  rcases result with (_ | error) | ⟨sender, content⟩
  · exact mergeEnds_own hM hg pendingCommitMatches
  · rw [mergeCommit, exec_bind, exec_get]
    simp only [hg]
    exact .refused _
  · rw [mergeCommit, exec_bind, exec_get]
    simp only [hg]
    rcases content with _ | staged | _
    · exact .refused _
    · -- a commit of another member
      dsimp only
      rcases hvalid : validateStagedCommit g.group.members e sender staged with error | _
      · exact .refused _
      · rw [ofResult, exec_bind, exec_pure]
        dsimp only
        rw [exec_onGroup hg]
        rcases hmerge : M.mergeStagedCommit staged (g.group, s.provider) with ⟨error | _, w⟩
        · exact .failed id
        · have hmerged := hM.mergeStagedCommit _ _ sender staged _ _ hmessage hmerge
          exact .merged fun _ => hmerged.validateGroupPolicy hvalid
    · exact .refused _

/-! ### The whole call -/

/-- The call fails for another reason before it has processed anything, or comes to the merge. -/
lemma processCommit_cases (s : Session M) (commit : Bytes) (now : ℕ) :
    (∃ error, exec (processCommit commit now) s = (.error error, s) ∧ ¬ PolicyError error) ∨
    ∃ g e message, s.group = some g ∧ s.externalSender = some e ∧
      handed s commit = some (g, message) ∧
      exec (processCommit commit now) s = exec (do
        mergeCommit e (s.pendingCommit = some commit)
          (M.processMessage message (g.group, s.provider)).1
        afterMerge e g.isPending now)
        (called s g (M.processMessage message (g.group, s.provider))) := by
  rw [processCommit, exec_bind, exec_get]
  dsimp only
  rcases hg : s.group with _ | g
  · exact .inl ⟨.noGroup, rfl, id⟩
  rcases hx : s.externalSender with _ | e
  · exact .inl ⟨.noExternalSender, rfl, id⟩
  dsimp only
  split
  · exact .inl ⟨.pendingGroup, rfl, id⟩
  rcases hdecode : M.deserializeMessageExact commit with error | m
  · exact .inl ⟨.deserializeCommit error, rfl, id⟩
  rcases hinto : M.tryIntoProtocolMessage m with error | message
  · refine .inl ⟨.messageNotPublicOrPrivate error, ?_, id⟩
    rw [ofResult, exec_bind, exec_pure]
    dsimp only
    rw [hinto]
    rfl
  rw [ofResult, exec_bind, exec_pure]
  dsimp only
  rw [hinto, ofResult, exec_bind, exec_pure]
  dsimp only
  split
  · exact .inl ⟨.wrongGroup, rfl, id⟩
  refine .inr ⟨g, e, message, rfl, rfl, ?_, ?_⟩
  · simp [handed, hg, hdecode, hinto, Except.toOption]
  · rw [exec_bind, exec_onGroup hg]
    rfl

/-- How the call ends: for another reason, with nothing merged, or as the check of a group that
passes it. -/
lemma processCommit_ends (hM : Merging M) (s : Session M) (commit : Bytes) (now : ℕ) :
    (∃ error s', exec (processCommit commit now) s = (.error error, s') ∧ ¬ PolicyError error) ∨
    (∃ error, exec (processCommit commit now) s = (.error error, processed s commit)) ∨
    ∃ s₁ g₁ e wasPending, s₁.group = some g₁ ∧
      ((commitToMerge s commit).isSome ∨ WithinPolicy s →
        validateGroupPolicy g₁.group e = .ok ()) ∧
      exec (processCommit commit now) s = exec (afterMerge e wasPending now) s₁ := by
  obtain ⟨error, hcall, hnot⟩ | ⟨g, e, message, hg, he, hhanded, hcall⟩ :=
    processCommit_cases s commit now
  · exact .inl ⟨error, s, hcall, hnot⟩
  set call := M.processMessage message (g.group, s.provider) with hmessage
  have hends := mergeEnds_mergeCommit (e := e) hM (s := called s g call) rfl hmessage.symm
    (s.pendingCommit = some commit)
  rw [hcall, exec_bind]
  generalize exec (mergeCommit e (s.pendingCommit = some commit)
    (M.processMessage message (g.group, s.provider)).1) _ = ended at hends ⊢
  cases hends with
  | refused error =>
    refine .inr (.inl ⟨error, ?_⟩)
    rw [processed, hhanded, Option.map_some, Option.getD_some]
  | @failed error s' herror => exact .inl ⟨error, s', rfl, herror⟩
  | merged hmerged =>
    refine .inr (.inr ⟨_, _, e, _, rfl, fun hs => hmerged ?_, rfl⟩)
    rcases hs with hs | hs
    · exact .inl (by simpa [commitToMerge, hhanded] using hs)
    · exact .inr ((hM.processMessage _ _).validateGroupPolicy (hs g e hg he))

/-- **Commits and the policy.** A commit that passes the check leaves a group within the policy.
So a policy error of `process_commit` leaves the session as it was before any merge, and a success
leaves members with distinct user ids. -/
theorem processCommit_policy (hM : Merging M) :
    (∀ (before after : MlsGroup M.Secrets) externalSender sender staged,
      Merges before sender staged after →
      validateStagedCommit before.members externalSender sender staged = .ok () →
      validateGroupPolicy after externalSender = .ok ()) ∧
    (∀ (s s' : Session M) commit now error, (commitToMerge s commit).isSome ∨ WithinPolicy s →
      exec (processCommit commit now) s = (.error error, s') → PolicyError error →
      s' = processed s commit) ∧
    ∀ (s s' : Session M) commit now, exec (processCommit commit now) s = (.ok (), s') →
      ∃ g, s'.group = some g ∧ Distinct (g.group.members.map Member.credential) := by
  refine ⟨fun _ _ _ _ _ hmerges => hmerges.validateGroupPolicy, ?_, ?_⟩
  · intro s s' commit now error hs h hpolicy
    obtain ⟨error', s'', hcall, hnot⟩ | ⟨error', hcall⟩ | ⟨s₁, g₁, e, _, hg, hchecked, hcall⟩ :=
      processCommit_ends hM s commit now
    · rw [hcall] at h
      cases h
      exact absurd hpolicy hnot
    · rw [hcall] at h
      cases h
      rfl
    · rw [hcall] at h
      exact absurd hpolicy (not_policyError_afterMerge hg (hchecked hs) h)
  · intro s s' commit now h
    obtain ⟨error, s'', hcall, -⟩ | ⟨error, hcall⟩ | ⟨s₁, g₁, e, _, hg, -, hcall⟩ :=
      processCommit_ends hM s commit now
    · rw [hcall] at h
      cases h
    · rw [hcall] at h
      cases h
    · rw [hcall] at h
      exact distinct_of_afterMerge hg h

/-- The commit of the first member to add these users, still to be answered. -/
def adding (users : List UInt8) : Session plainMls :=
  let gateway : ExternalSender := ⟨[7], ⟨credentialBasic, []⟩⟩
  let context : GroupContext := ⟨mls10, supportedCiphersuite, [.externalSenders [gateway]]⟩
  let add (user : UInt8) : QueuedProposal :=
    ⟨.add ⟨⟨credentialBasic, u64Be user.toNat⟩, [], supportedCapabilities⟩, .external 0, [user],
      true⟩
  { Session.new 1 0 () 0 with
    externalSender := some gateway
    group := some
      { group :=
          { members := [⟨0, ⟨credentialBasic, u64Be 1⟩⟩], context, ownLeafIndex := 0
            pendingProposals := [], pendingCommit := some ⟨users.map add, none, context⟩
            secrets := () }
        state := .pending }
    status := .awaitingInitialResponse, pendingCommit := some [0] }

/-- The commit that adds one user twice is refused, and not merged; the one that adds it once is
merged. -/
theorem policy_of_adding :
    Merging plainMls ∧
    (∃ error, (exec (processCommit [0] 5) (adding [2, 2])).1 = .error error ∧
      PolicyError error) ∧
    (exec (processCommit [0] 5) (adding [2, 2])).2 = processed (adding [2, 2]) [0] ∧
    (exec (processCommit [0] 5) (adding [2])).1 = .ok () ∧
    ∃ g, (exec (processCommit [0] 5) (adding [2])).2.group = some g ∧
      Distinct (g.group.members.map Member.credential) := by
  have hM : Merging plainMls := lawful_plainMls.toMerging
  obtain ⟨-, hrefused, hmerged⟩ := processCommit_policy hM
  have htwice : (exec (processCommit [0] 5) (adding [2, 2])).1 =
      .error (.commitPolicy (.groupPolicy (.duplicateMemberCredential 2))) := rfl
  have honce : (exec (processCommit [0] 5) (adding [2])).1 = .ok () := rfl
  have herror : PolicyError (ε := plainMls.Error)
    (.commitPolicy (.groupPolicy (.duplicateMemberCredential 2))) := trivial
  exact ⟨hM, ⟨_, htwice, herror⟩,
    hrefused _ _ [0] 5 _ (.inl rfl) (Prod.ext htwice rfl) herror, honce,
    hmerged _ _ [0] 5 (Prod.ext honce rfl)⟩

end Cacophony.CommitPolicy
