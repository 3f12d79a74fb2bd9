import Cacophony.Mls
import Cacophony.Progs
import Mathlib.Data.List.Nodup

/-!
A commit that passes the checks of `session.rs` leaves a group that passes them.

The checks read the group before the commit and the commit itself. `Lawful` states what OpenMLS
does with a group, as far as the checks can see it: which members a merge leaves, and that
nothing else changes the members or the context.
-/

namespace Cacophony.Mls

open Progs

/-! ### Members -/

/-- The credential that the commit leaves with a member it does not remove. -/
def resultingCredential (sender : Sender) (staged : StagedCommit) (m : Member) : Credential :=
  match staged.updatePathLeafNode with
  | some leafNode => if sender = .member m.index then leafNode.credential else m.credential
  | none => m.credential

/-- Who joins by the commit itself. -/
def joining (sender : Sender) (staged : StagedCommit) : List LeafNode :=
  if sender = .newMemberCommit then staged.updatePathLeafNode.toList else []

/-- The credentials of the members after the commit. -/
def resultingCredentials (members : List Member) (sender : Sender) (staged : StagedCommit) :
    List Credential :=
  (members.filter fun m => m.index ∉ staged.removeProposals).map (resultingCredential sender staged)
    ++ (staged.addProposals ++ joining sender staged).map LeafNode.credential

/-- All the credentials name a user, and no two the same. -/
def Distinct (cs : List Credential) : Prop :=
  (∀ c ∈ cs, ∃ userId, credentialUserId c = .ok userId) ∧ (cs.map credentialUserId).Nodup

variable {cs : List Credential} {members : List Member} {sender : Sender} {staged : StagedCommit}
  {externalSender : ExternalSender}

lemma Distinct.perm {ds : List Credential} (h : Distinct cs) (hp : ds.Perm cs) : Distinct ds :=
  ⟨fun c hc => h.1 c (hp.mem_iff.mp hc), (hp.map credentialUserId).nodup_iff.mpr h.2⟩

lemma distinct_of_map_eq (userIds : List UInt64)
    (h : cs.map credentialUserId = userIds.map .ok) (hnodup : userIds.Nodup) : Distinct cs := by
  refine ⟨fun c hc => ?_, ?_⟩
  · have hmem := List.mem_map_of_mem (f := credentialUserId) hc
    rw [h] at hmem
    obtain ⟨userId, -, heq⟩ := List.mem_map.mp hmem
    exact ⟨userId, heq.symm⟩
  · rw [h]
    exact List.Nodup.map (fun _ _ => Except.ok.inj) hnodup

lemma memberPolicyFrom_eq_ok (seen : List UInt64) :
    memberPolicyFrom seen cs = .ok () ↔
      Distinct cs ∧ ∀ userId ∈ seen, .ok userId ∉ cs.map credentialUserId := by
  induction cs generalizing seen with
  | nil => simp [memberPolicyFrom, Distinct]
  | cons c cs ih =>
    rcases hc : credentialUserId c with e | userId
    · simp [memberPolicyFrom, hc, Distinct, Except.mapError, bind, Except.bind]
    · by_cases hseen : userId ∈ seen
      · simp only [memberPolicyFrom, hc, Except.mapError, bind, Except.bind, hseen, if_true]
        refine iff_of_false (fun h => by cases h) fun h => ?_
        exact h.2 userId hseen (by simp [hc])
      · simp only [memberPolicyFrom, hc, Except.mapError, bind, Except.bind, hseen, if_false]
        refine (ih (userId :: seen)).trans ?_
        simp only [Distinct, List.mem_cons, List.map_cons, List.nodup_cons, hc]
        grind

lemma validateGroupMemberPolicy_eq_ok :
    validateGroupMemberPolicy members = .ok () ↔ Distinct (members.map Member.credential) := by
  simp [validateGroupMemberPolicy, memberPolicyFrom_eq_ok]

lemma nodup_of_distinctFrom {seen userIds : List UInt64} (h : distinctFrom seen userIds = .ok ()) :
    userIds.Nodup ∧ ∀ userId ∈ userIds, userId ∉ seen := by
  induction userIds generalizing seen with
  | nil => simp
  | cons userId userIds ih =>
    by_cases hseen : userId ∈ seen
    · simp [distinctFrom, hseen] at h
    · rw [distinctFrom, if_neg hseen] at h
      obtain ⟨hnodup, hnew⟩ := ih h
      refine ⟨List.nodup_cons.mpr ⟨fun hmem => ?_, hnodup⟩, fun v hv => ?_⟩
      · exact hnew userId hmem (List.mem_cons_self)
      · rcases List.mem_cons.mp hv with rfl | hv
        · exact hseen
        · exact fun hmem => hnew v hv (List.mem_cons_of_mem _ hmem)

lemma memberUserId_eq_ok {c : Credential} {userId : UInt64} :
    memberUserId c = .ok userId ↔ credentialUserId c = .ok userId :=
  mapError_ok_iff _ _ _

/-- The check reads the user id of the credential that the commit leaves with a member. -/
lemma credentialUserId_resulting {update : Option (ℕ × UInt64)} {m : Member} {userId : UInt64}
    (hupdate : updatePathMember sender staged = .ok update)
    (h : (match update with
      | some (leafIndex, userId) =>
        if leafIndex = m.index then pure userId else memberUserId m.credential
      | none => memberUserId m.credential) = .ok userId) :
    credentialUserId (resultingCredential sender staged m) = .ok userId := by
  unfold updatePathMember at hupdate
  unfold resultingCredential
  rcases hleaf : staged.updatePathLeafNode with _ | leafNode
  · simp only [hleaf, Except.ok.injEq] at hupdate
    subst hupdate
    exact memberUserId_eq_ok.mp h
  · rw [hleaf] at hupdate
    cases sender with
    | member leafIndex =>
      obtain ⟨pathId, hpath, heq⟩ := (bind_ok_iff _ _ _).mp hupdate
      cases heq
      by_cases hm : leafIndex = m.index
      · simp only [if_pos hm] at h
        cases h
        simpa [hm] using memberUserId_eq_ok.mp hpath
      · simp only [if_neg hm] at h
        simpa [hm] using memberUserId_eq_ok.mp h
    | _ => cases hupdate

/-- No commit that passes brings its sender in: a path of one that is no member is refused. -/
lemma joining_eq_nil {update : Option (ℕ × UInt64)}
    (h : updatePathMember sender staged = .ok update) : joining sender staged = [] := by
  unfold updatePathMember at h
  unfold joining
  split
  · rename_i hsender
    rw [hsender] at h
    rcases hleaf : staged.updatePathLeafNode with _ | leafNode
    · rfl
    · rw [hleaf] at h
      cases h
  · rfl

lemma distinct_resultingCredentials
    (h : validateResultingMemberCredentials members sender staged = .ok ()) :
    Distinct (resultingCredentials members sender staged) := by
  obtain ⟨update, hupdate, h⟩ := (bind_ok_iff _ _ _).mp h
  obtain ⟨kept, hkept, h⟩ := (bind_ok_iff _ _ _).mp h
  obtain ⟨added, hadded, h⟩ := (bind_ok_iff _ _ _).mp h
  refine distinct_of_map_eq (kept ++ added) ?_ (nodup_of_distinctFrom h).1
  rw [mapM_eq_ok] at hkept hadded
  rw [resultingCredentials, joining_eq_nil hupdate, List.append_nil, List.map_append,
    List.map_append, List.map_map, List.map_map]
  congr 1
  · exact map_eq_map_ok (fun m userId hm => credentialUserId_resulting hupdate hm) hkept
  · exact map_eq_map_ok (fun leafNode userId hl => memberUserId_eq_ok.mp hl) hadded

/-! ### Merging -/

variable {κ : Type}

/-- `after` has the context of the commit, and the members it leaves. -/
def Merges (before : MlsGroup κ) (sender : Sender) (staged : StagedCommit) (after : MlsGroup κ) :
    Prop :=
  after.context = staged.groupContext ∧
    (after.members.map Member.credential).Perm (resultingCredentials before.members sender staged)

/-- The members and the context are those of `before`. -/
def SameGroup (before after : MlsGroup κ) : Prop :=
  after.members = before.members ∧ after.context = before.context

lemma validateGroupPolicy_eq_ok {group : MlsGroup κ} :
    validateGroupPolicy group externalSender = .ok () ↔
      group.context.ciphersuite = supportedCiphersuite ∧
      validateGroupContextExtensions group.context.extensions externalSender = .ok () ∧
      Distinct (group.members.map Member.credential) := by
  unfold validateGroupPolicy
  by_cases hsuite : group.context.ciphersuite = supportedCiphersuite
  · simp only [hsuite, ne_eq, not_true_eq_false, if_false, true_and]
    rw [bind_ok_iff]
    constructor
    · rintro ⟨_, hextensions, hmembers⟩
      exact ⟨hextensions, validateGroupMemberPolicy_eq_ok.mp hmembers⟩
    · rintro ⟨hextensions, hmembers⟩
      exact ⟨(), hextensions, validateGroupMemberPolicy_eq_ok.mpr hmembers⟩
  · simp [hsuite, bind, Except.bind]

lemma SameGroup.validateGroupPolicy {before after : MlsGroup κ} (h : SameGroup before after)
    (hb : validateGroupPolicy before externalSender = .ok ()) :
    validateGroupPolicy after externalSender = .ok () := by
  rw [validateGroupPolicy_eq_ok] at hb ⊢
  rw [h.1, h.2]
  exact hb

lemma validateGroupContextPolicy_eq_ok {context : GroupContext}
    (h : validateGroupContextPolicy context externalSender = .ok ()) :
    context.ciphersuite = supportedCiphersuite ∧
      validateGroupContextExtensions context.extensions externalSender = .ok () := by
  unfold validateGroupContextPolicy at h
  split at h
  · cases h
  · split at h
    · cases h
    · exact ⟨by_contra ‹_›, h⟩

/-- The checks on a commit are enough for the group it leaves. -/
theorem Merges.validateGroupPolicy {before after : MlsGroup κ}
    (h : Merges before sender staged after)
    (hvalid : validateStagedCommit before.members externalSender sender staged = .ok ()) :
    validateGroupPolicy after externalSender = .ok () := by
  obtain ⟨_, -, hvalid⟩ := (bind_ok_iff _ _ _).mp hvalid
  obtain ⟨_, -, hvalid⟩ := (bind_ok_iff _ _ _).mp hvalid
  obtain ⟨_, hcontext, hcredentials⟩ := (bind_ok_iff _ _ _).mp hvalid
  obtain ⟨hsuite, hextensions⟩ :=
    validateGroupContextPolicy_eq_ok ((mapError_ok_iff _ _ _).mp hcontext)
  rw [validateGroupPolicy_eq_ok, h.1]
  exact ⟨hsuite, hextensions, (distinct_resultingCredentials hcredentials).perm h.2⟩

/-! ### OpenMLS

What is assumed of OpenMLS, each law in one place: of members and context through a commit
(`Merging`) and through all other operations (`Lawful`), and of the pending proposals (`Store`). -/

/-- A message that is processed leaves members and context, and a commit that is merged leaves the
members and the context it has been staged with. With no commit pending there is nothing to
merge. -/
structure Merging (M : OpenMls) : Prop where
  processMessage : ∀ m w, SameGroup w.1 (M.processMessage m w).2.1
  mergeStagedCommit : ∀ m w sender staged w' w'',
    M.processMessage m w = (.ok ⟨sender, .stagedCommitMessage staged⟩, w') →
    M.mergeStagedCommit staged w' = (.ok (), w'') → Merges w'.1 sender staged w''.1
  mergePendingCommit : ∀ w w' staged, w.1.pendingCommit = some staged →
    M.mergePendingCommit w = (.ok (), w') → Merges w.1 (.member w.1.ownLeafIndex) staged w'.1
  mergeNothing : ∀ w w', w.1.pendingCommit = none → M.mergePendingCommit w = (.ok (), w') →
    SameGroup w.1 w'.1

/-- The operations of the storage and of the cryptography succeed, and a merge that fails leaves
the group. -/
structure Lawful (M : OpenMls) : Prop extends Merging M where
  clearStorage : ∀ p, (M.clearStorage p).1 = true
  delete : ∀ g p, (M.delete g p).1 = .ok ()
  newWithGroupId : ∀ externalSender groupId p, ∃ g p' userId,
    M.newWithGroupId externalSender groupId p = (.ok g, p') ∧
    g.members.map Member.credential = [⟨credentialBasic, u64Be userId⟩] ∧
    g.context = ⟨mls10, supportedCiphersuite, [.externalSenders [externalSender]]⟩
  storePendingProposal : ∀ q w, SameGroup w.1 (M.storePendingProposal q w).2.1
  removePendingProposal : ∀ r w, SameGroup w.1 (M.removePendingProposal r w).2.1
  clearPendingCommit : ∀ w, SameGroup w.1 (M.clearPendingCommit w).2.1
  commitToPendingProposals : ∀ w, SameGroup w.1 (M.commitToPendingProposals w).2.1
  mergeStagedCommit_fails : ∀ m w sender staged w' r w'',
    M.processMessage m w = (.ok ⟨sender, .stagedCommitMessage staged⟩, w') →
    M.mergeStagedCommit staged w' = (r, w'') → r ≠ .ok () → SameGroup w'.1 w''.1
  mergePendingCommit_fails : ∀ w r w', M.mergePendingCommit w = (r, w') → r ≠ .ok () →
    SameGroup w.1 w'.1

/-- A proposal with this reference is pending. -/
def Pending (pending : List QueuedProposal) (reference : Bytes) : Prop :=
  ∃ q ∈ pending, q.reference = reference

instance (pending : List QueuedProposal) (reference : Bytes) :
    Decidable (Pending pending reference) :=
  inferInstanceAs (Decidable (∃ q ∈ pending, q.reference = reference))

/-- The store without the proposal of this reference. -/
def without (pending : List QueuedProposal) (reference : Bytes) : List QueuedProposal :=
  pending.eraseP fun q => q.reference = reference

/-- Processing a message does not touch the proposal store, and removing a proposal fails, and
changes nothing, exactly when its reference is not known. -/
structure Store (M : OpenMls) : Prop where
  processMessage : ∀ m w,
    (M.processMessage m w).2.1.pendingProposals = w.1.pendingProposals ∧
    (M.processMessage m w).2.1.pendingCommit = w.1.pendingCommit
  remove_pending : ∀ r w, Pending w.1.pendingProposals r →
    (M.removePendingProposal r w).1 = .ok () ∧
    (M.removePendingProposal r w).2.1.pendingProposals = without w.1.pendingProposals r
  remove_unknown : ∀ r w, ¬ Pending w.1.pendingProposals r →
    (∃ e, (M.removePendingProposal r w).1 = .error e) ∧
    (M.removePendingProposal r w).2.1.pendingProposals = w.1.pendingProposals
  remove_pendingCommit : ∀ r w,
    (M.removePendingProposal r w).2.1.pendingCommit = w.1.pendingCommit

/-! ### A small instance -/

/-- The group after the commit, with its members numbered anew. -/
def MlsGroup.merged (g : MlsGroup κ) (sender : Sender) (staged : StagedCommit) : MlsGroup κ :=
  { g with
    members := (resultingCredentials g.members sender staged).mapIdx fun i c => ⟨i, c⟩
    context := staged.groupContext, pendingProposals := [], pendingCommit := none }

lemma merges_merged (g : MlsGroup κ) : Merges g sender staged (g.merged sender staged) := by
  refine ⟨rfl, List.Perm.of_eq (List.ext_getElem? fun i => ?_)⟩
  simp only [MlsGroup.merged, List.getElem?_map, List.getElem?_mapIdx, Option.map_map]
  cases (resultingCredentials g.members sender staged)[i]? <;> rfl

/-- OpenMLS without cryptography. A message is one byte: zero for a commit of one's own, one for
an empty commit of the next member, and any other for the proposal to add the user of that id. -/
def plainMls : OpenMls where
  Error := Unit
  Provider := Unit
  Secrets := Unit
  MessageIn := UInt8
  ProtocolMessage := UInt8
  MessageOut := UInt8
  Welcome := Unit
  deserializeExternalSender b :=
    if b = [] then .error () else .ok ⟨b, ⟨credentialBasic, []⟩⟩
  deserializeVlBytes b := .ok b
  deserializeMessage
    | [] => .error ()
    | m :: rest => .ok (m, rest)
  deserializeMessage_shorter
    | [], _, _, h => nomatch h
    | _ :: _, _, _, h => by cases h; simp
  deserializeMessageExact
    | [m] => .ok m
    | _ => .error ()
  deserializeProposalRef
    | [] => .error ()
    | r :: rest => .ok ([r], rest)
  deserializeProposalRef_shorter
    | [], _, _, h => nomatch h
    | _ :: _, _, _, h => by cases h; simp
  deserializeWelcome _ := .error ()
  tryIntoProtocolMessage m := .ok m
  groupId _ := u64Be 0
  serialize m := .ok [m]
  welcomeBody m := some m
  clearStorage p := (true, p)
  newWithGroupId externalSender _ p :=
    (.ok {
      members := [⟨0, ⟨credentialBasic, u64Be 1⟩⟩]
      context := ⟨mls10, supportedCiphersuite, [.externalSenders [externalSender]]⟩
      ownLeafIndex := 0, pendingProposals := [], pendingCommit := none, secrets := () }, p)
  delete _ p := (.ok (), p)
  processMessage m w :=
    (if m = 0 then .error .ownCommit
      else if m = 1 then .ok ⟨.member 1, .stagedCommitMessage ⟨[], none, w.1.context⟩⟩
      else .ok ⟨.external 0, .proposalMessage
        ⟨.add ⟨⟨credentialBasic, u64Be m.toNat⟩, [], supportedCapabilities⟩, .external 0, [m],
          true⟩⟩,
      w)
  storePendingProposal q w :=
    (.ok (), { w.1 with pendingProposals := w.1.pendingProposals ++ [q] }, w.2)
  removePendingProposal r w :=
    (.ok (), { w.1 with
      pendingProposals := w.1.pendingProposals.filter fun q => q.reference ≠ r }, w.2)
  clearPendingCommit w := (.ok (), { w.1 with pendingCommit := none }, w.2)
  commitToPendingProposals w :=
    (.ok (0, none), { w.1 with
      pendingCommit := some ⟨w.1.pendingProposals, none, w.1.context⟩ }, w.2)
  mergeStagedCommit staged w := (.ok (), w.1.merged (.member 1) staged, w.2)
  mergePendingCommit w :=
    (.ok (), (w.1.pendingCommit.map (w.1.merged (.member w.1.ownLeafIndex))).getD w.1, w.2)
  buildFromWelcome _ p := (.error (), p)
  intoGroup _ p := (.error (), p)
  exportSecret _ userId := .ok (u64Be userId.toNat)

lemma lawful_plainMls : Lawful plainMls where
  clearStorage _ := rfl
  delete _ _ := rfl
  newWithGroupId _ _ _ := ⟨_, _, 1, rfl, rfl, rfl⟩
  processMessage _ _ := ⟨rfl, rfl⟩
  storePendingProposal _ _ := ⟨rfl, rfl⟩
  removePendingProposal _ _ := ⟨rfl, rfl⟩
  clearPendingCommit _ := ⟨rfl, rfl⟩
  commitToPendingProposals _ := ⟨rfl, rfl⟩
  mergeStagedCommit := by
    rintro m w sender staged w' w'' hmessage hmerge
    cases hmerge
    obtain rfl : w = w' := congrArg Prod.snd hmessage
    have hcontent := congrArg Prod.fst hmessage
    simp only [plainMls] at hcontent
    split at hcontent
    · cases hcontent
    · split at hcontent
      · cases hcontent
        exact merges_merged w.1
      · cases hcontent
  mergePendingCommit := by
    rintro w w' staged hstaged hmerge
    cases hmerge
    rw [hstaged]
    exact merges_merged w.1
  mergeNothing := by
    rintro w w' hnone hmerge
    cases hmerge
    rw [hnone]
    exact ⟨rfl, rfl⟩
  mergeStagedCommit_fails _ _ _ _ _ _ _ _ h hr := absurd (congrArg Prod.fst h).symm hr
  mergePendingCommit_fails _ _ _ h hr := absurd (congrArg Prod.fst h).symm hr

end Cacophony.Mls
