import Cacophony.Mls
import Cacophony.Progs
import Cacophony.UserDecryptor

/-!
`Session` of `session.rs`: the MLS group of a call, the sender, and one decryptor a user.

A call that fails keeps what it has changed so far. The group is taken out of the session, or
changed in place, at several points before the last check of a call; `status` is written apart
from it.
-/

namespace Cacophony.DaveSession

open Mls Progs Ratchet UserDecryptor Gcm
open Cacophony.Frame

inductive SessionStatus
  | inactive
  | pending
  | awaitingInitialResponse
  | awaitingCommit
  | active
  deriving DecidableEq

inductive SessionGroupState
  | pending
  | established
  deriving DecidableEq

inductive ProposalsOperation
  | append
  | revoke
  deriving DecidableEq

structure CommitWelcome where
  commit : Bytes
  welcome : Option Bytes

inductive UpdateRatchetsError (ε : Type)
  | noEstablishedGroup
  | exportSecret (error : ε)
  | memberCredential (error : CredentialPolicyError)

inductive PendingGroupError (ε : Type)
  | noExternalSender
  | createGroup (error : ε)

inductive SetExternalSenderError (ε : Type)
  | alreadyInGroup
  | storagePoisoned
  | deleteGroup (error : ε)
  | deserializeExternalSender (error : ε)
  | pendingGroup (error : PendingGroupError ε)

inductive ProcessProposalsError (ε : Type)
  | noGroup
  | deserializeProposalVector (error : ε)
  | deserializeMessage (error : ε)
  | messageNotPublicOrPrivate (error : ε)
  | processMessage (error : ProcessMessageError ε)
  | credential (error : CredentialPolicyError)
  | unexpectedProposalSender
  | unexpectedProposalType
  | unexpectedUser (userId : UInt64)
  | storePendingProposal (error : ε)
  | messageNotProposal
  | groupPolicy (error : GroupPolicyError)
  | deserializeProposalRef (error : ε)
  | removePendingProposal (error : ε)
  | clearPendingCommit (error : ε)
  | commitPendingProposals (error : ε)
  | serializeCommit (error : ε)
  | serializeWelcome (error : ε)

inductive ProcessWelcomeError (ε : Type)
  | alreadyInGroup
  | noExternalSender
  | deserializeWelcome (error : ε)
  | stageWelcome (error : ε)
  | groupPolicy (error : GroupPolicyError)
  | deletePendingGroup (error : ε)
  | updateRatchets (error : UpdateRatchetsError ε)

inductive ProcessCommitError (ε : Type)
  | noGroup
  | noExternalSender
  | pendingGroup
  | deserializeCommit (error : ε)
  | messageNotPublicOrPrivate (error : ε)
  | wrongGroup
  | unexpectedOwnCommit
  | commitPolicy (error : CommitPolicyError)
  | groupPolicy (error : GroupPolicyError)
  | mergePendingCommit (error : ε)
  | mergeStagedCommit (error : ε)
  | processMessage (error : ε)
  | messageNotStagedCommit
  | updateRatchets (error : UpdateRatchetsError ε)

structure SessionGroup (κ : Type) where
  group : MlsGroup κ
  state : SessionGroupState

namespace SessionGroup

variable {κ : Type}

def isPending (g : SessionGroup κ) : Bool := g.state = .pending
def isEstablished (g : SessionGroup κ) : Bool := g.state = .established
def establish (g : SessionGroup κ) : SessionGroup κ := { g with state := .established }

end SessionGroup

/-- `Session`, without its key and configuration, which only OpenMLS reads. -/
structure Session (M : OpenMls) where
  userId : UInt64
  channelId : UInt64
  provider : M.Provider
  externalSender : Option ExternalSender := none
  group : Option (SessionGroup M.Secrets) := none
  status : SessionStatus := .inactive
  receiveReady : Bool := false
  sender : Encryptor := {}
  decryptors : UInt64 → Option Decryptor := fun _ => none
  passthrough : PlaintextPassthrough
  pendingCommit : Option Bytes := none

variable {M : OpenMls}

def Session.new (userId channelId : UInt64) (provider : M.Provider) (now : ℕ) : Session M :=
  { userId, channelId, provider, passthrough := .disabled now }

/-- `channel_id.to_be_bytes()` -/
def Session.groupId (s : Session M) : Bytes := u64Be s.channelId.toNat

def Session.hasEstablishedGroup (s : Session M) : Bool := s.group.any SessionGroup.isEstablished

abbrev SessionM (M : OpenMls) (ε : Type) := Prog (Session M) ε

variable {ε α : Type}

/-- A call on the group of the session, which `none` misses. -/
def onGroup {δ : Type} (none : ε) (wrap : δ → ε)
    (f : MlsGroup M.Secrets × M.Provider → Except δ α × MlsGroup M.Secrets × M.Provider) :
    SessionM M ε α := do
  let s ← get
  match s.group with
  | .none => throw none
  | some g =>
    let (result, group, provider) := f (g.group, s.provider)
    set { s with group := some { g with group }, provider }
    ofResult wrap result

/-- A call on the storage or the cryptography of the session. -/
def onProvider {δ : Type} (wrap : δ → ε) (f : M.Provider → Except δ α × M.Provider) :
    SessionM M ε α := do
  let s ← get
  let (result, provider) := f s.provider
  set { s with provider }
  ofResult wrap result

/-! ### Media -/

def resetMediaTransformState (now : ℕ) (s : Session M) : Session M :=
  { s with
    receiveReady := false, sender := {}, decryptors := fun _ => none
    passthrough := .disabled now }

def setPassthroughMode (mode : PassthroughMode) (now : ℕ) (s : Session M) : Session M :=
  { s with
    passthrough := s.passthrough.apply mode now
    decryptors := fun u => (s.decryptors u).map fun d => d.transitionToPassthrough mode now }

inductive DecryptError
  | noDecryptorForUser (userId : UInt64)
  | frame (error : FrameDecryptError)
  deriving DecidableEq

/-- `decrypt_into`; `none` when it does not return. -/
def decryptInto (A : Aead) (K : Kdf) (userId : UInt64) (mediaType : MediaType) (frame : Bytes)
    (capacity now : ℕ) (s : Session M) : Option (Except DecryptError Bytes) × Session M :=
  match s.decryptors userId with
  | none => (some (.error (.noDecryptorForUser userId)), s)
  | some decryptor =>
    let (result, decryptor) := decryptor.decrypt A K mediaType frame capacity now
    (result.map (·.mapError .frame),
      { s with decryptors := Function.update s.decryptors userId (some decryptor) })

def activateStagedSender (s : Session M) : Bool × Session M :=
  let (switched, sender) := s.sender.activatePending
  (switched, { s with sender })

def keyRatchet (s : Session M) (userId : UInt64) :
    Except (UpdateRatchetsError M.Error) HashRatchet :=
  match s.group with
  | none => .error .noEstablishedGroup
  | some g =>
    if ¬ g.isEstablished then .error .noEstablishedGroup
    else ((M.exportSecret g.group userId).map HashRatchet.new).mapError .exportSecret

/-- The body of the loop over the members: a new ratchet for the decryptor of the user, which is
made when there is none. -/
def updateReceiveRatchet (now : ℕ) (currentMembers : List UInt64) (member : Member) :
    SessionM M (UpdateRatchetsError M.Error) (List UInt64) := do
  let s ← get
  let userId ← ofResult .memberCredential (credentialUserId member.credential)
  let currentMembers := userId :: currentMembers
  if userId = s.userId then pure currentMembers
  else
    let ratchet ← ofResult id (keyRatchet s userId)
    let decryptor := (s.decryptors userId).getD (.withPlaintextPassthrough s.passthrough now)
    let decryptor := decryptor.transitionToRatchet ratchet now
    modify fun s =>
      { s with decryptors := Function.update s.decryptors userId (some decryptor) }
    pure currentMembers

def updateReceiveRatchetsAndStageSender (now : ℕ) :
    SessionM M (UpdateRatchetsError M.Error) Unit := do
  let s ← get
  match s.group with
  | none => throw .noEstablishedGroup
  | some g =>
    if ¬ g.isEstablished then throw .noEstablishedGroup
    else
      let currentMembers ← g.group.members.foldlM (updateReceiveRatchet now) []
      modify fun s =>
        { s with decryptors := fun u => if u ∈ currentMembers then s.decryptors u else none }
      let s ← get
      let ratchet ← ofResult id (keyRatchet s s.userId)
      modify fun s => { s with sender := s.sender.stageRatchet ratchet, receiveReady := true }

/-! ### The group -/

/-- `self.group.take()`, and the deletion of what was there. -/
def deleteGroup (wrap : M.Error → ε) : SessionM M ε Unit := do
  let s ← get
  match s.group with
  | none => pure ()
  | some g =>
    set { s with group := none }
    onProvider wrap (M.delete g.group)

def reset (now : ℕ) : SessionM M (SetExternalSenderError M.Error) Unit := do
  deleteGroup .deleteGroup
  let s ← get
  let (ok, provider) := M.clearStorage s.provider
  set { s with provider }
  if ok then
    modify fun s => { s with status := .inactive }
    modify (resetMediaTransformState now)
    modify fun s => { s with pendingCommit := none }
  else throw .storagePoisoned

def createPendingGroup : SessionM M (PendingGroupError M.Error) Unit := do
  let s ← get
  match s.externalSender with
  | none => throw .noExternalSender
  | some externalSender =>
    let group ← onProvider .createGroup (M.newWithGroupId externalSender s.groupId)
    modify fun s => { s with group := some ⟨group, .pending⟩, status := .pending }

def setExternalSender (bytes : Bytes) : SessionM M (SetExternalSenderError M.Error) Unit := do
  let s ← get
  if s.hasEstablishedGroup then throw .alreadyInGroup
  else
    deleteGroup .deleteGroup
    let externalSender ← ofResult .deserializeExternalSender (M.deserializeExternalSender bytes)
    modify fun s => { s with externalSender := some externalSender }
    modify fun s => { s with pendingCommit := none }
    adapt .pendingGroup createPendingGroup

def activateEstablishedGroup (now : ℕ) : SessionM M (UpdateRatchetsError M.Error) Unit := do
  modify fun s => { s with status := .active }
  updateReceiveRatchetsAndStageSender now

/-! ### Proposals -/

def validateGatewayProposal (proposal : QueuedProposal) (expected : UInt64 → Bool) :
    Except (ProcessProposalsError ε) Bool :=
  if proposal.sender ≠ .external 0 then .error .unexpectedProposalSender
  else
    match proposal.proposal with
    | .add leafNode => do
      (validateLeafNodePolicy leafNode).mapError .groupPolicy
      let userId ← (credentialUserId leafNode.credential).mapError .credential
      if expected userId then return true else throw (.unexpectedUser userId)
    | .remove _ => .ok false
    | .other _ => .error .unexpectedProposalType

/-- The loop of `process_proposals` over the messages to append: the proposals in them, and
whether one of them adds a member. -/
def collectProposals (expected : UInt64 → Bool) (remaining : Bytes)
    (validated : List QueuedProposal) (adds : Bool) :
    SessionM M (ProcessProposalsError M.Error) (List QueuedProposal × Bool) :=
  if remaining.isEmpty then pure (validated, adds)
  else
    match _h : M.deserializeMessage remaining with
    | .error error => throw (.deserializeMessage error)
    | .ok (message, rest) => do
      let message ← ofResult .messageNotPublicOrPrivate (M.tryIntoProtocolMessage message)
      let processed ← onGroup .noGroup .processMessage (M.processMessage message)
      match processed.content with
      | .proposalMessage proposal =>
        let isAdd ← ofResult id (validateGatewayProposal proposal expected)
        collectProposals expected rest (validated ++ [proposal]) (adds || isAdd)
      | _ => throw .messageNotProposal
termination_by remaining.length
decreasing_by exact M.deserializeMessage_shorter _ _ _ _h

/-- The loop over the references to revoke. -/
def revokeProposals (remaining : Bytes) : SessionM M (ProcessProposalsError M.Error) Unit :=
  if remaining.isEmpty then pure ()
  else
    match _h : M.deserializeProposalRef remaining with
    | .error error => throw (.deserializeProposalRef error)
    | .ok (proposalRef, rest) => do
      onGroup .noGroup .removePendingProposal (M.removePendingProposal proposalRef)
      revokeProposals rest
termination_by remaining.length
decreasing_by exact M.deserializeProposalRef_shorter _ _ _ _h

/-- The `match` on the operation; the result says whether the commit adds members. -/
def applyProposals (operation : ProposalsOperation) (proposals : Bytes) (expected : UInt64 → Bool) :
    SessionM M (ProcessProposalsError M.Error) Bool :=
  match operation with
  | .append => do
    let (validated, adds) ← collectProposals expected proposals [] false
    validated.forM fun proposal =>
      onGroup .noGroup .storePendingProposal (M.storePendingProposal proposal)
    pure adds
  | .revoke => do
    revokeProposals proposals
    pure false

/-- The status when no proposal is pending any more. -/
def SessionStatus.settled : SessionStatus → SessionStatus
  | .awaitingCommit => .active
  | .awaitingInitialResponse => .pending
  | status => status

/-- The part of `process_proposals` that makes a commit. -/
def commitProposals (wasEstablished adds : Bool) :
    SessionM M (ProcessProposalsError M.Error) (Option CommitWelcome) := do
  let (commit, welcome) ← onGroup .noGroup .commitPendingProposals M.commitToPendingProposals
  modify fun s => { s with
    status := if wasEstablished then .awaitingCommit else .awaitingInitialResponse }
  let commit ← ofResult .serializeCommit (M.serialize commit)
  modify fun s => { s with pendingCommit := some commit }
  match (if adds then welcome else none).bind M.welcomeBody with
  | none => pure (some ⟨commit, none⟩)
  | some welcome =>
    let welcome ← ofResult .serializeWelcome (M.serialize welcome)
    pure (some ⟨commit, some welcome⟩)

def processProposals (operation : ProposalsOperation) (proposals : Bytes)
    (expected : UInt64 → Bool) :
    SessionM M (ProcessProposalsError M.Error) (Option CommitWelcome) := do
  let s ← get
  match s.group with
  | none => throw .noGroup
  | some g =>
    let proposals ← ofResult .deserializeProposalVector (M.deserializeVlBytes proposals)
    let adds ← applyProposals operation proposals expected
    let s ← get
    if (s.group.map fun g => g.group.pendingProposals.isEmpty).getD true then
      onGroup .noGroup .clearPendingCommit M.clearPendingCommit
      modify fun s => { s with pendingCommit := none }
      modify fun s => { s with status := s.status.settled }
      pure none
    else
      if (s.group.bind fun g => g.group.pendingCommit).isSome then
        onGroup .noGroup .clearPendingCommit M.clearPendingCommit
        modify fun s => { s with pendingCommit := none }
      commitProposals g.isEstablished adds

/-! ### Welcomes and commits -/

def processWelcome (welcome : Bytes) (now : ℕ) :
    SessionM M (ProcessWelcomeError M.Error) Unit := do
  let s ← get
  if s.hasEstablishedGroup then throw .alreadyInGroup
  else
    match s.externalSender with
    | none => throw .noExternalSender
    | some externalSender =>
      let welcome ← ofResult .deserializeWelcome (M.deserializeWelcome welcome)
      let staged ← onProvider .stageWelcome (M.buildFromWelcome welcome)
      ofResult .groupPolicy (validateGroupContextPolicy staged.context externalSender)
      ofResult .groupPolicy (validateGroupMemberPolicy staged.members)
      let group ← onProvider .stageWelcome (M.intoGroup staged)
      ofResult .groupPolicy (validateGroupPolicy group externalSender)
      deleteGroup .deletePendingGroup
      modify fun s => { s with group := some ⟨group, .established⟩ }
      modify fun s => { s with pendingCommit := none }
      adapt .updateRatchets (activateEstablishedGroup now)

/-- The `match` on the processed message: a commit that passes the checks is merged. -/
def mergeCommit (externalSender : ExternalSender) (pendingCommitMatches : Bool)
    (result : Except (ProcessMessageError M.Error) ProcessedMessage) :
    SessionM M (ProcessCommitError M.Error) Unit := do
  let s ← get
  match s.group with
  | none => throw .noGroup
  | some g =>
    match result with
    | .ok message =>
      match message.content with
      | .stagedCommitMessage staged =>
        ofResult .commitPolicy
          (validateStagedCommit g.group.members externalSender message.sender staged)
        onGroup .noGroup .mergeStagedCommit (M.mergeStagedCommit staged)
      | _ => throw .messageNotStagedCommit
    | .error .ownCommit =>
      if ¬ pendingCommitMatches then throw .unexpectedOwnCommit
      else
        g.group.pendingCommit.forM fun staged =>
          ofResult .commitPolicy (validateStagedCommit g.group.members externalSender
            (.member g.group.ownLeafIndex) staged)
        onGroup .noGroup .mergePendingCommit M.mergePendingCommit
    | .error (.other error) => throw (.processMessage error)

def processCommit (commit : Bytes) (now : ℕ) : SessionM M (ProcessCommitError M.Error) Unit := do
  let s ← get
  match s.group, s.externalSender with
  | none, _ => throw .noGroup
  | some _, none => throw .noExternalSender
  | some g, some externalSender =>
    if g.isPending ∧ s.status = .pending then throw .pendingGroup
    else
      let message ← ofResult .deserializeCommit (M.deserializeMessageExact commit)
      let message ← ofResult .messageNotPublicOrPrivate (M.tryIntoProtocolMessage message)
      if M.groupId message ≠ s.groupId then throw .wrongGroup
      else
        let result ← onGroup .noGroup (fun e : Empty => e.elim) fun w =>
          let (result, w) := M.processMessage message w
          (.ok result, w)
        mergeCommit externalSender (s.pendingCommit = some commit) result
        modify fun s => { s with pendingCommit := none }
        if g.isPending then
          modify fun s => { s with group := s.group.map SessionGroup.establish }
        let s ← get
        s.group.forM fun g => ofResult .groupPolicy (validateGroupPolicy g.group externalSender)
        adapt .updateRatchets (activateEstablishedGroup now)

/-! ### Rules -/

section Rules

variable {δ : Type} {P E : Session M → Prop} {Q : α → Session M → Prop} {wrap : δ → ε}

lemma ends_onGroup {none : ε} {wrap : δ → ε}
    {f : MlsGroup M.Secrets × M.Provider → Except δ α × MlsGroup M.Secrets × M.Provider}
    (hnone : ∀ s, P s → s.group = .none → E s)
    (hok : ∀ s g a group provider, P s → s.group = some g →
      f (g.group, s.provider) = (.ok a, group, provider) →
      Q a { s with group := some { g with group }, provider })
    (herror : ∀ s g e group provider, P s → s.group = some g →
      f (g.group, s.provider) = (.error e, group, provider) →
      E { s with group := some { g with group }, provider }) :
    Ends P (onGroup none wrap f) Q E := by
  refine ends_get_bind fun s hs => ?_
  rcases hg : s.group with _ | g
  · exact ends_throw fun _ hw => hw ▸ hnone s hs hg
  · rcases hf : f (g.group, s.provider) with ⟨e | a, group, provider⟩ <;> simp only [hf]
    · refine ends_bind (Q := fun _ => E) (ends_set fun _ _ => ?_) fun _ => ends_throw fun _ h => h
      exact herror s g e group provider hs hg hf
    · refine ends_bind (Q := fun _ => Q a) (ends_set fun _ _ => ?_) fun _ => ends_pure fun _ h => h
      exact hok s g a group provider hs hg hf

/-- What the group that `f` leaves keeps, the call keeps, whether it fails or not. -/
lemma always_onGroup {I : Session M → Prop} {none : ε} {wrap : δ → ε}
    {f : MlsGroup M.Secrets × M.Provider → Except δ α × MlsGroup M.Secrets × M.Provider}
    (h : ∀ s g r group provider, I s → s.group = some g →
      f (g.group, s.provider) = (r, group, provider) →
      I { s with group := some { g with group }, provider }) :
    Always I (onGroup none wrap f) :=
  ends_onGroup (fun _ hs _ => hs) (fun s g a => h s g (.ok a)) fun s g e => h s g (.error e)

/-- The session after a call on its group. -/
def called (s : Session M) (g : SessionGroup M.Secrets)
    (result : α × MlsGroup M.Secrets × M.Provider) : Session M :=
  { s with group := some { g with group := result.2.1 }, provider := result.2.2 }

lemma exec_onGroup {none : ε}
    {f : MlsGroup M.Secrets × M.Provider → Except δ α × MlsGroup M.Secrets × M.Provider}
    {s : Session M} {g : SessionGroup M.Secrets} (hg : s.group = some g) :
    exec (onGroup none wrap f) s
      = ((f (g.group, s.provider)).1.mapError wrap, called s g (f (g.group, s.provider))) := by
  rw [onGroup, exec_bind, exec_get]
  simp only [hg]
  rw [exec_bind, exec_set]
  rcases f (g.group, s.provider) with ⟨e | a, group, provider⟩ <;> rfl

lemma throws_onGroup {T : ε → Prop} {none : ε}
    {f : MlsGroup M.Secrets × M.Provider → Except δ α × MlsGroup M.Secrets × M.Provider}
    (hnone : T none) (hwrap : ∀ e, T (wrap e)) : Throws T (onGroup none wrap f) := by
  refine throws_get_bind fun s => ?_
  split
  · exact throws_throw hnone
  · exact throws_bind (throws_set _) fun _ => throws_ofResult hwrap _

lemma ends_onProvider {f : M.Provider → Except δ α × M.Provider}
    (hok : ∀ s a provider, P s → f s.provider = (.ok a, provider) → Q a { s with provider })
    (herror : ∀ s e provider, P s → f s.provider = (.error e, provider) → E { s with provider }) :
    Ends P (onProvider wrap f) Q E := by
  refine ends_get_bind fun s hs => ?_
  rcases hf : f s.provider with ⟨e | a, provider⟩
  · refine ends_bind (Q := fun _ => E) (ends_set fun _ _ => ?_) fun _ => ends_throw fun _ h => h
    exact herror s e provider hs hf
  · refine ends_bind (Q := fun _ => Q a) (ends_set fun _ _ => ?_) fun _ => ends_pure fun _ h => h
    exact hok s a provider hs hf

/-- What the three writes of `update_receive_ratchets_and_stage_sender` keep, it keeps in every
outcome. -/
lemma ends_updateReceiveRatchetsAndStageSender {I : Session M → Prop} {now : ℕ}
    (hput : ∀ s u d ratchet, I s →
      (s.decryptors u).getD (.withPlaintextPassthrough s.passthrough now) = d →
      I { s with decryptors :=
        Function.update s.decryptors u (some (d.transitionToRatchet ratchet now)) })
    (hretain : ∀ s (us : List UInt64), I s →
      I { s with decryptors := fun u => if u ∈ us then s.decryptors u else none })
    (hsender : ∀ s ratchet, I s →
      I { s with sender := s.sender.stageRatchet ratchet, receiveReady := true }) :
    Ends I (updateReceiveRatchetsAndStageSender now) (fun _ => I) I := by
  have hbody : ∀ us member,
      Ends I (updateReceiveRatchet (M := M) now us member) (fun _ => I) I := by
    intro us member
    refine ends_get_bind fun s hs => ?_
    have hkept : ∀ w, w = s → I w := fun w hw => hw ▸ hs
    refine ends_bind (ends_ofResult _ _ hkept) fun u => ?_
    dsimp only
    split
    · exact ends_pure fun w hw => hkept w hw.1
    · refine ends_bind (ends_ofResult _ _ fun w hw => hkept w hw.1) fun ratchet => ?_
      refine ends_bind (Q := fun _ => I) (ends_modify fun w hw => ?_)
        fun _ => ends_pure fun _ h => h
      rw [hw.1.1]
      exact hput s u _ ratchet hs rfl
  refine ends_get_bind fun s hs => ?_
  have hkept : ∀ w, w = s → I w := fun w hw => hw ▸ hs
  rcases s.group with _ | g
  · exact ends_throw hkept
  · dsimp only
    split
    · exact ends_throw hkept
    · refine (ends_bind (ends_foldlM hbody _ _) fun us => ?_).mono hkept (fun _ _ h => h)
        fun _ h => h
      refine ends_bind (Q := fun _ => I) (ends_modify fun w hw => hretain w us hw) fun _ => ?_
      refine ends_get_bind fun v hv => ?_
      refine ends_bind (ends_ofResult _ _ fun w hw => hw ▸ hv) fun ratchet => ?_
      refine ends_modify fun w hw => ?_
      rw [hw.1]
      exact hsender v ratchet hv

/-! #### Proposals -/

variable {I : Session M → Prop}

lemma always_collectProposals
    (hprocess : ∀ m, Always I (onGroup (M := M) ProcessProposalsError.noGroup .processMessage
      (M.processMessage m)))
    (expected : UInt64 → Bool) (remaining : Bytes) (validated : List QueuedProposal)
    (adds : Bool) : Always I (collectProposals expected remaining validated adds) := by
  fun_induction collectProposals expected remaining validated adds with
  | case1 => exact always_pure _
  | case2 => exact always_throw _
  | case3 remaining validated adds _ message rest _ ih =>
    refine always_bind (always_ofResult _ _) fun m => always_bind (hprocess m) fun processed => ?_
    split
    · exact always_bind (always_ofResult _ _) fun isAdd => ih _ isAdd
    · exact always_throw _

lemma always_revokeProposals
    (hremove : ∀ r, Always I (onGroup (M := M) ProcessProposalsError.noGroup .removePendingProposal
      (M.removePendingProposal r)))
    (remaining : Bytes) : Always I (revokeProposals remaining) := by
  fun_induction revokeProposals (M := M) remaining with
  | case1 => exact always_pure _
  | case2 => exact always_throw _
  | case3 _ _ r _ _ ih => exact always_bind (hremove r) fun _ => ih

lemma always_applyProposals
    (hprocess : ∀ m, Always I (onGroup (M := M) ProcessProposalsError.noGroup .processMessage
      (M.processMessage m)))
    (hstore : ∀ q, Always I (onGroup (M := M) ProcessProposalsError.noGroup .storePendingProposal
      (M.storePendingProposal q)))
    (hremove : ∀ r, Always I (onGroup (M := M) ProcessProposalsError.noGroup .removePendingProposal
      (M.removePendingProposal r)))
    (operation : ProposalsOperation) (proposals : Bytes) (expected : UInt64 → Bool) :
    Always I (applyProposals operation proposals expected) := by
  cases operation with
  | append =>
    refine always_bind (always_collectProposals hprocess expected proposals [] false) fun _ => ?_
    exact always_bind (ends_forM hstore _) fun _ => always_pure _
  | revoke => exact always_bind (always_revokeProposals hremove proposals) fun _ => always_pure _

end Rules

end Cacophony.DaveSession
