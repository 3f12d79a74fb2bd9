import Cacophony.Basic

/-!
What `session.rs` sees of OpenMLS, and the policy it checks groups and commits against.

A group is given by its members, its context and what is pending in it; the rest of it, the
storage and the cryptography are parameters. An operation that fails may still have changed the
group and the provider.
-/

namespace Cacophony.Mls

structure Credential where
  credentialType : UInt16
  serializedContent : Bytes
  deriving DecidableEq

/-- `CredentialType::Basic` -/
def credentialBasic : UInt16 := 1

structure Capabilities where
  versions : List UInt16
  ciphersuites : List UInt16
  extensions : List UInt16
  proposals : List UInt16
  credentials : List UInt16
  deriving DecidableEq

structure LeafNode where
  credential : Credential
  -- the types of its extensions
  extensions : List UInt16
  capabilities : Capabilities
  deriving DecidableEq

structure Member where
  index : ℕ
  credential : Credential
  deriving DecidableEq

structure ExternalSender where
  signatureKey : Bytes
  credential : Credential
  deriving DecidableEq

inductive Extension
  | externalSenders (senders : List ExternalSender)
  | other (extensionType : UInt16)
  deriving DecidableEq

structure GroupContext where
  protocolVersion : UInt16
  ciphersuite : UInt16
  extensions : List Extension
  deriving DecidableEq

inductive Sender
  | member (leafIndex : ℕ)
  | external (index : ℕ)
  | newMemberProposal
  | newMemberCommit
  deriving DecidableEq

inductive Proposal
  | add (leafNode : LeafNode)
  | remove (removed : ℕ)
  | other (proposalType : UInt16)
  deriving DecidableEq

structure QueuedProposal where
  proposal : Proposal
  sender : Sender
  -- its `ProposalRef`
  reference : Bytes
  -- sent as a reference, not inline
  isReference : Bool
  deriving DecidableEq

structure StagedCommit where
  queuedProposals : List QueuedProposal
  updatePathLeafNode : Option LeafNode
  groupContext : GroupContext
  deriving DecidableEq

namespace StagedCommit

def addProposals (c : StagedCommit) : List LeafNode :=
  c.queuedProposals.filterMap fun q => match q.proposal with
    | .add leafNode => some leafNode
    | _ => none

def removeProposals (c : StagedCommit) : List ℕ :=
  c.queuedProposals.filterMap fun q => match q.proposal with
    | .remove removed => some removed
    | _ => none

end StagedCommit

/-! ### The policy -/

def mls10 : UInt16 := 1
/-- `MLS_128_DHKEMP256_AES128GCM_SHA256_P256` -/
def supportedCiphersuite : UInt16 := 2

def supportedCapabilities : Capabilities where
  versions := [mls10]
  ciphersuites := [supportedCiphersuite]
  extensions := []
  proposals := []
  credentials := [credentialBasic]

inductive CredentialPolicyError
  | unexpectedType (actual : UInt16)
  | userIdContent
  deriving DecidableEq

inductive GroupPolicyError
  | unexpectedProtocolVersion (actual : UInt16)
  | unexpectedCiphersuite (actual expected : UInt16)
  | unexpectedGroupExtensionCount (actual : ℕ)
  | missingExternalSenderExtension
  | invalidExternalSenderCount (count : ℕ)
  | unexpectedExternalSender
  | unexpectedLeafExtensionCount (actual : ℕ)
  | unexpectedLeafCapabilities
  | memberCredential (error : CredentialPolicyError)
  | duplicateMemberCredential (userId : UInt64)
  deriving DecidableEq

/-- `u64::from_be_bytes` -/
def u64OfBe (bytes : Bytes) : UInt64 :=
  bytes.foldl (fun n b => n * 256 + b.toUInt64) 0

def credentialUserId (c : Credential) : Except CredentialPolicyError UInt64 :=
  if c.credentialType ≠ credentialBasic then .error (.unexpectedType c.credentialType)
  else if c.serializedContent.length ≠ 8 then .error .userIdContent
  else .ok (u64OfBe c.serializedContent)

def validateLeafNodePolicy (leafNode : LeafNode) : Except GroupPolicyError Unit := do
  let _ ← (credentialUserId leafNode.credential).mapError .memberCredential
  if leafNode.extensions.length ≠ 0 then
    throw (.unexpectedLeafExtensionCount leafNode.extensions.length)
  if leafNode.capabilities ≠ supportedCapabilities then throw .unexpectedLeafCapabilities

/-- `Extensions::external_senders` -/
def externalSenders (extensions : List Extension) : Option (List ExternalSender) :=
  extensions.findSome? fun
    | .externalSenders senders => some senders
    | .other _ => none

def validateGroupContextExtensions (extensions : List Extension) (externalSender : ExternalSender) :
    Except GroupPolicyError Unit :=
  if extensions.length ≠ 1 then .error (.unexpectedGroupExtensionCount extensions.length)
  else
    match externalSenders extensions with
    | none => .error .missingExternalSenderExtension
    | some [joinExternalSender] =>
      if joinExternalSender ≠ externalSender then .error .unexpectedExternalSender else .ok ()
    | some senders => .error (.invalidExternalSenderCount senders.length)

def validateGroupContextPolicy (context : GroupContext) (externalSender : ExternalSender) :
    Except GroupPolicyError Unit :=
  if context.protocolVersion ≠ mls10 then
    .error (.unexpectedProtocolVersion context.protocolVersion)
  else if context.ciphersuite ≠ supportedCiphersuite then
    .error (.unexpectedCiphersuite context.ciphersuite supportedCiphersuite)
  else validateGroupContextExtensions context.extensions externalSender

/-- The loop of `validate_group_member_policy`. -/
def memberPolicyFrom (seen : List UInt64) : List Credential → Except GroupPolicyError Unit
  | [] => .ok ()
  | credential :: credentials => do
    let userId ← (credentialUserId credential).mapError .memberCredential
    if userId ∈ seen then throw (.duplicateMemberCredential userId)
    memberPolicyFrom (userId :: seen) credentials

def validateGroupMemberPolicy (members : List Member) : Except GroupPolicyError Unit :=
  memberPolicyFrom [] (members.map Member.credential)

/-- The errors of the checks on a commit. -/
inductive CommitPolicyError
  | inlineProposal
  | unexpectedProposalType
  | unexpectedCommitSender
  | memberCredential (error : CredentialPolicyError)
  | groupPolicy (error : GroupPolicyError)
  deriving DecidableEq

def memberUserId (c : Credential) : Except CommitPolicyError UInt64 :=
  (credentialUserId c).mapError .memberCredential

/-- The loop of `ensure_distinct_user_ids`. -/
def distinctFrom (seen : List UInt64) : List UInt64 → Except CommitPolicyError Unit
  | [] => .ok ()
  | userId :: userIds =>
    if userId ∈ seen then .error (.groupPolicy (.duplicateMemberCredential userId))
    else distinctFrom (userId :: seen) userIds

def ensureDistinctUserIds (userIds : List UInt64) : Except CommitPolicyError Unit :=
  distinctFrom [] userIds

/-- The member whose leaf the update path replaces, with its new user id. -/
def updatePathMember (sender : Sender) (staged : StagedCommit) :
    Except CommitPolicyError (Option (ℕ × UInt64)) :=
  match staged.updatePathLeafNode with
  | none => .ok none
  | some leafNode =>
    match sender with
    | .member leafIndex => do
      let userId ← memberUserId leafNode.credential
      return some (leafIndex, userId)
    | _ => .error .unexpectedCommitSender

def validateResultingMemberCredentials (members : List Member) (sender : Sender)
    (staged : StagedCommit) : Except CommitPolicyError Unit := do
  let update ← updatePathMember sender staged
  let kept ← (members.filter fun m => m.index ∉ staged.removeProposals).mapM fun m =>
    match update with
    | some (leafIndex, userId) =>
      if leafIndex = m.index then pure userId else memberUserId m.credential
    | none => memberUserId m.credential
  let added ← staged.addProposals.mapM fun leafNode => memberUserId leafNode.credential
  ensureDistinctUserIds (kept ++ added)

/-- The body of the loop over the proposals of a commit. -/
def validateCommitProposal (q : QueuedProposal) : Except CommitPolicyError Unit :=
  if ¬ q.isReference then .error .inlineProposal
  else
    match q.proposal with
    | .add leafNode => (validateLeafNodePolicy leafNode).mapError .groupPolicy
    | .remove _ => .ok ()
    | .other _ => .error .unexpectedProposalType

def validateStagedCommit (members : List Member) (externalSender : ExternalSender)
    (sender : Sender) (staged : StagedCommit) : Except CommitPolicyError Unit := do
  staged.queuedProposals.forM validateCommitProposal
  staged.updatePathLeafNode.forM fun leafNode =>
    (validateLeafNodePolicy leafNode).mapError .groupPolicy
  (validateGroupContextPolicy staged.groupContext externalSender).mapError .groupPolicy
  validateResultingMemberCredentials members sender staged

/-! ### The groups of OpenMLS -/

/-- `MlsGroup`; `κ` is what `session.rs` does not look at. -/
structure MlsGroup (κ : Type) where
  members : List Member
  context : GroupContext
  ownLeafIndex : ℕ
  pendingProposals : List QueuedProposal
  pendingCommit : Option StagedCommit
  secrets : κ

def validateGroupPolicy {κ : Type} (group : MlsGroup κ) (externalSender : ExternalSender) :
    Except GroupPolicyError Unit := do
  if group.context.ciphersuite ≠ supportedCiphersuite then
    throw (.unexpectedCiphersuite group.context.ciphersuite supportedCiphersuite)
  validateGroupContextExtensions group.context.extensions externalSender
  validateGroupMemberPolicy group.members

/-- `StagedWelcome` -/
structure StagedWelcome (κ : Type) where
  context : GroupContext
  members : List Member
  secrets : κ

inductive ProcessedMessageContent
  | proposalMessage (proposal : QueuedProposal)
  | stagedCommitMessage (staged : StagedCommit)
  | other

structure ProcessedMessage where
  sender : Sender
  content : ProcessedMessageContent

/-- `ProcessMessageError`: the own commit is told from all others. -/
inductive ProcessMessageError (ε : Type)
  | ownCommit
  | other (error : ε)

/-- The types and operations of OpenMLS that `session.rs` uses, with the signer and the
configuration of the session in them. -/
structure OpenMls where
  Error : Type
  Provider : Type
  Secrets : Type
  MessageIn : Type
  ProtocolMessage : Type
  MessageOut : Type
  Welcome : Type
  deserializeExternalSender : Bytes → Except Error ExternalSender
  deserializeVlBytes : Bytes → Except Error Bytes
  deserializeMessage : Bytes → Except Error (MessageIn × Bytes)
  deserializeMessage_shorter :
    ∀ b m rest, deserializeMessage b = .ok (m, rest) → rest.length < b.length
  deserializeMessageExact : Bytes → Except Error MessageIn
  deserializeProposalRef : Bytes → Except Error (Bytes × Bytes)
  deserializeProposalRef_shorter :
    ∀ b r rest, deserializeProposalRef b = .ok (r, rest) → rest.length < b.length
  deserializeWelcome : Bytes → Except Error Welcome
  tryIntoProtocolMessage : MessageIn → Except Error ProtocolMessage
  groupId : ProtocolMessage → Bytes
  serialize : MessageOut → Except Error Bytes
  welcomeBody : MessageOut → Option MessageOut
  clearStorage : Provider → Bool × Provider
  newWithGroupId : ExternalSender → Bytes → Provider → Except Error (MlsGroup Secrets) × Provider
  delete : MlsGroup Secrets → Provider → Except Error Unit × Provider
  processMessage : ProtocolMessage → MlsGroup Secrets × Provider →
    Except (ProcessMessageError Error) ProcessedMessage × MlsGroup Secrets × Provider
  storePendingProposal : QueuedProposal → MlsGroup Secrets × Provider →
    Except Error Unit × MlsGroup Secrets × Provider
  removePendingProposal : Bytes → MlsGroup Secrets × Provider →
    Except Error Unit × MlsGroup Secrets × Provider
  clearPendingCommit : MlsGroup Secrets × Provider →
    Except Error Unit × MlsGroup Secrets × Provider
  commitToPendingProposals : MlsGroup Secrets × Provider →
    Except Error (MessageOut × Option MessageOut) × MlsGroup Secrets × Provider
  mergeStagedCommit : StagedCommit → MlsGroup Secrets × Provider →
    Except Error Unit × MlsGroup Secrets × Provider
  mergePendingCommit : MlsGroup Secrets × Provider →
    Except Error Unit × MlsGroup Secrets × Provider
  buildFromWelcome : Welcome → Provider → Except Error (StagedWelcome Secrets) × Provider
  intoGroup : StagedWelcome Secrets → Provider → Except Error (MlsGroup Secrets) × Provider
  exportSecret : MlsGroup Secrets → UInt64 → Except Error Bytes

end Cacophony.Mls
