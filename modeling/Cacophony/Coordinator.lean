import Mathlib.Data.Finset.Basic
import Cacophony.Gateway
import Cacophony.Progs

/-!
`DaveCoordinator` of `dave.rs`: the part of a connection that follows the gateway's DAVE state
with an MLS session.

The session itself is a parameter, given by the operations the coordinator calls on it. A pump
is a program over the coordinator, the commands it has collected and the list of what it did;
the last of these is not in the source and is only read by the theorems.
-/

namespace Cacophony.Coordinator

open Gateway Progs

inductive ProposalsOperation
  | append
  | revoke
  deriving DecidableEq

/-- Durations are in milliseconds. -/
inductive PassthroughMode
  | enabled
  | disabledAfter (transitionExpiry : ℕ)
  deriving DecidableEq

def davePlaintextReceiveGrace : ℕ := 10000

structure CommitWelcome where
  commit : Bytes
  welcome : Option Bytes

/-- The operations of `dave::Session` that the coordinator uses, over session values `σ` and
errors `ε`. An operation that fails may still have changed the session; `new` sees the old
session only so that an instance can keep its source of randomness in it. -/
structure Session (σ ε : Type) where
  new : σ → Except ε σ
  setExternalSender : Bytes → σ → Except ε Unit × σ
  createKeyPackage : σ → Except ε Bytes × σ
  processProposals :
    ProposalsOperation → Bytes → Finset UInt64 → σ → Except ε (Option CommitWelcome) × σ
  processCommit : Bytes → σ → Except ε Unit × σ
  processWelcome : Bytes → σ → Except ε Unit × σ
  activateStagedSender : σ → Bool × σ
  setPassthroughMode : PassthroughMode → σ → σ
  receiveReady : σ → Bool

inductive DaveProposalsPayloadError
  | missingOperation
  | invalidOperation (operation : UInt8)
  deriving DecidableEq

inductive DaveError (ε : Type)
  | invalidProtocolVersion (version : UInt16)
  | createSession (error : ε)
  | setExternalSender (error : ε)
  | createKeyPackage (error : ε)
  | invalidProposalsPayload (error : DaveProposalsPayloadError)
  | processCommit (error : ε)
  | processWelcome (error : ε)
  | recoverInvalidGroup (operation : String) (original recovery : DaveError ε)
  deriving DecidableEq

inductive GatewayCommand
  | daveProtocolTransitionReady (transitionId : UInt16)
  | daveMlsKeyPackage (keyPackage : Bytes)
  | daveMlsCommitWelcome (commit : Bytes) (welcome : Option Bytes)
  | daveMlsInvalidCommitWelcome (transitionId : UInt16)
  deriving DecidableEq

structure DavePreparedEpoch where
  epoch : UInt64
  protocolVersion : UInt16
  seq : UInt64
  deriving DecidableEq

def DavePreparedEpoch.fromState (dave : DaveInternalState) : Option DavePreparedEpoch := do
  let protocolVersion ← dave.protocolVersion
  if protocolVersion = 0 then none
  else
    let epoch ← dave.epoch
    some ⟨epoch, protocolVersion, dave.prepareEpochSeq⟩

inductive DaveKeyPackageScope
  | session (protocolVersion : UInt16)
  | epoch (prepared : DavePreparedEpoch)
  deriving DecidableEq

def DaveKeyPackageScope.fromState (dave : DaveInternalState)
    (preparedEpoch : Option DavePreparedEpoch) : Option DaveKeyPackageScope :=
  match preparedEpoch with
  | some p => if p.epoch = 1 then some (.epoch p) else fromVersion
  | none => fromVersion
where
  fromVersion : Option DaveKeyPackageScope := do
    let protocolVersion ← dave.protocolVersion
    if 0 < protocolVersion then some (.session protocolVersion) else none

def DaveProposalsOperation.parse :
    Bytes → Except DaveProposalsPayloadError (ProposalsOperation × Bytes)
  | [] => .error .missingOperation
  | 0 :: proposals => .ok (.append, proposals)
  | 1 :: proposals => .ok (.revoke, proposals)
  | other :: _ => .error (.invalidOperation other)

def operationLabel : DaveMlsMessageKind → String
  | .commit => "commit processing"
  | .welcome => "welcome processing"

structure DaveCoordinator (σ : Type) where
  session : σ
  externalSenderSet : Bool := false
  sentKeyPackageFor : Option DaveKeyPackageScope := none
  processedProposals : ℕ := 0
  processedMls : DaveMlsSlots PendingDaveMlsMessage := {}
  transitionReady : Option UInt16 := none
  preparedEpoch : Option DavePreparedEpoch := none
  -- `DavePassthroughController::last_applied`
  lastApplied : Option PassthroughMode := none

/-- What a pump does: its calls on the session with their success, and the recoveries it
completes. -/
inductive Action
  | replaceSession (ok : Bool)
  | setExternalSender (ok : Bool)
  | createKeyPackage (ok : Bool)
  | processProposals (payload : Bytes) (ok : Bool)
  | processMls (message : PendingDaveMlsMessage) (ok : Bool)
  | recovered (message : PendingDaveMlsMessage)
  | activateStagedSender (switched : Bool)
  | setPassthroughMode (mode : PassthroughMode)
  deriving DecidableEq

structure Pump (σ : Type) where
  coord : DaveCoordinator σ
  commands : List GatewayCommand := []
  actions : List Action := []

abbrev PumpM (σ ε : Type) := Prog (Pump σ) (DaveError ε)

section Steps

variable {σ ε α : Type} (S : Session σ ε) (dave : DaveInternalState)

/-- A call on the session. -/
def call (f : σ → α × σ) (action : α → Action) : PumpM σ ε α :=
  modifyGet fun w =>
    let r := f w.coord.session
    (r.1, { w with
      coord := { w.coord with session := r.2 }
      actions := w.actions ++ [action r.1] })

def orThrow (wrap : ε → DaveError ε) : Except ε α → PumpM σ ε α
  | .ok a => pure a
  | .error e => throw (wrap e)

def update (f : DaveCoordinator σ → DaveCoordinator σ) : PumpM σ ε Unit :=
  modify fun w => { w with coord := f w.coord }

def push (command : GatewayCommand) : PumpM σ ε Unit :=
  modify fun w => { w with commands := w.commands ++ [command] }

def note (action : Action) : PumpM σ ε Unit :=
  modify fun w => { w with actions := w.actions ++ [action] }

/-- `DavePassthroughController::force_apply` -/
def forceApply (mode : PassthroughMode) : PumpM σ ε Unit := do
  call (fun s => ((), S.setPassthroughMode mode s)) fun _ => .setPassthroughMode mode
  update fun c => { c with lastApplied := some mode }

/-- `DavePassthroughController::apply` -/
def setPassthroughMode (mode : PassthroughMode) : PumpM σ ε Unit := do
  let w ← get
  if w.coord.lastApplied = some mode then pure () else forceApply S mode

/-- `DavePassthroughController::allow_for` -/
def allowPlaintextReceiveGrace : PumpM σ ε Unit := do
  call (fun s => ((), S.setPassthroughMode .enabled s)) fun _ => .setPassthroughMode .enabled
  forceApply S (.disabledAfter davePlaintextReceiveGrace)

def activateSenderIfTransitionExecuted : PumpM σ ε Unit :=
  if dave.transitionId = none ∧ 0 < dave.activeSendProtocolVersion.getD 0 then do
    let switched ← call S.activateStagedSender .activateStagedSender
    if switched then update fun c => { c with transitionReady := none } else pure ()
  else pure ()

def activateSenderIfTransitionZeroReady : PumpM σ ε Unit := do
  let w ← get
  if dave.transitionZeroMediaReady w.coord.transitionReady then do
    let _ ← call S.activateStagedSender .activateStagedSender
  else pure ()

def markTransitionReady (transitionId protocolVersion : Option UInt16) : PumpM σ ε Unit := do
  let w ← get
  match transitionId with
  | none => pure ()
  | some t =>
    if w.coord.transitionReady = some t then pure ()
    else
      update fun c => { c with transitionReady := some t }
      if t = 0 then
        if 0 < protocolVersion.getD 0 then allowPlaintextReceiveGrace S else pure ()
      else push (.daveProtocolTransitionReady t)

/-- Version `1` is the only `DaveProtocolVersion`. -/
def replaceSession (protocolVersion : UInt16) : PumpM σ ε Unit :=
  if protocolVersion ≠ 1 then throw (.invalidProtocolVersion protocolVersion)
  else do
    let r ← call (fun s => match S.new s with
      | .ok s' => (.ok (), s')
      | .error e => (.error e, s)) fun r => .replaceSession r.toBool
    orThrow .createSession r
    update fun c => { c with lastApplied := none, externalSenderSet := false }

def syncPreparedEpoch : PumpM σ ε Unit := do
  let w ← get
  let preparedEpoch := DavePreparedEpoch.fromState dave
  if w.coord.preparedEpoch = preparedEpoch then pure ()
  else
    preparedEpoch.forM fun p => do
      update fun c => { c with
        sentKeyPackageFor := none, processedProposals := 0, processedMls := {} }
      if p.epoch = 1 ∧ ¬ S.receiveReady w.coord.session then
        update fun c => { c with transitionReady := none }
        replaceSession S p.protocolVersion
      else pure ()
    update fun c => { c with preparedEpoch := preparedEpoch }

def setExternalSender (externalSender : Bytes) : PumpM σ ε Unit := do
  let r ← call (S.setExternalSender externalSender) fun r => .setExternalSender r.toBool
  orThrow .setExternalSender r
  update fun c => { c with externalSenderSet := true }

def sendKeyPackage (scope : DaveKeyPackageScope) : PumpM σ ε Unit := do
  let r ← call S.createKeyPackage fun r => .createKeyPackage r.toBool
  let keyPackage ← orThrow .createKeyPackage r
  push (.daveMlsKeyPackage keyPackage)
  update fun c => { c with sentKeyPackageFor := some scope }

def recoverAfterInvalidGroup : PumpM σ ε Unit :=
  match dave.protocolVersion with
  | none => pure ()
  | some protocolVersion =>
    if protocolVersion = 0 then setPassthroughMode S .enabled
    else do
      replaceSession S protocolVersion
      dave.externalSender.forM (setExternalSender S)
      let w ← get
      (DaveKeyPackageScope.fromState dave w.coord.preparedEpoch).forM (sendKeyPackage S)
      update fun c => { c with processedProposals := dave.proposals.length }

/-- The call of `process_commit` or `process_welcome`, by the kind of the message. -/
def handMls (message : PendingDaveMlsMessage) : PumpM σ ε (Except (DaveError ε) Unit) :=
  match message.identity.kind with
  | .commit => call (fun s => let r := S.processCommit message.payload s
      (r.1.mapError .processCommit, r.2)) fun r => .processMls message r.toBool
  | .welcome => call (fun s => let r := S.processWelcome message.payload s
      (r.1.mapError .processWelcome, r.2)) fun r => .processMls message r.toBool

def processMlsMessage (message : PendingDaveMlsMessage) : PumpM σ ε Unit := do
  let w ← get
  if w.coord.processedMls.get message.identity.kind = some message then pure ()
  else
    let result ← handMls S message
    update fun c => { c with processedMls := c.processedMls.setMessage message }
    match result with
    | .ok () => markTransitionReady S dave.transitionId dave.protocolVersion
    | .error error => do
      dave.transitionId.forM fun t => push (.daveMlsInvalidCommitWelcome t)
      tryCatch (recoverAfterInvalidGroup S dave) fun recovery =>
        throw (.recoverInvalidGroup (operationLabel message.identity.kind) error recovery)
      note (.recovered message)
      throw error

/-- The body of the loop over the proposals payloads that were not processed before. -/
def processProposals (connectedUserIds : Finset UInt64) (payload : Bytes) : PumpM σ ε Unit :=
  match DaveProposalsOperation.parse payload with
  | .error e => throw (.invalidProposalsPayload e)
  | .ok (operation, proposals) => do
    let r ← call (S.processProposals operation proposals connectedUserIds) fun r =>
      .processProposals payload r.toBool
    (r.toOption.join).forM fun cw => push (.daveMlsCommitWelcome cw.commit cw.welcome)
    update fun c => { c with processedProposals := c.processedProposals + 1 }

/-- The part of `pump` behind the external sender. -/
def pumpGroup (connectedUserIds : Finset UInt64) (rosterAuthoritative : Bool) :
    PumpM σ ε Unit := do
  activateSenderIfTransitionExecuted S dave
  update fun c =>
    if dave.proposals.length < c.processedProposals then { c with processedProposals := 0 } else c
  let w ← get
  if w.coord.processedProposals < dave.proposals.length ∧ ¬ rosterAuthoritative then pure ()
  else
    (dave.proposals.drop w.coord.processedProposals).forM (processProposals S connectedUserIds)
    dave.pendingMls.welcomeThenCommit.forM (processMlsMessage S dave)
    activateSenderIfTransitionZeroReady S dave
    activateSenderIfTransitionExecuted S dave

/-- `DaveCoordinator::pump`, without the events it gives to the observer. -/
def pump (connectedUserIds : Finset UInt64) (rosterAuthoritative : Bool) : PumpM σ ε Unit := do
  syncPreparedEpoch S dave
  activateSenderIfTransitionExecuted S dave
  if dave.protocolVersion.getD 0 = 0 then
    setPassthroughMode S .enabled
    markTransitionReady S dave.transitionId dave.protocolVersion
  else
    setPassthroughMode S (.disabledAfter davePlaintextReceiveGrace)
    let w ← get
    dave.externalSender.forM fun externalSender =>
      if w.coord.externalSenderSet then pure () else setExternalSender S externalSender
    let w ← get
    (DaveKeyPackageScope.fromState dave w.coord.preparedEpoch).forM fun scope =>
      if w.coord.sentKeyPackageFor = some scope then pure () else sendKeyPackage S scope
    let w ← get
    if w.coord.externalSenderSet then pumpGroup S dave connectedUserIds rosterAuthoritative
    else pure ()

/-- What `pump` returns to the driver: the collected commands, or the error alone. -/
def pumpResult (connectedUserIds : Finset UInt64) (rosterAuthoritative : Bool)
    (coord : DaveCoordinator σ) : Except (DaveError ε) (List GatewayCommand) × Pump σ :=
  let (r, w) := exec (pump S dave connectedUserIds rosterAuthoritative) { coord := coord }
  (r.map fun _ => w.commands, w)

end Steps

/-- `ConnectionDriver::pump_dave`: the commands that reach the gateway when the socket takes
`limit` of them before it fails. -/
def pumpDave {ε : Type} (limit : ℕ) (result : Except (DaveError ε) (List GatewayCommand)) :
    List GatewayCommand :=
  match result with
  | .error _ => []
  | .ok commands => commands.take limit

end Cacophony.Coordinator
