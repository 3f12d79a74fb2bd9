import Cacophony.Basic
import Cacophony.Runs

/-!
The DAVE part of the voice gateway's state, `DaveInternalState` of `state.rs`, and its event
handlers.

The gateway prepares a protocol, names the transition that will switch to it, and executes
the transition. The state keeps the prepared protocol in `phase` and the protocol of the
media itself in `active`; `sendRequiresDave` reads both.
-/

namespace Cacophony.Gateway

/-- A protocol as the gateway names it. DAVE versions are nonzero: version `0` is the plain
transport. -/
inductive DaveProtocolState
  | unknown
  | transport
  | dave (version : { v : UInt16 // v ≠ 0 })
  deriving DecidableEq

namespace DaveProtocolState

def fromPrepared (protocolVersion : UInt16) : DaveProtocolState :=
  if h : protocolVersion = 0 then transport else dave ⟨protocolVersion, h⟩

def fromGateway (protocolVersion : Option UInt16) : DaveProtocolState :=
  protocolVersion.elim unknown fromPrepared

def gatewayVersion : DaveProtocolState → Option UInt16
  | unknown => none
  | transport => some 0
  | dave v => some v

def isDave : DaveProtocolState → Bool
  | dave _ => true
  | _ => false

def isTransportOrUnknown (p : DaveProtocolState) : Bool := !p.isDave

/-- The test `gateway_version().unwrap_or(0) > 0` of the source. -/
lemma gatewayVersion_pos (p : DaveProtocolState) :
    0 < p.gatewayVersion.getD 0 ↔ p.isDave = true := by
  rcases p with _ | _ | ⟨v, hv⟩
  · decide
  · decide
  · simpa [gatewayVersion, isDave] using UInt16.pos_iff_ne_zero.mpr hv

@[simp] lemma gatewayVersion_eq_none {p : DaveProtocolState} :
    p.gatewayVersion = none ↔ p = unknown := by
  cases p <;> simp [gatewayVersion]

@[simp] lemma isDave_fromPrepared (v : UInt16) : (fromPrepared v).isDave = true ↔ v ≠ 0 := by
  unfold fromPrepared
  split <;> simp_all [isDave]

lemma isDave_fromGateway (v : Option UInt16) :
    (fromGateway v).isDave = true ↔ ∃ x, v = some x ∧ x ≠ 0 := by
  rcases v with _ | v
  · simp [fromGateway, isDave]
  · simp [fromGateway, isDave_fromPrepared]

end DaveProtocolState

structure DaveActiveMediaState where
  send : DaveProtocolState := .unknown
  receive : DaveProtocolState := .unknown
  deriving DecidableEq

namespace DaveActiveMediaState

def setBoth (protocol : DaveProtocolState) : DaveActiveMediaState := ⟨protocol, protocol⟩
def sendProtocol (a : DaveActiveMediaState) : Option UInt16 := a.send.gatewayVersion
def receiveProtocol (a : DaveActiveMediaState) : Option UInt16 := a.receive.gatewayVersion
def sendActive (a : DaveActiveMediaState) : Bool := a.send.isDave
def receiveActive (a : DaveActiveMediaState) : Bool := a.receive.isDave

end DaveActiveMediaState

/-- Where the negotiation stands. -/
inductive DaveGatewayPhase
  | unknown
  | session (protocol : DaveProtocolState)
  | preparedTransition (transitionId : UInt16) (protocol : DaveProtocolState)
  | preparedEpoch (protocol : DaveProtocolState) (epoch seq : UInt64)
      (transitionId : Option UInt16)
  deriving DecidableEq

namespace DaveGatewayPhase

def protocol : DaveGatewayPhase → DaveProtocolState
  | unknown => .unknown
  | session p => p
  | preparedTransition _ p => p
  | preparedEpoch p _ _ _ => p

def protocolVersion (p : DaveGatewayPhase) : Option UInt16 := p.protocol.gatewayVersion

def transitionId : DaveGatewayPhase → Option UInt16
  | preparedTransition t _ => some t
  | preparedEpoch _ _ _ t => t
  | unknown => none
  | session _ => none

def epoch : DaveGatewayPhase → Option UInt64
  | preparedEpoch _ e _ _ => some e
  | _ => none

def prepareEpochSeq : DaveGatewayPhase → UInt64
  | preparedEpoch _ _ s _ => s
  | _ => 0

def withTransitionId (p : DaveGatewayPhase) (t : UInt16) : DaveGatewayPhase :=
  match p with
  | preparedEpoch q e s _ => preparedEpoch q e s (some t)
  | _ => preparedTransition t p.protocol

def withoutTransition (p : DaveGatewayPhase) (t : UInt16) : DaveGatewayPhase :=
  if p.transitionId ≠ some t then p
  else
    match p with
    | preparedEpoch q e s _ => preparedEpoch q e s none
    | preparedTransition _ q => session q
    | _ => p

@[simp] lemma protocol_withTransitionId (p : DaveGatewayPhase) (t : UInt16) :
    (p.withTransitionId t).protocol = p.protocol := by
  cases p <;> rfl

@[simp] lemma transitionId_withTransitionId (p : DaveGatewayPhase) (t : UInt16) :
    (p.withTransitionId t).transitionId = some t := by
  cases p <;> rfl

@[simp] lemma protocol_withoutTransition (p : DaveGatewayPhase) (t : UInt16) :
    (p.withoutTransition t).protocol = p.protocol := by
  unfold withoutTransition
  split
  · rfl
  · cases p <;> rfl

lemma transitionId_withoutTransition {p : DaveGatewayPhase} {t : UInt16}
    (h : p.transitionId = some t) : (p.withoutTransition t).transitionId = none := by
  cases p <;> simp_all [withoutTransition, transitionId]

end DaveGatewayPhase

inductive DaveMlsMessageKind
  | commit
  | welcome
  deriving DecidableEq

structure DaveMlsMessageIdentity where
  kind : DaveMlsMessageKind
  seq : Int
  transitionId : UInt16
  deriving DecidableEq

structure PendingDaveMlsMessage where
  identity : DaveMlsMessageIdentity
  payload : Bytes
  deriving DecidableEq

/-- One slot a kind of MLS message. -/
structure DaveMlsSlots (α : Type) where
  commit : Option α := none
  welcome : Option α := none
  deriving DecidableEq

namespace DaveMlsSlots

variable {α : Type}

def isEmpty (s : DaveMlsSlots α) : Bool := s.commit.isNone && s.welcome.isNone

def get (s : DaveMlsSlots α) : DaveMlsMessageKind → Option α
  | .commit => s.commit
  | .welcome => s.welcome

def set (s : DaveMlsSlots α) (kind : DaveMlsMessageKind) (value : α) : DaveMlsSlots α :=
  match kind with
  | .commit => { s with commit := some value }
  | .welcome => { s with welcome := some value }

def welcomeThenCommit (s : DaveMlsSlots α) : List α := s.welcome.toList ++ s.commit.toList

def setMessage (s : DaveMlsSlots PendingDaveMlsMessage) (m : PendingDaveMlsMessage) :
    DaveMlsSlots PendingDaveMlsMessage := s.set m.identity.kind m

end DaveMlsSlots

structure DaveInternalState where
  phase : DaveGatewayPhase := .unknown
  active : DaveActiveMediaState := {}
  externalSender : Option Bytes := none
  proposals : List Bytes := []
  pendingMls : DaveMlsSlots PendingDaveMlsMessage := {}
  deriving DecidableEq

namespace DaveInternalState

def protocolVersion (s : DaveInternalState) : Option UInt16 := s.phase.protocolVersion
def activeSendProtocolVersion (s : DaveInternalState) : Option UInt16 := s.active.sendProtocol
def transitionId (s : DaveInternalState) : Option UInt16 := s.phase.transitionId
def epoch (s : DaveInternalState) : Option UInt64 := s.phase.epoch
def prepareEpochSeq (s : DaveInternalState) : UInt64 := s.phase.prepareEpochSeq

def clearPendingMls (s : DaveInternalState) : DaveInternalState :=
  { s with proposals := [], pendingMls := {} }

def setSessionProtocol (s : DaveInternalState) (protocolVersion : Option UInt16) :
    DaveInternalState :=
  let protocol := DaveProtocolState.fromGateway protocolVersion
  let s := if s.phase.protocol ≠ protocol then s.clearPendingMls else s
  let s := { s with phase := .session protocol }
  if protocol.isTransportOrUnknown then { s with active := .setBoth protocol } else s

def executeTransition (s : DaveInternalState) (transitionId : UInt16) : DaveInternalState :=
  let s := if s.transitionId = some transitionId then
      { s with
        active := .setBoth s.phase.protocol
        phase := s.phase.withoutTransition transitionId }
    else s
  s.clearPendingMls

def prepareTransition (s : DaveInternalState) (transitionId protocolVersion : UInt16) :
    DaveInternalState :=
  let s := if s.transitionId ≠ some transitionId then s.clearPendingMls else s
  let protocol := DaveProtocolState.fromPrepared protocolVersion
  let s := { s with phase :=
    match s.phase with
    | .preparedEpoch _ epoch seq _ => .preparedEpoch protocol epoch seq (some transitionId)
    | _ => .preparedTransition transitionId protocol }
  -- the reset of a sole member: transition `0` of epoch `1` gets no execute event
  if s.epoch = some 1 ∧ transitionId = 0 ∧ protocol.isDave then s.executeTransition transitionId
  else s

def prepareEpoch (s : DaveInternalState) (protocolVersion : UInt16) (epoch : UInt64) :
    DaveInternalState :=
  -- `saturating_add(1)`
  let seq := if s.prepareEpochSeq = UInt64.ofNat (2 ^ 64 - 1) then s.prepareEpochSeq
    else s.prepareEpochSeq + 1
  let s := if epoch = 1 ∨ s.epoch ≠ some epoch then s.clearPendingMls else s
  { s with phase := .preparedEpoch (.fromPrepared protocolVersion) epoch seq s.transitionId }

def setPendingMlsMessage (s : DaveInternalState) (m : PendingDaveMlsMessage) :
    DaveInternalState :=
  let s := if s.transitionId ≠ some m.identity.transitionId then s.clearPendingMls else s
  { s with
    phase := s.phase.withTransitionId m.identity.transitionId
    pendingMls := s.pendingMls.setMessage m }

def transitionZeroDavePending (s : DaveInternalState) : Bool :=
  s.transitionId = some 0 && 0 < s.protocolVersion.getD 0

def initialDaveNegotiationPending (s : DaveInternalState) : Bool :=
  s.activeSendProtocolVersion.isNone && 0 < s.protocolVersion.getD 0

def sendRequiresDave (s : DaveInternalState) : Bool :=
  s.active.sendActive || s.transitionZeroDavePending || s.initialDaveNegotiationPending

def gatewayMediaReady (s : DaveInternalState) : Bool :=
  s.transitionId.isNone && s.pendingMls.isEmpty && s.proposals.isEmpty

def transitionZeroMediaReady (s : DaveInternalState) (transitionReady : Option UInt16) : Bool :=
  s.transitionId = some 0 && transitionReady = some 0

end DaveInternalState

/-- The gateway events that reach the DAVE state, each with the payload the handler passes
on: `handle_text_event` and `handle_voice_binary_event` of `gateway.rs`. -/
inductive GatewayEvent
  | sessionDescription (protocolVersion : Option UInt16)
  | prepareTransition (transitionId protocolVersion : UInt16)
  | prepareEpoch (protocolVersion : UInt16) (epoch : UInt64)
  | executeTransition (transitionId : UInt16)
  | mlsMessage (message : PendingDaveMlsMessage)
  | proposals (payload : Bytes)
  | externalSender (payload : Bytes)
  deriving DecidableEq

open DaveInternalState in
def handle (s : DaveInternalState) : GatewayEvent → DaveInternalState
  | .sessionDescription v => s.setSessionProtocol v
  | .prepareTransition t v => s.prepareTransition t v
  | .prepareEpoch v e => s.prepareEpoch v e
  | .executeTransition t => s.executeTransition t
  | .mlsMessage m => s.setPendingMlsMessage m
  | .proposals p => { s with proposals := s.proposals ++ [p] }
  | .externalSender p => { s with externalSender := some p }

end Cacophony.Gateway
