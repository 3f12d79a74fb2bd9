import Mathlib.Data.List.AList
import Cacophony.PendingMedia
import Cacophony.Progs

/-!
The events of the voice gateway and what they change in a connection, `gateway.rs` and
`ConnectionInternalState` of `state.rs`.

A text event is JSON. Which value a text stands for, and whether a value has the shape that an
event needs, is up to the library that reads it, `Serde`. A binary event is a sequence number, an
opcode and a payload. A handler that fails leaves the state it has reached.
-/

namespace Cacophony.GatewayEvents

open Cacophony.Frame FrameCodecs Transport Gateway
open PendingMedia Progs

/-! ### Opcodes -/

inductive Opcode
  | identify
  | selectProtocol
  | ready
  | heartbeat
  | sessionDescription
  | speaking
  | heartbeatAck
  | resume
  | hello
  | resumed
  | clientsConnect
  | clientConnect
  | clientDisconnect
  | sessionUpdate
  | davePrepareTransition
  | daveExecuteTransition
  | daveTransitionReady
  | davePrepareEpoch
  | daveMlsExternalSender
  | daveMlsKeyPackage
  | daveMlsProposals
  | daveMlsCommitWelcome
  | daveMlsAnnounceCommitTransition
  | daveMlsWelcome
  | daveMlsInvalidCommitWelcome
  deriving DecidableEq

namespace Opcode

def byte : Opcode → UInt8
  | identify => 0
  | selectProtocol => 1
  | ready => 2
  | heartbeat => 3
  | sessionDescription => 4
  | speaking => 5
  | heartbeatAck => 6
  | resume => 7
  | hello => 8
  | resumed => 9
  | clientsConnect => 11
  | clientConnect => 12
  | clientDisconnect => 13
  | sessionUpdate => 14
  | davePrepareTransition => 21
  | daveExecuteTransition => 22
  | daveTransitionReady => 23
  | davePrepareEpoch => 24
  | daveMlsExternalSender => 25
  | daveMlsKeyPackage => 26
  | daveMlsProposals => 27
  | daveMlsCommitWelcome => 28
  | daveMlsAnnounceCommitTransition => 29
  | daveMlsWelcome => 30
  | daveMlsInvalidCommitWelcome => 31

def all : List Opcode :=
  [identify, selectProtocol, ready, heartbeat, sessionDescription, speaking, heartbeatAck, resume,
    hello, resumed, clientsConnect, clientConnect, clientDisconnect, sessionUpdate,
    davePrepareTransition, daveExecuteTransition, daveTransitionReady, davePrepareEpoch,
    daveMlsExternalSender, daveMlsKeyPackage, daveMlsProposals, daveMlsCommitWelcome,
    daveMlsAnnounceCommitTransition, daveMlsWelcome, daveMlsInvalidCommitWelcome]

def code (opcode : Opcode) : UInt64 := opcode.byte.toUInt64

def fromByte (byte : UInt8) : Option Opcode := all.find? fun opcode => opcode.byte = byte

def fromCode (code : UInt64) : Option Opcode :=
  if code.toNat < 2 ^ 8 then fromByte code.toUInt8 else none

def isServerBinary : Opcode → Bool
  | daveMlsExternalSender | daveMlsProposals | daveMlsAnnounceCommitTransition | daveMlsWelcome =>
    true
  | _ => false

def fromServerBinary (byte : UInt8) : Option Opcode := (fromByte byte).filter isServerBinary

end Opcode

/-! ### Codecs -/

/-- The names of `DISCORD_CODECS`. -/
def wireName : Codec → String
  | .opus => "opus"
  | .vp8 => "VP8"
  | .vp9 => "VP9"
  | .h264 => "H264"
  | .h265 => "H265"
  | .av1 => "AV1"

def discordCodecs : List Codec := [.opus, .av1, .h265, .h264, .vp8, .vp9]

/-- `audio_codec` and `video_codec`; `toLower` is the one of ASCII. -/
def codecNamed (mediaType : MediaType) (name : String) : Option Codec :=
  discordCodecs.find? fun codec =>
    codec.mediaType = mediaType && name.toLower = (wireName codec).toLower

def audioCodec : String → Option Codec := codecNamed .audio
def videoCodec : String → Option Codec := codecNamed .video

inductive Error
  | json
  | unsupportedAudioCodec (codec : String)
  | unsupportedVideoCodec (codec : String)
  | missingSessionDescription
  | payloadTooShort (opcode : UInt8) (len minLen : ℕ)
  | nonceRandomnessUnavailable
  | webSocket
  | closed
  deriving DecidableEq

/-- The mode and the key of the transport; a key has 32 bytes. -/
structure TransportCryptoConfig where
  mode : EncryptionMode
  secretKey : { key : Bytes // key.length = 32 }

structure SessionDescription where
  transportCrypto : TransportCryptoConfig
  audioCodec : Option String
  videoCodec : Option String
  daveProtocolVersion : Option UInt16

structure DiscordRtpCodecMap where
  payloadCodecs : UInt8 → Option Codec := fun _ => none
  expectedPayloadTypes : List UInt8 := []

namespace DiscordRtpCodecMap

def insertCodec (m : DiscordRtpCodecMap) (codec : Codec) : DiscordRtpCodecMap where
  payloadCodecs := Function.update m.payloadCodecs (descriptor codec).payloadType (some codec)
  expectedPayloadTypes := m.expectedPayloadTypes ++ [(descriptor codec).payloadType]

/-- The codec of the audio, when the description names none or one that is known. -/
def describedAudio (description : SessionDescription) : Except Error Codec :=
  match description.audioCodec with
  | none => .ok .opus
  | some name => (audioCodec name).elim (.error (.unsupportedAudioCodec name)) .ok

def checkVideo (description : SessionDescription) : Except Error Unit :=
  match description.videoCodec with
  | none => .ok ()
  | some name => (videoCodec name).elim (.error (.unsupportedVideoCodec name)) fun _ => .ok ()

def new (description : SessionDescription) (codecPreferences : List Codec) :
    Except Error DiscordRtpCodecMap := do
  let audio ← describedAudio description
  checkVideo description
  return (audio :: codecPreferences).foldl insertCodec {}

end DiscordRtpCodecMap

/-! ### Events -/

structure ParsedVoiceGatewayEvent (υ : Type) where
  opcode : UInt64
  seq : Option ℤ
  data : υ

structure SessionUpdateEvent where
  audioCodec : Option String
  videoCodec : Option String

structure DavePrepareTransitionEvent where
  protocolVersion : UInt16
  transitionId : UInt16

structure DaveExecuteTransitionEvent where
  transitionId : UInt16

structure DavePrepareEpochEvent where
  protocolVersion : UInt16
  epoch : UInt64

structure SpeakingUpdate where
  speaking : UInt64
  ssrc : UInt32
  userId : Option UInt64
  deriving DecidableEq

structure ClientsConnectEvent where
  userIds : List UInt64

structure ClientConnectEvent where
  userId : UInt64
  audioSsrc : Option UInt32
  ssrc : Option UInt32

/-- `ClientConnectEvent::ssrc` -/
def ClientConnectEvent.mediaSsrc (e : ClientConnectEvent) : Option UInt32 := e.audioSsrc.or e.ssrc

structure ClientDisconnectEvent where
  userId : UInt64

/-- The JSON library: `parse_event_text` for a text, and `parse_data` at each type that a handler
reads the data of an event as. `none` is an error. -/
structure Serde (τ υ : Type) where
  parseEventText : τ → Option (ParsedVoiceGatewayEvent υ)
  hello : υ → Option Unit
  ready : υ → Option Unit
  sessionDescription : υ → Option SessionDescription
  sessionUpdate : υ → Option SessionUpdateEvent
  davePrepareTransition : υ → Option DavePrepareTransitionEvent
  daveExecuteTransition : υ → Option DaveExecuteTransitionEvent
  davePrepareEpoch : υ → Option DavePrepareEpochEvent
  speaking : υ → Option SpeakingUpdate
  clientsConnect : υ → Option ClientsConnectEvent
  clientConnect : υ → Option ClientConnectEvent
  clientDisconnect : υ → Option ClientDisconnectEvent

/-! ### The state of a connection -/

abbrev SsrcUsers := AList fun _ : UInt32 => UInt64

/-- `ConnectionInternalState`, with what the events read and change. -/
structure ConnectionInternalState where
  codecPreferences : List Codec
  lastSeq : Option ℤ
  sessionDescription : Option SessionDescription
  rtpCodecs : Option DiscordRtpCodecMap
  connectedUserIds : Finset UInt64
  ssrcUsers : SsrcUsers
  speaking : AList fun _ : UInt32 => SpeakingUpdate
  dave : DaveInternalState
  rosterAuthoritative : Bool
  resumed : Bool

structure GatewayEventEffects where
  disconnectedUserIds : List UInt64 := []
  removedSsrcs : List UInt32 := []
  retryDavePendingMedia : DavePendingMediaRetry := ⟨0⟩
  allowPlaintextReceiveGrace : Bool := false
  transportCrypto : Option TransportCryptoConfig := none
  mediaSessionUpdated : Bool := false

/-- `DavePendingMediaRetry::include` -/
def including (retry other : DavePendingMediaRetry) : DavePendingMediaRetry :=
  ⟨retry.bits ||| other.bits⟩

/-- The SSRCs of a user, which `retain` takes out and notes. -/
def SsrcUsers.ssrcsOf (m : SsrcUsers) (userId : UInt64) : List UInt32 :=
  (m.entries.filter fun e => e.2 = userId).map (·.1)

/-- `retain`, for the SSRCs of all other users. -/
def SsrcUsers.without (m : SsrcUsers) (userId : UInt64) : SsrcUsers where
  entries := m.entries.filter fun e => e.2 ≠ userId
  nodupKeys := m.nodupKeys.sublist List.filter_sublist

/-- A handler of events. -/
abbrev Handler := Prog ConnectionInternalState Error

/-- `if let Some(seq) = event.seq { last_seq = Some(seq) }` -/
def noteSeq (seq : Option ℤ) : Handler Unit :=
  modify fun state => { state with lastSeq := seq.or state.lastSeq }

def updateDave (event : GatewayEvent) : Handler Unit :=
  modify fun state => { state with dave := handle state.dave event }

def parseData {υ α : Type} (parse : υ → Option α) (data : υ) : Handler α :=
  match parse data with
  | some value => pure value
  | none => throw .json

/-! ### Text events -/

/-- A description takes effect: its codecs are known. -/
def describe (description : SessionDescription) : Handler Unit := do
  let state ← get
  let rtpCodecs ← ofResult id (DiscordRtpCodecMap.new description state.codecPreferences)
  modify fun state =>
    { state with sessionDescription := some description, rtpCodecs := some rtpCodecs }

def onSessionDescription (description : SessionDescription) : Handler GatewayEventEffects := do
  describe description
  updateDave (.sessionDescription description.daveProtocolVersion)
  return { transportCrypto := some description.transportCrypto
           mediaSessionUpdated := true
           retryDavePendingMedia := .daveState }

/-- The description with the codecs of an update. -/
def SessionDescription.updated (description : SessionDescription) (update : SessionUpdateEvent) :
    SessionDescription :=
  { description with
    audioCodec := update.audioCodec.or description.audioCodec
    videoCodec := update.videoCodec.or description.videoCodec }

def redescribe (update : SessionUpdateEvent) : Handler GatewayEventEffects := do
  let state ← get
  match state.sessionDescription with
  | none => throw .missingSessionDescription
  | some description =>
    describe (description.updated update)
    return { mediaSessionUpdated := true }

def onSessionUpdate (update : SessionUpdateEvent) : Handler GatewayEventEffects :=
  if update.audioCodec.isSome || update.videoCodec.isSome then redescribe update
  else pure {}

def onResumed : Handler GatewayEventEffects := do
  modify fun state => { state with resumed := true }
  return {}

def onPrepareTransition (transition : DavePrepareTransitionEvent) :
    Handler GatewayEventEffects := do
  updateDave (.prepareTransition transition.transitionId transition.protocolVersion)
  return { retryDavePendingMedia := .daveState }

def onExecuteTransition (transition : DaveExecuteTransitionEvent) :
    Handler GatewayEventEffects := do
  let state ← get
  let allowPlaintextReceiveGrace :=
    state.dave.transitionId = some transition.transitionId &&
      state.dave.active.receiveProtocol.getD 0 = 0 && 0 < state.dave.protocolVersion.getD 0
  updateDave (.executeTransition transition.transitionId)
  return { allowPlaintextReceiveGrace, retryDavePendingMedia := .daveState }

def onPrepareEpoch (epoch : DavePrepareEpochEvent) : Handler GatewayEventEffects := do
  updateDave (.prepareEpoch epoch.protocolVersion epoch.epoch)
  return { retryDavePendingMedia := .daveState }

def onSpeaking (update : SpeakingUpdate) : Handler GatewayEventEffects := do
  modify fun state => { state with
    ssrcUsers := update.userId.elim state.ssrcUsers fun userId =>
      state.ssrcUsers.insert update.ssrc userId
    speaking := state.speaking.insert update.ssrc update }
  return { retryDavePendingMedia := .missingUser }

def onClientsConnect (clients : ClientsConnectEvent) : Handler GatewayEventEffects := do
  modify fun state => { state with
    rosterAuthoritative := true
    connectedUserIds := state.connectedUserIds ∪ clients.userIds.toFinset }
  return { retryDavePendingMedia := .daveState }

def onClientConnect (client : ClientConnectEvent) : Handler GatewayEventEffects := do
  modify fun state => { state with
    rosterAuthoritative := true
    connectedUserIds := insert client.userId state.connectedUserIds
    ssrcUsers := client.mediaSsrc.elim state.ssrcUsers fun ssrc =>
      state.ssrcUsers.insert ssrc client.userId }
  return { retryDavePendingMedia := including .missingUser .daveState }

/-- The entries of `speaking` are not looked at. -/
def onClientDisconnect (disconnect : ClientDisconnectEvent) : Handler GatewayEventEffects := do
  let state ← get
  modify fun state => { state with
    rosterAuthoritative := true
    connectedUserIds := state.connectedUserIds.erase disconnect.userId
    ssrcUsers := state.ssrcUsers.without disconnect.userId }
  return { disconnectedUserIds := [disconnect.userId]
           removedSsrcs := state.ssrcUsers.ssrcsOf disconnect.userId
           retryDavePendingMedia := .daveState }

section Text

variable {τ υ : Type} (J : Serde τ υ)

def handleTextEvent (event : ParsedVoiceGatewayEvent υ) : Handler GatewayEventEffects :=
  match Opcode.fromCode event.opcode with
  | some .sessionDescription => parseData J.sessionDescription event.data >>= onSessionDescription
  | some .sessionUpdate => parseData J.sessionUpdate event.data >>= onSessionUpdate
  | some .resumed => onResumed
  | some .davePrepareTransition =>
    parseData J.davePrepareTransition event.data >>= onPrepareTransition
  | some .daveExecuteTransition =>
    parseData J.daveExecuteTransition event.data >>= onExecuteTransition
  | some .davePrepareEpoch => parseData J.davePrepareEpoch event.data >>= onPrepareEpoch
  | some .speaking => parseData J.speaking event.data >>= onSpeaking
  | some .clientsConnect => parseData J.clientsConnect event.data >>= onClientsConnect
  | some .clientConnect => parseData J.clientConnect event.data >>= onClientConnect
  | some .clientDisconnect => parseData J.clientDisconnect event.data >>= onClientDisconnect
  | _ => pure {}

end Text

/-! ### Binary events -/

structure BinaryEvent where
  seq : ℤ
  opcode : Opcode
  payload : Bytes

def BinaryEvent.parse : Bytes → Option BinaryEvent
  | first :: second :: opcode :: payload =>
    (Opcode.fromServerBinary opcode).map fun opcode =>
      ⟨(first.toNat * 2 ^ 8 + second.toNat : ℕ), opcode, payload⟩
  | _ => none

/-- `DaveTransitionBinaryPayload::parse` and `pending_message` -/
def BinaryEvent.mlsMessage (event : BinaryEvent) (kind : DaveMlsMessageKind) :
    Except Error PendingDaveMlsMessage :=
  match event.payload with
  | high :: low :: body =>
    .ok ⟨⟨kind, event.seq, UInt16.ofNat (high.toNat * 2 ^ 8 + low.toNat)⟩, body⟩
  | payload => .error (.payloadTooShort event.opcode.byte payload.length 2)

def onMlsMessage (event : BinaryEvent) (kind : DaveMlsMessageKind) :
    Handler GatewayEventEffects := do
  let message ← ofResult id (event.mlsMessage kind)
  updateDave (.mlsMessage message)
  return { retryDavePendingMedia := .daveState }

/-- What an event does once its number is noted. -/
def onBinaryEvent (event : BinaryEvent) : Handler GatewayEventEffects :=
  match event.opcode with
  | .daveMlsExternalSender => do
    updateDave (.externalSender event.payload)
    return { retryDavePendingMedia := .daveState }
  | .daveMlsProposals => do
    updateDave (.proposals event.payload)
    return { retryDavePendingMedia := .daveState }
  | .daveMlsAnnounceCommitTransition => onMlsMessage event .commit
  | .daveMlsWelcome => onMlsMessage event .welcome
  | _ => pure {}

def handleVoiceBinaryEvent (bytes : Bytes) : Handler GatewayEventEffects :=
  match BinaryEvent.parse bytes with
  | none => pure {}
  | some event => do
    noteSeq (some event.seq)
    onBinaryEvent event

/-! ### What the handlers write -/

/-- The number of a state, and the users that it names. -/
structure Known where
  lastSeq : Option ℤ
  connectedUserIds : Finset UInt64
  ssrcUsers : SsrcUsers
  speaking : AList fun _ : UInt32 => SpeakingUpdate

def ConnectionInternalState.known (state : ConnectionInternalState) : Known :=
  ⟨state.lastSeq, state.connectedUserIds, state.ssrcUsers, state.speaking⟩

namespace Known

def note (k : Known) (seq : Option ℤ) : Known := { k with lastSeq := seq.or k.lastSeq }

def speak (k : Known) (update : SpeakingUpdate) : Known :=
  { k with
    ssrcUsers := update.userId.elim k.ssrcUsers fun userId => k.ssrcUsers.insert update.ssrc userId
    speaking := k.speaking.insert update.ssrc update }

def connectAll (k : Known) (clients : ClientsConnectEvent) : Known :=
  { k with connectedUserIds := k.connectedUserIds ∪ clients.userIds.toFinset }

def connect (k : Known) (client : ClientConnectEvent) : Known :=
  { k with
    connectedUserIds := insert client.userId k.connectedUserIds
    ssrcUsers := client.mediaSsrc.elim k.ssrcUsers fun ssrc =>
      k.ssrcUsers.insert ssrc client.userId }

def disconnect (k : Known) (client : ClientDisconnectEvent) : Known :=
  { k with
    connectedUserIds := k.connectedUserIds.erase client.userId
    ssrcUsers := k.ssrcUsers.without client.userId }

/-- What is known after a text event. -/
def hear {τ υ : Type} (J : Serde τ υ) (event : ParsedVoiceGatewayEvent υ) (k : Known) : Known :=
  match Opcode.fromCode event.opcode with
  | some .speaking => (J.speaking event.data).elim k k.speak
  | some .clientsConnect => (J.clientsConnect event.data).elim k k.connectAll
  | some .clientConnect => (J.clientConnect event.data).elim k k.connect
  | some .clientDisconnect => (J.clientDisconnect event.data).elim k k.disconnect
  | _ => k

/-- The number is noted apart from the event. -/
lemma lastSeq_hear {τ υ : Type} (J : Serde τ υ) (event : ParsedVoiceGatewayEvent υ) (k : Known) :
    (k.hear J event).lastSeq = k.lastSeq := by
  unfold hear
  split
  · cases J.speaking event.data <;> rfl
  · cases J.clientsConnect event.data <;> rfl
  · cases J.clientConnect event.data <;> rfl
  · cases J.clientDisconnect event.data <;> rfl
  · rfl

end Known

section Writes

open ConnectionInternalState

variable {α β : Type} {R : Known → Known → Prop}

lemma moves_noteSeq (seq : Option ℤ) :
    Moves known (noteSeq seq) fun k k' => k' = k.note seq :=
  moves_modify fun _ => rfl

lemma keeps_updateDave (event : GatewayEvent) : Keeps known (updateDave event) :=
  moves_modify fun _ => rfl

/-- Data that cannot be read ends a handler, and nothing has changed. -/
lemma moves_parseData_bind {υ : Type} (parse : υ → Option α) (data : υ) {f : α → Handler β}
    (h : ∀ a, parse data = some a → Moves known (f a) R) :
    Moves known (parseData parse data >>= f) R := by
  unfold parseData
  split
  next value hvalue =>
    rw [pure_bind]
    exact h value hvalue
  · intro w b w' heq
    simp at heq

lemma keeps_ofResult (r : Except Error α) : Keeps known (ofResult id r : Handler α) := by
  cases r with
  | ok a => exact keeps_pure a
  | error e => exact moves_throw e

/-- The handlers end by returning their effects. -/
lemma moves_return {x : Handler Unit} (h : Moves known x R) (effects : GatewayEventEffects) :
    Moves known (do x; return effects) R := by
  refine h.bind (fun _ => keeps_pure effects) fun u v v' hv hv' => ?_
  rwa [hv']

lemma moves_modify_return {f : ConnectionInternalState → ConnectionInternalState}
    (h : ∀ state, R state.known (f state).known) (effects : GatewayEventEffects) :
    Moves known (do modify f; return effects : Handler _) R :=
  moves_return (moves_modify h) effects

lemma keeps_describe (description : SessionDescription) : Keeps known (describe description) := by
  refine moves_get_bind fun state => ?_
  refine Moves.mono ((keeps_ofResult _).bind fun rtpCodecs => ?_) fun _ _ h _ => h
  exact moves_modify fun _ => rfl

lemma keeps_redescribe (update : SessionUpdateEvent) : Keeps known (redescribe update) := by
  refine moves_get_bind fun state => ?_
  split
  · exact moves_throw _
  · exact (moves_return (keeps_describe _) _).mono fun _ _ h _ => h

variable {τ υ : Type} {J : Serde τ υ}

/-- **What a text event writes.** -/
lemma moves_handleTextEvent (event : ParsedVoiceGatewayEvent υ) :
    Moves known (handleTextEvent J event) fun k k' => k' = k.hear J event := by
  unfold handleTextEvent Known.hear
  generalize Opcode.fromCode event.opcode = opcode
  split
  · refine moves_parseData_bind _ _ fun description _ => ?_
    exact (keeps_describe description).bind fun _ => moves_return (keeps_updateDave _) _
  · refine moves_parseData_bind _ _ fun update _ => ?_
    unfold onSessionUpdate
    split
    · exact keeps_redescribe update
    · exact keeps_pure _
  · exact moves_modify_return (by intro state; rfl) _
  · exact moves_parseData_bind _ _ fun _ _ => moves_return (keeps_updateDave _) _
  · refine moves_parseData_bind _ _ fun _ _ => moves_get_bind fun state => ?_
    exact (moves_return (keeps_updateDave _) _).mono fun _ _ h _ => h
  · exact moves_parseData_bind _ _ fun _ _ => moves_return (keeps_updateDave _) _
  · refine moves_parseData_bind _ _ fun update hupdate => ?_
    rw [hupdate]
    exact moves_modify_return (by intro state; rfl) _
  · refine moves_parseData_bind _ _ fun clients hclients => ?_
    rw [hclients]
    exact moves_modify_return (by intro state; rfl) _
  · refine moves_parseData_bind _ _ fun client hclient => ?_
    rw [hclient]
    exact moves_modify_return (by intro state; rfl) _
  · refine moves_parseData_bind _ _ fun client hclient => moves_get_bind fun state => ?_
    rw [hclient]
    exact (moves_modify_return (by intro state; rfl) _).mono fun _ _ h _ => h
  next _ _ _ _ _ _ hspeaking hclients hclient hgone =>
    refine (keeps_pure _).mono fun k k' hk => hk.trans ?_
    split
    · exact absurd rfl hspeaking
    · exact absurd rfl hclients
    · exact absurd rfl hclient
    · exact absurd rfl hgone
    · rfl

lemma keeps_onBinaryEvent (event : BinaryEvent) : Keeps known (onBinaryEvent event) := by
  have hmls (kind : DaveMlsMessageKind) : Keeps known (onMlsMessage event kind) :=
    (keeps_ofResult _).bind fun _ => moves_return (keeps_updateDave _) _
  unfold onBinaryEvent
  split
  · exact moves_return (keeps_updateDave _) _
  · exact moves_return (keeps_updateDave _) _
  · exact hmls .commit
  · exact hmls .welcome
  · exact keeps_pure _

/-- A binary event writes its number if it is recognised. -/
lemma moves_handleVoiceBinaryEvent (bytes : Bytes) :
    Moves known (handleVoiceBinaryEvent bytes) fun k k' =>
      k' = k.note ((BinaryEvent.parse bytes).map (·.seq)) := by
  unfold handleVoiceBinaryEvent
  split
  next hparse =>
    rw [hparse]
    exact keeps_pure _
  next event hparse =>
    rw [hparse]
    refine (moves_noteSeq _).bind (fun _ => keeps_onBinaryEvent event) fun u v v' hv hv' => ?_
    rw [hv', hv]
    rfl

end Writes

/-! ### Texts that need no parsing -/

/-- The values of the events about sessions and users. -/
inductive Payload
  | null
  | description (description : SessionDescription)
  | speaking (update : SpeakingUpdate)
  | clients (clients : ClientsConnectEvent)
  | client (client : ClientConnectEvent)
  | disconnect (disconnect : ClientDisconnectEvent)

def plainSerde : Serde (ParsedVoiceGatewayEvent Payload) Payload where
  parseEventText := some
  hello _ := some ()
  ready _ := some ()
  sessionDescription
    | .description description => some description
    | _ => none
  sessionUpdate _ := none
  davePrepareTransition _ := none
  daveExecuteTransition _ := none
  davePrepareEpoch _ := none
  speaking
    | .speaking update => some update
    | _ => none
  clientsConnect
    | .clients clients => some clients
    | _ => none
  clientConnect
    | .client client => some client
    | _ => none
  clientDisconnect
    | .disconnect disconnect => some disconnect
    | _ => none

def plainDescription : SessionDescription where
  transportCrypto := ⟨.aeadAes256GcmRtpSize, ⟨List.replicate 32 0, List.length_replicate⟩⟩
  audioCodec := none
  videoCodec := none
  daveProtocolVersion := none

end Cacophony.GatewayEvents
