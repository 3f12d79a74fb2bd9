import Cacophony.FrameCodecs

/-!
Outbound RTP, `media.rs` and `connection/send.rs`: headers, the transport encryption, and the
streams of a connection.

Each stream numbers its packets and counts the nonces of its encryptions. The nonce is built
from a 32-bit suffix alone, which starts at a random value and is sent behind the packet.
-/

namespace Cacophony.Transport

open Cacophony.Frame FrameCodecs

def rtpVersion : UInt8 := 2
def rtpsizeNonceLen : ℕ := 4
def videoClockRateHz : ℕ := 90000
def opusSampleRateHz : ℕ := 48000

/-- `DiscordCodecDescriptor`, with the fields a packet needs. -/
structure DiscordCodecDescriptor where
  codec : Codec
  payloadType : UInt8
  clockRateHz : ℕ
  deriving DecidableEq

def descriptor : Codec → DiscordCodecDescriptor
  | .opus => ⟨.opus, 120, opusSampleRateHz⟩
  | .vp8 => ⟨.vp8, 107, videoClockRateHz⟩
  | .vp9 => ⟨.vp9, 109, videoClockRateHz⟩
  | .h264 => ⟨.h264, 103, videoClockRateHz⟩
  | .h265 => ⟨.h265, 105, videoClockRateHz⟩
  | .av1 => ⟨.av1, 101, videoClockRateHz⟩

inductive EncryptionMode
  | aeadAes256GcmRtpSize
  | aeadXChaCha20Poly1305RtpSize
  deriving DecidableEq

inductive SendError
  | emptyPayload (codec : Codec)
  | encryptFailed (mode : EncryptionMode)
  | nonceRandomnessUnavailable
  | missingVideoSsrc (codec : Codec)
  | mediaCodecNotNegotiated (codec negotiated : Codec)
  deriving DecidableEq

/-! ### Headers -/

structure RtpHeaderFields where
  seq : UInt16
  timestamp : UInt32
  ssrc : UInt32
  payloadType : UInt8
  deriving DecidableEq

structure RtpHeader where
  version : UInt8
  padding : Bool
  extension : Bool
  marker : Bool
  payloadType : UInt8
  seq : UInt16
  timestamp : UInt32
  ssrc : UInt32
  headerLen : ℕ
  encryptedBodyOffset : ℕ
  deriving DecidableEq

/-- `RtpHeaderBuilder::write_to`: the bytes. -/
def headerBytes (fields : RtpHeaderFields) (marker : Bool) : Bytes :=
  [rtpVersion <<< 6, fields.payloadType ||| if marker then 0x80 else 0] ++
    u16Be fields.seq.toNat ++ u32Be fields.timestamp.toNat ++ u32Be fields.ssrc.toNat

/-- `RtpHeaderBuilder::write_to`: the header they stand for. -/
def outboundHeader (fields : RtpHeaderFields) (marker : Bool) : RtpHeader where
  version := rtpVersion
  padding := false
  extension := false
  marker := marker
  payloadType := fields.payloadType
  seq := fields.seq
  timestamp := fields.timestamp
  ssrc := fields.ssrc
  headerLen := 12
  encryptedBodyOffset := 12

/-! ### Transport encryption -/

def EncryptionMode.nonceLen : EncryptionMode → ℕ
  | .aeadAes256GcmRtpSize => 12
  | .aeadXChaCha20Poly1305RtpSize => 24

def rtpsizeNonce (n : ℕ) (suffix : UInt32) : Bytes :=
  u32Be suffix.toNat ++ List.replicate (n - rtpsizeNonceLen) 0

/-- `TransportCrypto`: a mode, and its cipher under the key of the connection. The ciphers
refuse buffers of many gigabytes only. -/
structure TransportCrypto where
  mode : EncryptionMode
  encryptInPlaceDetached : (nonce aad payload : Bytes) → Option (Bytes × Bytes)
  isSome_encrypt : ∀ nonce aad payload, (encryptInPlaceDetached nonce aad payload).isSome

structure OutboundEncryptParams where
  header : RtpHeaderFields
  marker : Bool
  nonceSuffix : UInt32
  deriving DecidableEq

def TransportCrypto.encryptPayload (T : TransportCrypto) (params : OutboundEncryptParams)
    (frame : Bytes) : Except SendError (RtpHeader × Bytes) :=
  let aad := headerBytes params.header params.marker
  match T.encryptInPlaceDetached (rtpsizeNonce T.mode.nonceLen params.nonceSuffix) aad frame with
  | none => .error (.encryptFailed T.mode)
  | some (payload, tag) => .ok (outboundHeader params.header params.marker,
      aad ++ payload ++ tag ++ u32Be params.nonceSuffix.toNat)

/-! ### Streams -/

structure OutboundCodecBinding where
  ssrc : UInt32
  descriptor : DiscordCodecDescriptor
  deriving DecidableEq

def OutboundCodecBinding.new (codec : Codec) (ssrc : UInt32) : OutboundCodecBinding :=
  ⟨ssrc, Transport.descriptor codec⟩

structure OutboundRtpState where
  seq : UInt16 := 0
  timestamp : UInt32 := 0
  nonceSuffix : UInt32
  binding : OutboundCodecBinding
  deriving DecidableEq

/-- `OutboundPacket`, with the bytes that are sent. -/
structure OutboundPacket where
  rtp : RtpHeader
  nonceSuffix : UInt32
  payloadBytes : ℕ
  packet : Bytes
  deriving DecidableEq

/-- Durations are in nanoseconds. -/
def timestampIncrement (sampleRate duration : ℕ) : UInt32 :=
  UInt32.ofNat (min (max (sampleRate * duration / 10 ^ 9) 1) (2 ^ 32 - 1))

namespace OutboundRtpState

/-- `new`; the random source gives `draw`. -/
def new (binding : OutboundCodecBinding) (draw : Option UInt32) :
    Except SendError OutboundRtpState :=
  match draw with
  | none => .error .nonceRandomnessUnavailable
  | some nonceSuffix => .ok { nonceSuffix, binding }

def codec (s : OutboundRtpState) : Codec := s.binding.descriptor.codec

/-- The parameters of the next call of `encrypt_payload`. -/
def encryptParams (s : OutboundRtpState) (marker : Bool) : OutboundEncryptParams where
  header := ⟨s.seq, s.timestamp, s.binding.ssrc, s.binding.descriptor.payloadType⟩
  marker := marker
  nonceSuffix := s.nonceSuffix

/-- The counters move on when a packet was encrypted. -/
def advance (s : OutboundRtpState) (marker : Bool) (duration : ℕ) : OutboundRtpState :=
  { s with
    seq := s.seq + 1
    timestamp :=
      if s.codec.mediaType = .audio ∨ marker then
        s.timestamp + timestampIncrement s.binding.descriptor.clockRateHz duration
      else s.timestamp
    nonceSuffix := s.nonceSuffix + 1 }

def buildPacket (T : TransportCrypto) (s : OutboundRtpState) (frame : Bytes) (marker : Bool)
    (duration : ℕ) : Except SendError OutboundPacket × OutboundRtpState :=
  if frame.isEmpty then (.error (.emptyPayload s.codec), s)
  else
    let params := s.encryptParams marker
    match T.encryptPayload params frame with
    | .error error => (.error error, s)
    | .ok (rtp, packet) =>
      (.ok ⟨rtp, params.nonceSuffix, frame.length, packet⟩, s.advance marker duration)

/-- The loop of `send_ready_media_frame` over the packets that it comes to build. The last
component lists the calls of `encrypt_payload`. -/
def sendPackets (T : TransportCrypto) (duration : ℕ) : Option OutboundPacket →
    List (Bytes × Bool) → OutboundRtpState →
    Except SendError (Option OutboundPacket) × OutboundRtpState × List OutboundEncryptParams
  | lastPacket, [], s => (.ok lastPacket, s, [])
  | _, (payload, marker) :: packets, s =>
    let called := if payload.isEmpty then [] else [s.encryptParams marker]
    match s.buildPacket T payload marker duration with
    | (.error error, s) => (.error error, s, called)
    | (.ok packet, s) =>
      let (result, s, calls) := sendPackets T duration (some packet) packets s
      (result, s, called ++ calls)

/-- `send_ready_media_frame` on its stream. -/
def sendFrame (T : TransportCrypto) (s : OutboundRtpState) (codec : Codec)
    (packets : List (Bytes × Bool)) (duration : ℕ) :
    Except SendError OutboundPacket × OutboundRtpState × List OutboundEncryptParams :=
  if s.codec ≠ codec then (.error (.mediaCodecNotNegotiated codec s.codec), s, [])
  else
    match s.sendPackets T duration none packets with
    | (.error error, s, calls) => (.error error, s, calls)
    | (.ok none, s, calls) => (.error (.emptyPayload codec), s, calls)
    | (.ok (some packet), s, calls) => (.ok packet, s, calls)

end OutboundRtpState

/-! ### The pipeline -/

structure SendPipeline where
  outboundAudioRtp : OutboundRtpState
  outboundVideoRtp : Option OutboundRtpState
  deriving DecidableEq

/-- `NegotiatedVideoMedia`. -/
structure NegotiatedVideoMedia where
  codec : Codec
  ssrc : UInt32
  deriving DecidableEq

def NegotiatedVideoMedia.binding (video : NegotiatedVideoMedia) : OutboundCodecBinding :=
  .new video.codec video.ssrc

namespace SendPipeline

/-- `new`. The negotiated video stream, if there is one, makes the second draw. -/
def new (audioSsrc : UInt32) (video : Option NegotiatedVideoMedia)
    (audioDraw videoDraw : Option UInt32) : Except SendError SendPipeline := do
  let audio ← OutboundRtpState.new (.new .opus audioSsrc) audioDraw
  match video with
  | none => return ⟨audio, none⟩
  | some video =>
    let rtp ← OutboundRtpState.new video.binding videoDraw
    return ⟨audio, some rtp⟩

/-- A stream with another SSRC, or one that was missing, is started anew; when that fails the
old one stays. -/
def updateNegotiatedMedia (p : SendPipeline) (video : Option NegotiatedVideoMedia)
    (draw : Option UInt32) : Except SendError Unit × SendPipeline :=
  match video with
  | none => (.ok (), { p with outboundVideoRtp := none })
  | some video =>
    match p.outboundVideoRtp.filter fun rtp => rtp.binding.ssrc = video.ssrc with
    | some rtp =>
      (.ok (), { p with outboundVideoRtp := some { rtp with binding := video.binding } })
    | none =>
      match OutboundRtpState.new video.binding draw with
      | .error error => (.error error, p)
      | .ok rtp => (.ok (), { p with outboundVideoRtp := some rtp })

/-- `send_ready_media_frame`: the frame goes out on the stream of its kind of media. -/
def sendReadyMediaFrame (T : TransportCrypto) (p : SendPipeline) (codec : Codec)
    (packets : List (Bytes × Bool)) (duration : ℕ) :
    Except SendError OutboundPacket × SendPipeline × List OutboundEncryptParams :=
  match codec.mediaType with
  | .audio =>
    let (result, rtp, calls) := p.outboundAudioRtp.sendFrame T codec packets duration
    (result, { p with outboundAudioRtp := rtp }, calls)
  | .video =>
    match p.outboundVideoRtp with
    | none => (.error (.missingVideoSsrc codec), p, [])
    | some rtp =>
      let (result, rtp, calls) := rtp.sendFrame T codec packets duration
      (result, { p with outboundVideoRtp := some rtp }, calls)

end SendPipeline

end Cacophony.Transport
