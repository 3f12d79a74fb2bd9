import Cacophony.AnnexB
import Cacophony.FrameCodecs
import Cacophony.Leb128

/-!
RTP payload formats, `rtp_payload.rs`: how a frame is cut into payloads of at most 1200 bytes,
and what a payload says about the frame it belongs to.

A packetizer is a state that gives one payload after another, each with its marker. The parser
says of a payload whether it starts or completes a frame, and what it adds to the frame.
-/

namespace Cacophony.RtpPayload

open Leb128 AnnexB FrameCodecs

def rtpMediaPayloadMaxBytes : ℕ := 1200

inductive RtpError
  | payloadTooLarge (codec : Codec) (payloadLen maxPayloadLen : ℕ)
  | malformedPayload (codec : Codec) (reason : String)
  deriving DecidableEq

def malformed {α : Type} (codec : Codec) (reason : String) : Except RtpError α :=
  .error (.malformedPayload codec reason)

def flag (b : Bool) (bit : UInt8) : UInt8 := if b then bit else 0

/-! ### H.264 and H.265 units -/

/-- `H26xFragmentPayload`; the unit header is `nalu_header[..nalu_header_len]`. -/
structure H26xFragmentPayload where
  startsFragment : Bool
  completesFragment : Bool
  naluHeader : Bytes
  fragmentPayload : Bytes
  deriving DecidableEq

/-- The trait `H26xRtpPayload`. -/
structure H26xRtpPayload where
  codec : Codec
  frameCodec : H26xFrameCodec
  aggregationPayloadOffset : ℕ
  fragmentHeaderLen : ℕ
  unsupportedRtpNalUnitType : String
  fragmentPayload : Bytes → Except RtpError Bytes
  isAggregationNaluType : UInt8 → Bool
  isFragmentNaluType : UInt8 → Bool
  isSingleNaluType : UInt8 → Bool
  parseFragmentPayload : Bytes → Except RtpError H26xFragmentPayload
  rtpNaluType : Bytes → Except RtpError UInt8
  writeFragmentHeader : (nalu : Bytes) → (first last : Bool) → Except RtpError Bytes

def h264Rtp : H26xRtpPayload where
  codec := .h264
  frameCodec := FrameCodecs.h264
  aggregationPayloadOffset := 1
  fragmentHeaderLen := 2
  unsupportedRtpNalUnitType := "unsupported H264 RTP NAL unit type"
  fragmentPayload nalu :=
    if nalu.length < FrameCodecs.h264.nalHeaderBytes then malformed .h264 "empty H264 NAL unit"
    else .ok (nalu.drop FrameCodecs.h264.nalHeaderBytes)
  isAggregationNaluType naluType := naluType = 24
  isFragmentNaluType naluType := naluType = 28
  isSingleNaluType naluType := 1 ≤ naluType && naluType ≤ 23
  parseFragmentPayload
    | fuIndicator :: fuHeader :: body@(_ :: _) => .ok
      { startsFragment := fuHeader &&& 0x80 ≠ 0
        completesFragment := fuHeader &&& 0x40 ≠ 0
        naluHeader := [(fuIndicator &&& 0xe0) ||| (fuHeader &&& 0x1f)]
        fragmentPayload := body }
    | _ => malformed .h264 "truncated H264 FU-A payload"
  rtpNaluType
    | header :: _ => .ok (FrameCodecs.h264.nalType header)
    | [] => malformed .h264 "empty H264 payload"
  writeFragmentHeader nalu first last :=
    match nalu with
    | naluHeader :: _ => .ok [(naluHeader &&& 0xe0) ||| 28,
        flag first 0x80 ||| flag last 0x40 ||| (naluHeader &&& 0x1f)]
    | [] => malformed .h264 "empty H264 NAL unit"

def h265Rtp : H26xRtpPayload where
  codec := .h265
  frameCodec := FrameCodecs.h265
  aggregationPayloadOffset := 2
  fragmentHeaderLen := 3
  unsupportedRtpNalUnitType := "unsupported H265 RTP NAL unit type"
  fragmentPayload nalu :=
    if nalu.length < FrameCodecs.h265.nalHeaderBytes then
      malformed .h265 "truncated H265 NAL header"
    else .ok (nalu.drop FrameCodecs.h265.nalHeaderBytes)
  isAggregationNaluType naluType := naluType = 48
  isFragmentNaluType naluType := naluType = 49
  isSingleNaluType naluType := naluType ≤ 47
  parseFragmentPayload
    | fuIndicator :: layer :: fuHeader :: body@(_ :: _) => .ok
      { startsFragment := fuHeader &&& 0x80 ≠ 0
        completesFragment := fuHeader &&& 0x40 ≠ 0
        naluHeader :=
          [(fuIndicator &&& (0x81 : UInt8)) ||| ((fuHeader &&& (0x3f : UInt8)) <<< 1), layer]
        fragmentPayload := body }
    | _ => malformed .h265 "truncated H265 FU payload"
  rtpNaluType
    | header :: _ :: _ => .ok (FrameCodecs.h265.nalType header)
    | _ => malformed .h265 "truncated H265 payload header"
  writeFragmentHeader nalu first last :=
    match nalu with
    | naluHeader :: layer :: _ => .ok
      [(naluHeader &&& (0x81 : UInt8)) ||| ((49 : UInt8) <<< 1), layer,
        flag first 0x80 ||| flag last 0x40 ||| ((naluHeader &&& (0x7e : UInt8)) >>> 1)]
    | _ => malformed .h265 "truncated H265 NAL header"

def rtpFormat : H26x → H26xRtpPayload
  | .h264 => h264Rtp
  | .h265 => h265Rtp

/-! ### Packetizers

A step of a packetizer gives a payload, its marker and the state behind it, or nothing when the
frame is done. -/

structure H26xPacketizer where
  nalus : AnnexBNalus
  nalu : Option Bytes
  fragmentOffset : ℕ := 0

namespace H26xPacketizer

variable (C : H26xRtpPayload)

def new (frame : Bytes) : Except RtpError H26xPacketizer :=
  match (AnnexB.nalus frame).advance with
  | none => malformed C.codec "missing Annex B start code"
  | some (nalu, nalus) => .ok { nalus, nalu := some nalu }

/-- On to the next unit. -/
def nextNalu (s : H26xPacketizer) : H26xPacketizer :=
  match s.nalus.advance with
  | none => { s with nalu := none }
  | some (nalu, nalus) => { s with nalus, nalu := some nalu }

/-- The part of `next_payload` for a unit that does not fit into a payload. -/
def nextFragment (s : H26xPacketizer) (nalu : Bytes) :
    Except RtpError (Option (Bytes × Bool × H26xPacketizer)) := do
  if rtpMediaPayloadMaxBytes ≤ C.fragmentHeaderLen then
    throw (.payloadTooLarge C.codec nalu.length rtpMediaPayloadMaxBytes)
  let naluPayload ← C.fragmentPayload nalu
  let stop := min (s.fragmentOffset + (rtpMediaPayloadMaxBytes - C.fragmentHeaderLen))
    naluPayload.length
  let first := s.fragmentOffset = 0
  let last := stop = naluPayload.length
  let header ← C.writeFragmentHeader nalu first last
  return some (header ++ slice naluPayload s.fragmentOffset stop, s.nalus.isEmpty && last,
    if last then { s.nextNalu with fragmentOffset := 0 } else { s with fragmentOffset := stop })

def nextPayload (s : H26xPacketizer) : Except RtpError (Option (Bytes × Bool × H26xPacketizer)) :=
  match s.nalu with
  | none => .ok none
  | some nalu =>
    if nalu.length ≤ rtpMediaPayloadMaxBytes then .ok (some (nalu, s.nalus.isEmpty, s.nextNalu))
    else s.nextFragment C nalu

end H26xPacketizer

inductive FragmentedPayloadHeader
  | vp8
  | vp9
  deriving DecidableEq

namespace FragmentedPayloadHeader

def len : FragmentedPayloadHeader → ℕ
  | .vp8 => 1
  | .vp9 => 1

def write : FragmentedPayloadHeader → (first last : Bool) → Bytes
  | .vp8, first, _ => [flag first 0x10]
  | .vp9, first, last => [flag first 0x08 ||| flag last 0x04]

end FragmentedPayloadHeader

inductive RtpPayloadPacketizerState
  | single (frame : Bytes) (marker emitted : Bool)
  | fragmented (frame : Bytes) (offset : ℕ) (header : FragmentedPayloadHeader)
  | h264 (packetizer : H26xPacketizer)
  | h265 (packetizer : H26xPacketizer)
  | av1 (frame : Bytes) (obuStart obuEnd fragmentOffset : ℕ)
  | done

/-- What a step of a packetizer returns. -/
abbrev Step := Except RtpError (Option (Bytes × Bool × RtpPayloadPacketizerState))

def nextFragmentedPayload (codec : Codec) (frame : Bytes) (offset : ℕ)
    (header : FragmentedPayloadHeader) : Step :=
  if frame.length ≤ offset then .ok none
  else if rtpMediaPayloadMaxBytes ≤ header.len then
    .error (.payloadTooLarge codec frame.length rtpMediaPayloadMaxBytes)
  else
    let stop := min (offset + (rtpMediaPayloadMaxBytes - header.len)) frame.length
    let first := offset = 0
    let last := stop = frame.length
    .ok (some (header.write first last ++ slice frame offset stop, last,
      .fragmented frame stop header))

/-- Where the AV1 unit at `offset` ends. A sum that overflows is behind the end of the frame in
any case. -/
def av1ObuEnd (codec : Codec) (frame : Bytes) (offset : ℕ) : Except RtpError ℕ :=
  match frame[offset]? with
  | none => malformed codec "missing AV1 OBU header"
  | some header =>
    let index := offset + 1 + if header &&& 0x04 ≠ 0 then 1 else 0
    if frame.length < index then malformed codec "truncated AV1 OBU extension"
    else if header &&& 0x02 = 0 then .ok frame.length
    else
      match DecodedUleb128.read (frame.drop index) with
      | none => malformed codec "invalid AV1 OBU size"
      | some (payloadLen, n) =>
        if index + n + payloadLen ≤ frame.length then .ok (index + n + payloadLen)
        else malformed codec "truncated AV1 OBU payload"

/-- `next_av1_payload` once the end of the unit is known. -/
def nextAv1Fragment (frame : Bytes) (obuStart obuEnd fragmentOffset : ℕ) :
    Bytes × Bool × RtpPayloadPacketizerState :=
  let offset := obuStart + fragmentOffset
  let stop := min (offset + (rtpMediaPayloadMaxBytes - 1)) obuEnd
  let first := fragmentOffset = 0
  let lastFragment := stop = obuEnd
  let lastObu := obuEnd = frame.length
  ((flag (!first) 0x80 ||| flag (!lastFragment) 0x40 ||| 0x10) :: slice frame offset stop,
    lastObu && lastFragment,
    if lastFragment then .av1 frame obuEnd obuEnd 0
    else .av1 frame obuStart obuEnd (fragmentOffset + (stop - offset)))

def nextAv1Payload (codec : Codec) (frame : Bytes) (obuStart obuEnd fragmentOffset : ℕ) : Step :=
  if frame.length ≤ obuStart then .ok none
  else if rtpMediaPayloadMaxBytes ≤ 1 then
    .error (.payloadTooLarge codec frame.length rtpMediaPayloadMaxBytes)
  else if fragmentOffset = 0 then
    (av1ObuEnd codec frame obuStart).map fun obuEnd =>
      some (nextAv1Fragment frame obuStart obuEnd fragmentOffset)
  else .ok (some (nextAv1Fragment frame obuStart obuEnd fragmentOffset))

/-- `RtpPayloadPacketizer`. -/
structure RtpPayloadPacketizer where
  codec : Codec
  state : RtpPayloadPacketizerState

def packetizerState (frame : Bytes) : Codec → Except RtpError RtpPayloadPacketizerState
  | .opus => .ok (.single frame false false)
  | .vp8 => .ok (.fragmented frame 0 .vp8)
  | .vp9 => .ok (.fragmented frame 0 .vp9)
  | .h264 => (H26xPacketizer.new h264Rtp frame).map .h264
  | .h265 => (H26xPacketizer.new h265Rtp frame).map .h265
  | .av1 => .ok (.av1 frame 0 0 0)

namespace RtpPayloadPacketizer

def new (codec : Codec) (frame : Bytes) : Except RtpError RtpPayloadPacketizer :=
  if frame.isEmpty then malformed codec "empty encoded frame"
  else (packetizerState frame codec).map fun state => ⟨codec, state⟩

/-- A step of an H.26x packetizer as a step of the whole. -/
def wrap (r : Except RtpError (Option (Bytes × Bool × H26xPacketizer)))
    (state : H26xPacketizer → RtpPayloadPacketizerState) : Step :=
  r.map fun step => step.map fun (payload, marker, s) => (payload, marker, state s)

def nextState (codec : Codec) : RtpPayloadPacketizerState → Step
  | .single frame marker emitted =>
    if emitted then .ok none
    else if rtpMediaPayloadMaxBytes < frame.length then
      .error (.payloadTooLarge codec frame.length rtpMediaPayloadMaxBytes)
    else .ok (some (frame, marker, .single frame marker true))
  | .fragmented frame offset header => nextFragmentedPayload codec frame offset header
  | .h264 packetizer => wrap (packetizer.nextPayload h264Rtp) .h264
  | .h265 packetizer => wrap (packetizer.nextPayload h265Rtp) .h265
  | .av1 frame obuStart obuEnd fragmentOffset =>
    nextAv1Payload codec frame obuStart obuEnd fragmentOffset
  | .done => .ok none

/-- `next`. A packetizer without a further payload is done, and so it stays. -/
def next (p : RtpPayloadPacketizer) :
    Except RtpError (Option (Bytes × Bool)) × RtpPayloadPacketizer :=
  match nextState p.codec p.state with
  | .error error => (.error error, p)
  | .ok none => (.ok none, { p with state := .done })
  | .ok (some (payload, marker, state)) => (.ok (some (payload, marker)), { p with state })

end RtpPayloadPacketizer

/-! ### Descriptors -/

/-- The length of a VP8 descriptor, and whether the payload starts a frame. -/
def vp8Descriptor (payload : Bytes) : Except RtpError (ℕ × Bool) := do
  let some first := payload.head? | malformed .vp8 "empty VP8 payload"
  let len ← vp8DescriptorLen payload first
  if payload.length < len then malformed .vp8 "truncated VP8 payload descriptor"
  else return (len, first &&& 0x10 ≠ 0 && first &&& 0x0f = 0)
where
  /-- The length by the flags. -/
  vp8DescriptorLen (payload : Bytes) (first : UInt8) : Except RtpError ℕ :=
    if first &&& 0x80 = 0 then .ok 1
    else
      match payload[1]? with
      | none => malformed .vp8 "truncated VP8 extension flags"
      | some extension =>
        let rest := (if extension &&& 0x40 ≠ 0 then 1 else 0) +
          if extension &&& 0x30 ≠ 0 then 1 else 0
        if extension &&& 0x80 = 0 then .ok (2 + rest)
        else
          match payload[2]? with
          | none => malformed .vp8 "truncated VP8 picture id"
          | some pictureId => .ok (2 + (if pictureId &&& 0x80 ≠ 0 then 2 else 1) + rest)

structure Vp9Descriptor where
  len : ℕ
  startsFrame : Bool
  completesFrame : Bool
  deriving DecidableEq

/-- The loop over the reference indices of a VP9 descriptor. -/
def skipVp9References (payload : Bytes) (len : ℕ) : Except RtpError ℕ :=
  if h : len < payload.length then
    if payload[len] &&& 0x01 = 0 then .ok (len + 1) else skipVp9References payload (len + 1)
  else malformed .vp9 "truncated VP9 reference indices"
termination_by payload.length - len

/-- The loop over the pictures of a group. -/
def skipVp9Pictures (payload : Bytes) : ℕ → ℕ → Except RtpError ℕ
  | 0, len => .ok len
  | pictures + 1, len =>
    match payload[len]? with
    | none => malformed .vp9 "truncated VP9 picture group entry"
    | some picture => skipVp9Pictures payload pictures (len + (1 + (picture &&& 0x03).toNat))

def skipVp9ScalabilityStructure (payload : Bytes) (len : ℕ) : Except RtpError ℕ :=
  match payload[len]? with
  | none => malformed .vp9 "truncated VP9 scalability structure"
  | some header =>
    let spatialLayers := (header &&& 0x07).toNat + 1
    let len := len + 1 + if header &&& 0x10 ≠ 0 then spatialLayers * 4 else 0
    if header &&& 0x08 = 0 then .ok len
    else
      match payload[len]? with
      | none => malformed .vp9 "truncated VP9 picture group"
      | some pictures => skipVp9Pictures payload pictures.toNat (len + 1)

/-- The picture id at the front of a VP9 descriptor. -/
def skipVp9PictureId (payload : Bytes) (flags : UInt8) : Except RtpError ℕ :=
  if flags &&& 0x80 = 0 then .ok 1
  else
    match payload[1]? with
    | none => malformed .vp9 "truncated VP9 picture id"
    | some pictureId => .ok (1 + if pictureId &&& 0x80 ≠ 0 then 2 else 1)

def vp9Descriptor (payload : Bytes) : Except RtpError Vp9Descriptor := do
  let some flags := payload.head? | malformed .vp9 "empty VP9 payload"
  let len ← skipVp9PictureId payload flags
  let layers := if flags &&& 0x20 = 0 then 0 else if flags &&& 0x10 = 0 then 2 else 1
  let len ← if flags &&& 0x10 ≠ 0 ∧ flags &&& 0x40 ≠ 0 then
      skipVp9References payload (len + layers) else pure (len + layers)
  let len ← if flags &&& 0x02 ≠ 0 then skipVp9ScalabilityStructure payload len else pure len
  if payload.length < len then malformed .vp9 "truncated VP9 payload descriptor"
  else return ⟨len, flags &&& 0x08 ≠ 0, flags &&& 0x04 ≠ 0⟩

/-! ### Parsed payloads -/

structure RtpPayloadBoundary where
  startsFrame : Bool
  completesFrame : Bool
  deriving DecidableEq

inductive DepacketizedPayload
  | raw (payload : Bytes)
  | h26xNalu (nalu : Bytes)
  | h26xAggregation (codec : Codec) (payload : Bytes)
  | h26xFragment (fragment : H26xFragmentPayload)
  | av1 (w : UInt8) (payload : Bytes)
  deriving DecidableEq

structure ParsedRtpPayload where
  boundary : RtpPayloadBoundary
  depacketized : DepacketizedPayload
  deriving DecidableEq

/-- A single unit continues a frame that has begun; the first fragment of a unit starts a frame
in any case. -/
def parseH26xPayload (C : H26xRtpPayload) (payload : Bytes) (marker hasPartialFrame : Bool) :
    Except RtpError ParsedRtpPayload := do
  let naluType ← C.rtpNaluType payload
  if C.isSingleNaluType naluType then
    return ⟨⟨!hasPartialFrame, marker⟩, .h26xNalu payload⟩
  else if C.isAggregationNaluType naluType then
    return ⟨⟨!hasPartialFrame, marker⟩,
      .h26xAggregation C.codec (payload.drop C.aggregationPayloadOffset)⟩
  else if C.isFragmentNaluType naluType then
    let fragment ← C.parseFragmentPayload payload
    return ⟨⟨fragment.startsFragment, marker && fragment.completesFragment⟩,
      .h26xFragment fragment⟩
  else malformed C.codec C.unsupportedRtpNalUnitType

namespace ParsedRtpPayload

def parse (codec : Codec) (payload : Bytes) (marker hasPartialFrame : Bool) :
    Except RtpError ParsedRtpPayload :=
  match codec with
  | .opus => .ok ⟨⟨true, true⟩, .raw payload⟩
  | .vp8 => do
    let (descriptorLen, startsFrame) ← vp8Descriptor payload
    return ⟨⟨startsFrame, marker && descriptorLen < payload.length⟩,
      .raw (payload.drop descriptorLen)⟩
  | .vp9 => do
    let descriptor ← vp9Descriptor payload
    return ⟨⟨descriptor.startsFrame, marker || descriptor.completesFrame⟩,
      .raw (payload.drop descriptor.len)⟩
  | .h264 => parseH26xPayload h264Rtp payload marker hasPartialFrame
  | .h265 => parseH26xPayload h265Rtp payload marker hasPartialFrame
  | .av1 =>
    match payload with
    | [] => malformed .av1 "empty AV1 payload"
    | aggregationHeader :: payload =>
      .ok ⟨⟨!hasPartialFrame && aggregationHeader &&& 0x80 = 0, marker⟩,
        .av1 ((aggregationHeader >>> 4) &&& 0x03) payload⟩

end ParsedRtpPayload

def annexBNalu (nalu : Bytes) : Bytes := h26xLongStartCode ++ nalu

def appendH26xAggregation (codec : Codec) (payload frame : Bytes) : Except RtpError Bytes :=
  match payload with
  | [] => .ok frame
  | [_] => malformed codec "truncated H26x aggregation length"
  | high :: low :: payload =>
    let naluLen := high.toNat * 2 ^ 8 + low.toNat
    if payload.length < naluLen then malformed codec "truncated H26x aggregation NAL unit"
    else appendH26xAggregation codec (payload.drop naluLen)
      (frame ++ annexBNalu (payload.take naluLen))
termination_by payload.length
decreasing_by
  simp only [List.length_drop, List.length_cons]
  omega

/-- The loop of `append_av1_payload`; the count of elements saturates. -/
def appendAv1Elements (w elements : UInt8) (payload frame : Bytes) : Except RtpError Bytes :=
  if payload.isEmpty then .ok frame
  else
    let elements := if elements = 255 then 255 else elements + 1
    if w ≠ 0 ∧ elements = w then .ok (frame ++ payload)
    else
      match _h : DecodedUleb128.read payload with
      | none => malformed .av1 "invalid AV1 OBU length"
      | some (len, n) =>
        if (payload.drop n).length < len then malformed .av1 "truncated AV1 OBU element"
        else appendAv1Elements w elements ((payload.drop n).drop len)
          (frame ++ (payload.drop n).take len)
termination_by payload.length
decreasing_by
  have := read_len _h
  simp only [List.length_drop]
  omega

def appendAv1Payload (w : UInt8) (payload frame : Bytes) : Except RtpError Bytes :=
  if w = 1 then .ok (frame ++ payload) else appendAv1Elements w 0 payload frame

def appendDepacketized (payload : DepacketizedPayload) (frame : Bytes) : Except RtpError Bytes :=
  match payload with
  | .raw payload => .ok (frame ++ payload)
  | .h26xNalu nalu => .ok (frame ++ annexBNalu nalu)
  | .h26xAggregation codec payload => appendH26xAggregation codec payload frame
  | .h26xFragment fragment =>
    .ok ((if fragment.startsFragment then frame ++ (h26xLongStartCode ++ fragment.naluHeader)
      else frame) ++ fragment.fragmentPayload)
  | .av1 w payload => appendAv1Payload w payload frame

end Cacophony.RtpPayload
