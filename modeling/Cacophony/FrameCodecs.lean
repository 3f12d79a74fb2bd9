import Cacophony.AnnexB
import Cacophony.Frame

/-!
What each codec leaves in the clear, the codec part of `frame.rs`.

A codec sorts a frame into clear and hidden bytes, or gives up, and then the whole frame is
hidden. H.264 and H.265 frames are rewritten with long start codes on the way, and AV1 frames
lose some units and the size of the last one. Encrypted H.264 and H.265 frames are searched for
start codes before they are sent.
-/

namespace Cacophony.FrameCodecs

open Leb128 AnnexB Cacophony.Frame OutboundFrameProcessor

inductive Codec
  | opus
  | vp8
  | vp9
  | h264
  | h265
  | av1
  deriving DecidableEq

def Codec.mediaType : Codec → MediaType
  | .opus => .audio
  | _ => .video

/-! ### Codecs

A codec is a function to `Option`: `none` is `FallbackAllEncrypted`, after which the processor
is reset, and `some` is `Processed`. -/

def processFullyEncryptedFrame (frame : Bytes) (p : OutboundFrameProcessor) :
    Option OutboundFrameProcessor := some (p.addEncryptedBytes frame)

def processVp8Frame (frame : Bytes) (p : OutboundFrameProcessor) : Option OutboundFrameProcessor :=
  if frame.isEmpty then none
  else
    let unencrypted := if frame.getD 0 0 &&& 0x01 = 0 then 10 else 1
    if frame.length < unencrypted then none
    else
      let p := p.addUnencryptedBytes (frame.take unencrypted)
      some (p.addEncryptedBytes (frame.drop unencrypted))

/-- The loop of `bytes_covering_h264_pps`: three Exp-Golomb numbers, emulation prevention bytes
skipped. -/
def ppsBits (payload : Bytes) (bitIndex zeroBitCount parsedValues : ℕ) : Option ℕ :=
  if bitIndex < payload.length * 8 ∧ parsedValues < 3 then
    let byteIndex := bitIndex / 8
    let intraByteIndex := bitIndex % 8
    let payloadByte := payload.getD byteIndex 0
    if intraByteIndex = 0 ∧ 2 ≤ byteIndex ∧ payloadByte = 0x03 ∧
        payload.getD (byteIndex - 1) 0 = 0 ∧ payload.getD (byteIndex - 2) 0 = 0 then
      ppsBits payload (bitIndex + 8) zeroBitCount parsedValues
    else if payloadByte.toNat &&& (1 <<< (7 - intraByteIndex)) = 0 then
      if 32 ≤ zeroBitCount + 1 then none
      else ppsBits payload (bitIndex + 1) (zeroBitCount + 1) parsedValues
    else ppsBits payload (bitIndex + (1 + zeroBitCount)) 0 (parsedValues + 1)
  else if parsedValues = 3 then some (bitIndex / 8 + 1)
  else none
termination_by payload.length * 8 - bitIndex

def bytesCoveringH264Pps (payload : Bytes) : Option ℕ := ppsBits payload 0 0 0

/-- The trait `H26xFrameCodec`. -/
structure H26xFrameCodec where
  nalHeaderBytes : ℕ
  nalType : UInt8 → UInt8
  encryptedPayloadUnencryptedPrefix : Bytes → Option ℕ
  encryptsPayload : UInt8 → Bool

def h264 : H26xFrameCodec where
  nalHeaderBytes := 1
  nalType header := header &&& 0x1f
  encryptedPayloadUnencryptedPrefix nalu :=
    if nalu.length < 1 then none else (bytesCoveringH264Pps (nalu.drop 1)).map (1 + ·)
  encryptsPayload nalType := nalType = 1 || nalType = 5

def h265 : H26xFrameCodec where
  nalHeaderBytes := 2
  nalType header := (header &&& 0x7e) >>> 1
  encryptedPayloadUnencryptedPrefix nalu := if 2 ≤ nalu.length then some 2 else none
  encryptsPayload nalType := nalType < 32

/-- The body of the loop of `process_h26x_frame`: the unit from `start` up to `nextStart`. -/
def processNalu (C : H26xFrameCodec) (frame : Bytes) (start nextStart : ℕ)
    (p : OutboundFrameProcessor) : Option OutboundFrameProcessor :=
  let p := p.addUnencryptedBytes h26xLongStartCode
  if C.encryptsPayload (C.nalType (frame.getD start 0)) then
    match C.encryptedPayloadUnencryptedPrefix (slice frame start nextStart) with
    | none => none
    | some unencrypted =>
      if nextStart < start + unencrypted then none
      else
        let p := p.addUnencryptedBytes (slice frame start (start + unencrypted))
        some (p.addEncryptedBytes (slice frame (start + unencrypted) nextStart))
  else some (p.addUnencryptedBytes (slice frame start nextStart))

def processNalus (C : H26xFrameCodec) (frame : Bytes) (nalu : H26xNalu)
    (p : OutboundFrameProcessor) : Option OutboundFrameProcessor :=
  if nalu.start < frame.length - 1 then
    match _h : findNextNalu frame nalu.start with
    | none => processNalu C frame nalu.start (naluEnd frame none) p
    | some next =>
      (processNalu C frame nalu.start (naluEnd frame (some next)) p).bind
        (processNalus C frame next)
  else some p
termination_by frame.length - nalu.start
decreasing_by
  have := lt_start_of_findNextNalu _h
  omega

def processH26xFrame (C : H26xFrameCodec) (frame : Bytes) (p : OutboundFrameProcessor) :
    Option OutboundFrameProcessor :=
  if frame.length < h26xShortStartSequenceBytes + C.nalHeaderBytes then none
  else
    match findNextNalu frame 0 with
    | none => none
    | some nalu => processNalus C frame nalu p

/-- Where the loop of `process_h26x_frame` adds its long start codes. -/
def longStartCodesFrom (C : H26xFrameCodec) (frame : Bytes) (nalu : H26xNalu)
    (p : OutboundFrameProcessor) : List ℕ :=
  if nalu.start < frame.length - 1 then
    match _h : findNextNalu frame nalu.start with
    | none => [p.frameIndex]
    | some next => p.frameIndex ::
      ((processNalu C frame nalu.start (naluEnd frame (some next)) p).elim []
        (longStartCodesFrom C frame next))
  else []
termination_by frame.length - nalu.start
decreasing_by
  have := lt_start_of_findNextNalu _h
  omega

/-- The long start codes of a processed frame; one that fell back has none. -/
def longStartCodes (C : H26xFrameCodec) (frame : Bytes) : List ℕ :=
  if (processH26xFrame C frame {}).isNone then []
  else (findNextNalu frame 0).elim [] fun nalu => longStartCodesFrom C frame nalu {}

/-- The header of an AV1 unit and where its payload lies. -/
structure Obu where
  header : UInt8
  hasExtension : Bool
  hasSize : Bool
  obuType : UInt8
  payloadIndex : ℕ
  payloadSize : ℕ

/-- Where the payload starts and how long it is, by the size field at `index` if there is
one. -/
def obuPayload (frame : Bytes) (index : ℕ) (hasSize : Bool) : Option (ℕ × ℕ) :=
  if hasSize then (DecodedUleb128.read (frame.drop index)).map fun (v, n) => (index + n, v)
  else some (index, frame.length - index)

/-- The first half of the loop of `process_av1_frame`. The sum of the source is checked for
overflow; one that overflows is behind the end of the frame in any case. -/
def readObu (frame : Bytes) (obuHeaderIndex : ℕ) : Option Obu :=
  let header := frame.getD obuHeaderIndex 0
  let hasExtension := header &&& 0b00000100 ≠ 0
  let hasSize := header &&& 0b00000010 ≠ 0
  let index := obuHeaderIndex + 1 + if hasExtension then 1 else 0
  if frame.length ≤ index then none
  else
    match obuPayload frame index hasSize with
    | none => none
    | some (payloadIndex, payloadSize) =>
      if frame.length < payloadIndex + payloadSize then none
      else some ⟨header, hasExtension, hasSize, (header &&& 0b01111000) >>> 3, payloadIndex,
        payloadSize⟩

variable {frame : Bytes}

lemma le_obuPayload {index : ℕ} {hasSize : Bool} {r : ℕ × ℕ}
    (h : obuPayload frame index hasSize = some r) : index ≤ r.1 := by
  unfold obuPayload at h
  split at h
  · obtain ⟨⟨v, n⟩, -, rfl⟩ := Option.map_eq_some_iff.mp h
    exact Nat.le_add_right index n
  · cases h
    exact le_rfl

/-- All that is known of a unit that was read. -/
structure ReadsObu (frame : Bytes) (i : ℕ) (o : Obu) : Prop where
  header : o.header = frame.getD i 0
  extension : o.hasExtension = decide (o.header &&& 0b00000100 ≠ 0)
  size : o.hasSize = decide (o.header &&& 0b00000010 ≠ 0)
  obuType : o.obuType = (o.header &&& 0b01111000) >>> 3
  index_lt : i + 1 + (if o.hasExtension then 1 else 0) < frame.length
  payload : obuPayload frame (i + 1 + if o.hasExtension then 1 else 0) o.hasSize =
    some (o.payloadIndex, o.payloadSize)
  le_length : o.payloadIndex + o.payloadSize ≤ frame.length

lemma readsObu {i : ℕ} {o : Obu} (h : readObu frame i = some o) : ReadsObu frame i o := by
  unfold readObu at h
  dsimp only at h
  -- otherwise the next split takes the condition inside the index
  generalize hext : (if List.getD frame i 0 &&& 0b00000100 ≠ 0 then 1 else 0) = extension at h
  have hset : (if decide (List.getD frame i 0 &&& 0b00000100 ≠ 0) = true then 1 else 0) =
      extension := by simpa only [decide_eq_true_eq] using hext
  split at h
  · cases h
  next hindex =>
    split at h
    · cases h
    next payloadIndex payloadSize hpayload =>
      split at h
      · cases h
      next hle =>
        cases h
        refine ⟨rfl, rfl, rfl, rfl, ?_, ?_, not_lt.mp hle⟩
        · rw [hset]
          exact not_le.mp hindex
        · rw [hset]
          exact hpayload

lemma readObu_lt {i : ℕ} {o : Obu} (h : readObu frame i = some o) :
    i < o.payloadIndex ∧ o.payloadIndex + o.payloadSize ≤ frame.length := by
  have hread := readsObu h
  have hle := le_obuPayload hread.payload
  exact ⟨by omega, hread.le_length⟩

/-- The second half: temporal delimiters, tile lists and padding are dropped, and the unit that
ends the frame loses its size. -/
def processObu (frame : Bytes) (obuHeaderIndex : ℕ) (o : Obu) (p : OutboundFrameProcessor) :
    Option OutboundFrameProcessor :=
  if o.obuType = 2 ∨ o.obuType = 8 ∨ o.obuType = 15 then some p
  else
    let nextIndex := o.payloadIndex + o.payloadSize
    let rewriteWithoutSize := nextIndex = frame.length ∧ o.hasSize
    let header := if rewriteWithoutSize then o.header &&& ~~~0b00000010 else o.header
    let p := p.addUnencryptedBytes [header]
    let p := if o.hasExtension then
      p.addUnencryptedBytes (slice frame (obuHeaderIndex + 1) (obuHeaderIndex + 2)) else p
    if o.hasSize ∧ ¬ rewriteWithoutSize then
      match Uleb128.writeTo o.payloadSize (List.replicate 10 0) with
      | none => none
      | some (sizeBuffer, written) =>
        let p := p.addUnencryptedBytes (sizeBuffer.take written)
        some (p.addEncryptedBytes (slice frame o.payloadIndex nextIndex))
    else some (p.addEncryptedBytes (slice frame o.payloadIndex nextIndex))

def processObus (frame : Bytes) (index : ℕ) (p : OutboundFrameProcessor) :
    Option OutboundFrameProcessor :=
  if index < frame.length then
    match _h : readObu frame index with
    | none => none
    | some o =>
      (processObu frame index o p).bind (processObus frame (o.payloadIndex + o.payloadSize))
  else some p
termination_by frame.length - index
decreasing_by
  have := readObu_lt _h
  omega

def processAv1Frame (frame : Bytes) (p : OutboundFrameProcessor) :
    Option OutboundFrameProcessor := processObus frame 0 p

def Codec.processFrame : Codec → Bytes → OutboundFrameProcessor → Option OutboundFrameProcessor
  | .opus => processFullyEncryptedFrame
  | .vp8 => processVp8Frame
  | .vp9 => processFullyEncryptedFrame
  | .h264 => processH26xFrame FrameCodecs.h264
  | .h265 => processH26xFrame FrameCodecs.h265
  | .av1 => processAv1Frame

/-- The codecs whose frames are Annex B streams. -/
inductive H26x
  | h264
  | h265
  deriving DecidableEq

def H26x.codec : H26x → Codec
  | .h264 => .h264
  | .h265 => .h265

def H26x.frameCodec : H26x → H26xFrameCodec
  | .h264 => FrameCodecs.h264
  | .h265 => FrameCodecs.h265

/-- `OutboundFrameProcessor::process`. What the processor held before is reset. -/
def process (C : Codec) (frame : Bytes) : OutboundFrameProcessor :=
  (C.processFrame frame {}).getD (addEncryptedBytes {} frame)

/-! ### Validation -/

/-- The loop of `validate_h26x_encrypted_frame`: `none` when a start code was found, and
otherwise where the last section starts. -/
def validateSections (encryptedFrame : Bytes) (encryptedSectionStart : ℕ) :
    List UnencryptedRange → Option ℕ
  | [] => some encryptedSectionStart
  | range :: ranges =>
    if encryptedSectionStart = range.offset then
      validateSections encryptedFrame (encryptedSectionStart + range.len) ranges
    else
      let start := encryptedSectionStart - 2
      let stop := min (range.offset + 2) encryptedFrame.length
      if (findNextNalu (slice encryptedFrame start stop) 0).isSome then none
      else validateSections encryptedFrame range.stop ranges

def validateH26xEncryptedFrame (p : OutboundFrameProcessor) (encryptedFrame : Bytes) : Bool :=
  match validateSections encryptedFrame 0 p.unencryptedRanges with
  | none => false
  | some start =>
    if start = p.frameIndex then true
    else (findNextNalu (encryptedFrame.drop (start - 2)) 0).isNone

def Codec.validateProcessedFrame : Codec → OutboundFrameProcessor → Bytes → Bool
  | .h264 => validateH26xEncryptedFrame
  | .h265 => validateH26xEncryptedFrame
  | _ => fun _ _ => true

end Cacophony.FrameCodecs
