import Cacophony.Basic
import Cacophony.Panics
import Mathlib.Algebra.BigOperators.Group.List.Basic
import Mathlib.Algebra.Ring.Nat

/-!
The Opus packets that are taken for sending, and those of RFC 6716.

`validate_packet_bytes` walks over a packet: the table-of-contents byte, the lengths and the padding
of its framing code, and the lengths of its frames. Every index, difference and division of the
source is checked here, so that a packet that makes it panic would be seen. On the other side stand
the packets of RFC 6716, section 3.2: a table-of-contents byte, frames, one of the ways to put them
one after the other, and its encoding. The lengths and the padding are read as they are encoded.
-/

namespace Cacophony.OpusPackets

open Progs Panics

/-! ### The validator -/

def sampleRateHz : ℕ := 48000
def samplesPerChannel : ℕ := sampleRateHz * 20 / 1000
def opusMaxPacketSamplesPerChannel : ℕ := sampleRateHz * 120 / 1000
def opusMaxFrameBytes : ℕ := 1275
def maxPacketBytes : ℕ := 4096

/-- The values of `usize` are below it. -/
def usizeBound : ℕ := 2 ^ 64

inductive PacketError
  | emptyPayload
  | payloadTooLarge (len maxLen : ℕ)
  | invalidPacket (reason : String)
  | unsupportedDiscordPacketDuration (expectedSamplesPerChannel actualSamplesPerChannel : ℕ)
  deriving DecidableEq, Repr

variable {α : Type} {n : ℕ}

def invalidOpusPacket (reason : String) : Checked PacketError α :=
  .error (.failed (.invalidPacket reason))

/-- An operation whose `None` becomes an error. -/
def okOr (p : Prop) [Decidable p] (a : α) (reason : String) : Checked PacketError α :=
  if p then .ok a else invalidOpusPacket reason

/-- `packet[0]` -/
def firstByte (packet : Bytes) : Checked PacketError UInt8 := guarded (packet ≠ []) (packet.headD 0)

def opusSamplesPerFrame (toc : UInt8) : ℕ :=
  if toc &&& 0x80 ≠ 0 then
    (sampleRateHz <<< ((toc >>> 3) &&& 0x03).toNat) / 400
  else if toc &&& 0x60 = 0x60 then
    if toc &&& 0x08 ≠ 0 then sampleRateHz / 50 else sampleRateHz / 100
  else
    let config := (toc >>> 3) &&& 0x03
    if config = 3 then sampleRateHz * 60 / 1000 else (sampleRateHz <<< config.toNat) / 100

def validateOpusFrameSize (frameLen : ℕ) : Checked PacketError Unit :=
  if frameLen > opusMaxFrameBytes then
    invalidOpusPacket "frame exceeds Opus maximum encoded size"
  else .ok ()

/-- The loop of `parse_opus_padding_len`. -/
def paddingLoop (padding index : ℕ) : Bytes → Checked PacketError (ℕ × ℕ)
  | [] => invalidOpusPacket "unterminated padding length"
  | byte :: data => do
    let more := if byte = 255 then 254 else byte.toNat
    let padding ← okOr (padding + more < usizeBound) (padding + more) "padding length overflow"
    if byte ≠ 255 then .ok (padding, index + 1) else paddingLoop padding (index + 1) data

def parseOpusPaddingLen (data : Bytes) : Checked PacketError (ℕ × ℕ) := paddingLoop 0 0 data

def parseOpusFrameSize : Bytes → Checked PacketError (ℕ × ℕ)
  | [] => invalidOpusPacket "missing frame size"
  | first :: rest =>
    if first < 252 then .ok (first.toNat, 1)
    else
      match rest with
      | [] => invalidOpusPacket "truncated extended frame size"
      | second :: _ => .ok (second.toNat * 4 + first.toNat, 2)

/-- The loop of `validate_opus_vbr_frame_sizes`: the bytes behind the lengths, and their sum. -/
def vbrLoop (frameBytes : Bytes) (sizedPayloadLen : ℕ) : ℕ → Checked PacketError (Bytes × ℕ)
  | 0 => .ok (frameBytes, sizedPayloadLen)
  | count + 1 => do
    let (frameLen, used) ← parseOpusFrameSize frameBytes
    validateOpusFrameSize frameLen
    let frameBytes ← okOr (used ≤ frameBytes.length) (frameBytes.drop used)
      "VBR frame size header exceeds packet length"
    let sizedPayloadLen ← okOr (sizedPayloadLen + frameLen < usizeBound)
      (sizedPayloadLen + frameLen) "VBR frame size overflow"
    vbrLoop frameBytes sizedPayloadLen count

def validateOpusVbrFrameSizes (frameBytes : Bytes) (frameCount : ℕ) : Checked PacketError Unit := do
  let sized ← guarded (1 ≤ frameCount) (frameCount - 1)
  let (frameBytes, sizedPayloadLen) ← vbrLoop frameBytes 0 sized
  if sizedPayloadLen > frameBytes.length then
    invalidOpusPacket "VBR frame sizes exceed packet length"
  else
    let last ← guarded (sizedPayloadLen ≤ frameBytes.length) (frameBytes.length - sizedPayloadLen)
    validateOpusFrameSize last

/-- The branch of `opus_code3_frame_count` for packets without lengths. -/
def validateOpusCbrFrameSizes (frameBytes : Bytes) (frameCount : ℕ) : Checked PacketError Unit := do
  let rest ← guarded (frameCount ≠ 0) (frameBytes.length % frameCount)
  if rest ≠ 0 then invalidOpusPacket "code 3 CBR payload is not frame-aligned"
  else
    let frameLen ← guarded (frameCount ≠ 0) (frameBytes.length / frameCount)
    validateOpusFrameSize frameLen

/-- The branch of `opus_code3_frame_count` that takes the padding off. -/
def stripPadding (frameBytes : Bytes) : Checked PacketError Bytes := do
  let (padding, used) ← parseOpusPaddingLen frameBytes
  let frameBytes ← okOr (used ≤ frameBytes.length) (frameBytes.drop used)
    "code 3 padding header exceeds packet length"
  let dataLen ← okOr (padding ≤ frameBytes.length) (frameBytes.length - padding)
    "code 3 padding exceeds packet length"
  guarded (dataLen ≤ frameBytes.length) (frameBytes.take dataLen)

/-- The bytes of the frames and of their lengths. -/
def unpadded (countByte : UInt8) (frameBytes : Bytes) : Checked PacketError Bytes :=
  if countByte &&& 0x40 ≠ 0 then stripPadding frameBytes else .ok frameBytes

/-- The check of the frame sizes at the end of `opus_code3_frame_count`. -/
def validateOpusFrameSizes (countByte : UInt8) (frameBytes : Bytes) (frameCount : ℕ) :
    Checked PacketError Unit :=
  if countByte &&& 0x80 ≠ 0 then validateOpusVbrFrameSizes frameBytes frameCount
  else validateOpusCbrFrameSizes frameBytes frameCount

def opusCode3FrameCount (payload : Bytes) (samplesPerFrame : ℕ) : Checked PacketError ℕ :=
  match payload with
  | [] => invalidOpusPacket "code 3 packet missing frame count"
  | countByte :: frameBytes => do
    let frameCount := (countByte &&& 0x3f).toNat
    if frameCount = 0 ∨ frameCount > 48 then
      invalidOpusPacket "code 3 packet has invalid frame count"
    else
      let samples ← guarded (samplesPerFrame * frameCount < usizeBound)
        (samplesPerFrame * frameCount)
      if samples > opusMaxPacketSamplesPerChannel then
        invalidOpusPacket "code 3 packet duration exceeds 120 ms"
      else
        let frameBytes ← unpadded countByte frameBytes
        validateOpusFrameSizes countByte frameBytes frameCount
        .ok frameCount

/-- The branch of `opus_packet_frame_count` for two frames of their own lengths. -/
def opusCode2FrameCount (payload : Bytes) : Checked PacketError ℕ := do
  let (firstLen, used) ← parseOpusFrameSize payload
  let remaining ← okOr (used ≤ payload.length) (payload.length - used)
    "code 2 packet size underflow"
  if firstLen > remaining then
    invalidOpusPacket "code 2 first frame exceeds packet length"
  else
    validateOpusFrameSize firstLen
    let secondLen ← guarded (firstLen ≤ remaining) (remaining - firstLen)
    validateOpusFrameSize secondLen
    .ok 2

/-- The branch of `opus_packet_frame_count` for two frames of one length. -/
def opusCode1FrameCount (payload : Bytes) : Checked PacketError ℕ := do
  if payload.length % 2 ≠ 0 then invalidOpusPacket "code 1 packet has odd payload length"
  else
    validateOpusFrameSize (payload.length / 2)
    .ok 2

def opusPacketFrameCount (packet : Bytes) (samplesPerFrame : ℕ) : Checked PacketError ℕ := do
  let payload ← guarded (1 ≤ packet.length) (packet.drop 1)
  let toc ← firstByte packet
  if toc &&& 0x03 = 0 then
    validateOpusFrameSize payload.length
    .ok 1
  else if toc &&& 0x03 = 1 then opusCode1FrameCount payload
  else if toc &&& 0x03 = 2 then opusCode2FrameCount payload
  else opusCode3FrameCount payload samplesPerFrame

def opusPacketSamplesPerChannel (packet : Bytes) : Checked PacketError ℕ := do
  let toc ← firstByte packet
  let frameCount ← opusPacketFrameCount packet (opusSamplesPerFrame toc)
  let samples ← okOr (opusSamplesPerFrame toc * frameCount < usizeBound)
    (opusSamplesPerFrame toc * frameCount) "sample count overflow"
  if samples > opusMaxPacketSamplesPerChannel then
    invalidOpusPacket "packet duration exceeds 120 ms"
  else .ok samples

def validatePacketBytes (bytes : Bytes) : Checked PacketError Unit := do
  if bytes.isEmpty then .error (.failed .emptyPayload)
  else if bytes.length > maxPacketBytes then
    .error (.failed (.payloadTooLarge bytes.length maxPacketBytes))
  else
    let samples ← opusPacketSamplesPerChannel bytes
    if samples ≠ samplesPerChannel then
      .error (.failed (.unsupportedDiscordPacketDuration samplesPerChannel samples))
    else .ok ()

/-- `discord::Packet` -/
structure Packet where
  bytes : Bytes
  deriving DecidableEq, Repr

def Packet.fromBytes (bytes : Bytes) : Checked PacketError Packet := do
  validatePacketBytes bytes
  .ok ⟨bytes⟩

/-! ### The packets of RFC 6716

What a packet is, in the terms of the RFC, and its bytes. -/

/-- The duration of a frame at 48 kHz, by the configuration number: SILK, hybrid and CELT. -/
def frameSamples (toc : UInt8) : ℕ :=
  let config := toc.toNat / 8
  if config < 12 then [480, 960, 1920, 2880].getD (config % 4) 0
  else if config < 16 then [480, 960].getD (config % 2) 0
  else [120, 240, 480, 960].getD (config % 4) 0

/-- The length of a frame, in one byte or two. -/
def lengthBytes (n : ℕ) : Bytes :=
  if n < 252 then [UInt8.ofNat n] else [UInt8.ofNat (252 + n % 4), UInt8.ofNat ((n - 252) / 4)]

/-- Padding. Each of the `full` bytes 255 stands for 254 bytes of it, and the last length byte for
as many as it says. A decoder takes any bytes as padding. -/
structure Padding where
  full : ℕ
  last : UInt8
  last_ne : last ≠ 255
  bytes : Bytes
  length_bytes : bytes.length = 254 * full + last.toNat

def Padding.header (p : Padding) : Bytes := List.replicate p.full 255 ++ [p.last]

/-- The four ways to put frames into a packet. -/
inductive Framing
  | one (frame : Bytes)
  | equal (first second : Bytes) (same : first.length = second.length)
  | two (first second : Bytes)
  | many (vbr : Bool) (frames : List Bytes) (padding : Option Padding) (nonempty : frames ≠ [])
      (same : vbr = false → ∀ f ∈ frames, ∀ g ∈ frames, f.length = g.length)

/-- The code in the last two bits of the table-of-contents byte. -/
def Framing.code : Framing → UInt8
  | one _ => 0
  | equal _ _ _ => 1
  | two _ _ => 2
  | many _ _ _ _ _ => 3

def Framing.frames : Framing → List Bytes
  | one frame => [frame]
  | equal first second _ => [first, second]
  | two first second => [first, second]
  | many _ frames _ _ _ => frames

/-- The frame count byte: two flags and the number of frames. -/
def countByte (vbr padded : Bool) (count : ℕ) : UInt8 :=
  UInt8.ofNat ((if vbr then 128 else 0) + (if padded then 64 else 0) + count)

/-- The frames, behind the lengths of all but the last if they vary. -/
def framesBytes (vbr : Bool) (frames : List Bytes) : Bytes :=
  (if vbr then frames.dropLast.flatMap fun f => lengthBytes f.length else []) ++ frames.flatten

/-- The bytes behind the table-of-contents byte. -/
def Framing.bytes : Framing → Bytes
  | one frame => frame
  | equal first second _ => first ++ second
  | two first second => lengthBytes first.length ++ (first ++ second)
  | many vbr frames none _ _ =>
    countByte vbr false frames.length :: framesBytes vbr frames
  | many vbr frames (some padding) _ _ =>
    countByte vbr true frames.length ::
      (padding.header ++ (framesBytes vbr frames ++ padding.bytes))

/-- A packet: its frames have at most 1275 bytes each, and it lasts at most 120 ms. -/
structure OpusPacket where
  toc : UInt8
  framing : Framing
  code_eq : framing.code = toc &&& 0x03
  frame_le : ∀ f ∈ framing.frames, f.length ≤ 1275
  duration_le : framing.frames.length * frameSamples toc ≤ 5760

def OpusPacket.encode (p : OpusPacket) : Bytes := p.toc :: p.framing.bytes

/-- The duration in samples of a channel at 48 kHz. -/
def OpusPacket.samples (p : OpusPacket) : ℕ := p.framing.frames.length * frameSamples p.toc

/-! ### Bytes -/

/-- What holds of all 256 bytes holds of every byte. -/
lemma forall_byte {P : UInt8 → Prop} (h : ∀ n < 256, P (UInt8.ofNat n)) (b : UInt8) : P b := by
  have hb := h b.toNat b.toNat_lt
  rwa [UInt8.ofNat_toNat] at hb

lemma opusSamplesPerFrame_eq (toc : UInt8) : opusSamplesPerFrame toc = frameSamples toc := by
  revert toc
  exact forall_byte (by decide +kernel)

lemma frameSamples_bounds (toc : UInt8) : 120 ≤ frameSamples toc ∧ frameSamples toc ≤ 2880 := by
  revert toc
  exact forall_byte (by decide +kernel)

lemma code_eq_three (toc : UInt8) :
    toc &&& 0x03 ≠ 0 → toc &&& 0x03 ≠ 1 → toc &&& 0x03 ≠ 2 → toc &&& 0x03 = 3 := by
  revert toc
  exact forall_byte (by decide +kernel)

lemma countByte_self (b : UInt8) :
    countByte (b &&& 0x80 ≠ 0) (b &&& 0x40 ≠ 0) (b &&& 0x3f).toNat = b := by
  revert b
  exact forall_byte (by decide +kernel)

lemma countByte_fields (vbr padded : Bool) {count : ℕ} (h : count < 64) :
    (countByte vbr padded count &&& 0x3f).toNat = count ∧
      decide (countByte vbr padded count &&& 0x40 ≠ 0) = padded ∧
      decide (countByte vbr padded count &&& 0x80 ≠ 0) = vbr := by
  have hall : ∀ vbr padded : Bool, ∀ count < 64,
      (countByte vbr padded count &&& 0x3f).toNat = count ∧
        decide (countByte vbr padded count &&& 0x40 ≠ 0) = padded ∧
        decide (countByte vbr padded count &&& 0x80 ≠ 0) = vbr := by
    decide +kernel
  exact hall vbr padded count h

/-! ### What the parsers accept -/

section

variable {p : Prop} [Decidable p] {a b : α} {reason : String}

@[simp] lemma invalidOpusPacket_ne_ok :
    (invalidOpusPacket reason : Checked PacketError α) ≠ .ok a := by
  rintro ⟨⟩

@[simp] lemma okOr_ok_iff : okOr p a reason = .ok b ↔ p ∧ a = b := by
  rw [okOr]
  split <;> simp [*]

end

@[simp] lemma validateOpusFrameSize_ok_iff {u : Unit} :
    validateOpusFrameSize n = .ok u ↔ n ≤ 1275 := by
  rw [validateOpusFrameSize, opusMaxFrameBytes]
  split
  · simp
    omega
  · simp
    omega

lemma lengthBytes_of_lt (h : n < 252) : lengthBytes n = [UInt8.ofNat n] := if_pos h

lemma lengthBytes_of_le (h : 252 ≤ n) :
    lengthBytes n = [UInt8.ofNat (252 + n % 4), UInt8.ofNat ((n - 252) / 4)] :=
  if_neg (by omega)

/-- One byte or two are read as the length that they encode. -/
lemma parseOpusFrameSize_ok_iff {data : Bytes} {used : ℕ} :
    parseOpusFrameSize data = .ok (n, used) ↔
      n ≤ 1275 ∧ used = (lengthBytes n).length ∧ ∃ rest, data = lengthBytes n ++ rest := by
  constructor
  · intro h
    rcases data with _ | ⟨first, rest⟩
    · exact absurd h invalidOpusPacket_ne_ok
    have hfirst : first.toNat < 256 := first.toNat_lt
    simp only [parseOpusFrameSize] at h
    split at h
    · next hlt =>
      cases h
      have hlt : first.toNat < 252 := UInt8.lt_iff_toNat_lt.mp hlt
      rw [lengthBytes_of_lt hlt, UInt8.ofNat_toNat]
      exact ⟨by omega, rfl, rest, rfl⟩
    · next hle =>
      have hle : 252 ≤ first.toNat := Nat.le_of_not_lt fun h => hle (UInt8.lt_iff_toNat_lt.mpr h)
      rcases rest with _ | ⟨second, rest⟩
      · exact absurd h invalidOpusPacket_ne_ok
      cases h
      have hsecond : second.toNat < 256 := second.toNat_lt
      have hlow : 252 + (second.toNat * 4 + first.toNat) % 4 = first.toNat := by omega
      have hhigh : (second.toNat * 4 + first.toNat - 252) / 4 = second.toNat := by omega
      rw [lengthBytes_of_le (by omega), hlow, hhigh, UInt8.ofNat_toNat, UInt8.ofNat_toNat]
      exact ⟨by omega, rfl, rest, rfl⟩
  · rintro ⟨hle, rfl, rest, rfl⟩
    by_cases hlt : n < 252
    · have hn : (UInt8.ofNat n).toNat = n :=
        UInt8.toNat_ofNat_of_lt' (show n < 256 by omega)
      have hcond : UInt8.ofNat n < 252 := by
        rw [UInt8.lt_iff_toNat_lt, hn]
        exact hlt
      rw [lengthBytes_of_lt hlt]
      simp only [List.singleton_append, parseOpusFrameSize, if_pos hcond, hn]
      rfl
    · have hfirst : (UInt8.ofNat (252 + n % 4)).toNat = 252 + n % 4 :=
        UInt8.toNat_ofNat_of_lt' (show 252 + n % 4 < 256 by omega)
      have hsecond : (UInt8.ofNat ((n - 252) / 4)).toNat = (n - 252) / 4 :=
        UInt8.toNat_ofNat_of_lt' (show (n - 252) / 4 < 256 by omega)
      have hcond : ¬ UInt8.ofNat (252 + n % 4) < 252 := by
        intro h
        have h := UInt8.lt_iff_toNat_lt.mp h
        rw [hfirst] at h
        change 252 + n % 4 < 252 at h
        omega
      have hsum : (n - 252) / 4 * 4 + (252 + n % 4) = n := by omega
      rw [lengthBytes_of_le (by omega)]
      simp only [List.cons_append, parseOpusFrameSize, if_neg hcond, hfirst, hsecond, hsum]
      rfl

/-- The loop reads the bytes 255 and the byte behind them. -/
lemma paddingLoop_ok_iff {data : Bytes} {padding index used : ℕ} :
    paddingLoop padding index data = .ok (n, used) ↔
      ∃ full : ℕ, ∃ last : UInt8, ∃ rest, last ≠ 255 ∧
        data = List.replicate full 255 ++ last :: rest ∧ n = padding + 254 * full + last.toNat ∧
        used = index + full + 1 ∧ n < usizeBound := by
  induction data generalizing padding index with
  | nil =>
    constructor
    · intro h
      exact absurd h invalidOpusPacket_ne_ok
    · rintro ⟨full, last, rest, -, h, -⟩
      simp at h
  | cons byte data ih =>
    simp only [paddingLoop, bind_ok_iff, okOr_ok_iff]
    by_cases hbyte : byte = 255
    · subst hbyte
      simp only [ne_eq, not_true_eq_false, if_true, if_false]
      constructor
      · rintro ⟨_, ⟨hbound, rfl⟩, h⟩
        obtain ⟨full, last, rest, hlast, rfl, rfl, rfl, hn⟩ := ih.mp h
        refine ⟨full + 1, last, rest, hlast, rfl, by omega, by omega, hn⟩
      · rintro ⟨full, last, rest, hlast, hdata, rfl, rfl, hn⟩
        rcases full with _ | full
        · cases hdata
          exact absurd rfl hlast
        · rw [List.replicate_succ, List.cons_append, List.cons.injEq] at hdata
          refine ⟨_, ⟨by omega, rfl⟩, ih.mpr ⟨full, last, rest, hlast, hdata.2, ?_, ?_, hn⟩⟩
          · omega
          · omega
    · simp only [ne_eq, hbyte, not_false_eq_true, if_true, if_false]
      constructor
      · rintro ⟨_, ⟨hbound, rfl⟩, h⟩
        cases h
        exact ⟨0, byte, data, hbyte, rfl, by omega, rfl, hbound⟩
      · rintro ⟨full, last, rest, hlast, hdata, rfl, rfl, hn⟩
        rcases full with _ | full
        · cases hdata
          exact ⟨_, ⟨by omega, rfl⟩, by simp⟩
        · rw [List.replicate_succ, List.cons_append, List.cons.injEq] at hdata
          exact absurd hdata.1 hbyte

/-- The loop reads as many lengths as it is told to. -/
lemma vbrLoop_ok_iff {data rest : Bytes} {sized total count : ℕ} :
    vbrLoop data sized count = .ok (rest, total) ↔
      ∃ lens : List ℕ, lens.length = count ∧ (∀ n ∈ lens, n ≤ 1275) ∧
        data = lens.flatMap lengthBytes ++ rest ∧ total = sized + lens.sum ∧
        (count ≠ 0 → total < usizeBound) := by
  induction count generalizing data sized with
  | zero =>
    rw [vbrLoop]
    constructor
    · intro h
      cases h
      exact ⟨[], rfl, by simp, rfl, rfl, by simp⟩
    · rintro ⟨lens, hlen, -, rfl, rfl, -⟩
      rw [List.eq_nil_of_length_eq_zero hlen]
      rfl
  | succ count ih =>
    simp only [vbrLoop, bind_ok_iff, okOr_ok_iff, Prod.exists, validateOpusFrameSize_ok_iff]
    constructor
    · rintro ⟨n, used, hparse, _, hn, _, ⟨-, rfl⟩, _, ⟨hbound, rfl⟩, h⟩
      obtain ⟨lens, hlen, hle, hdata, rfl, htotal⟩ := ih.mp h
      obtain ⟨-, rfl, tail, rfl⟩ := parseOpusFrameSize_ok_iff.mp hparse
      rw [List.drop_left] at hdata
      refine ⟨n :: lens, by simp [hlen], ?_, ?_, ?_, fun _ => ?_⟩
      · simpa using ⟨hn, hle⟩
      · rw [hdata, List.flatMap_cons, List.append_assoc]
      · rw [List.sum_cons]
        omega
      · by_cases hcount : count = 0
        · have hnil : lens = [] := List.eq_nil_of_length_eq_zero (hlen.trans hcount)
          simpa [hnil] using hbound
        · exact htotal hcount
    · rintro ⟨lens, hlen, hle, rfl, rfl, htotal⟩
      rcases lens with _ | ⟨n, lens⟩
      · cases hlen
      have hn : n ≤ 1275 := hle n List.mem_cons_self
      have hbound := htotal (by omega)
      rw [List.sum_cons] at hbound
      refine ⟨n, _, parseOpusFrameSize_ok_iff.mpr ⟨hn, rfl, lens.flatMap lengthBytes ++ rest, ?_⟩,
        (), hn, _, ⟨?_, rfl⟩, _, ⟨by omega, rfl⟩, ih.mpr ⟨lens, ?_, ?_, ?_, ?_, ?_⟩⟩
      · rw [List.flatMap_cons, List.append_assoc]
      · simp
      · simpa using hlen
      · exact fun m hm => hle m (List.mem_cons_of_mem n hm)
      · rw [List.flatMap_cons, List.append_assoc, List.drop_left]
      · rw [List.sum_cons]
        omega
      · intro _
        rw [List.sum_cons]
        omega

end Cacophony.OpusPackets
