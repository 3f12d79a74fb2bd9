import Cacophony.Chunks
import Cacophony.OpusPackets

/-!
PCM samples and their Opus packets.

Samples come in one of six encodings, mono or interleaved, and become stereo samples at 48 kHz. The
encoder takes them in blocks of 960 frames and keeps what is left over for the next call. The type
`σ` stands for `f32`; the Opus encoder and the resampler are those of other crates, with states in
`ω` and `ρ`.
-/

namespace Cacophony.Pcm

open Progs Panics Chunks OpusPackets

def channels : ℕ := 2
def stereoSamplesPerBlock : ℕ := channels * samplesPerChannel

inductive OpusOperation
  | createEncoder
  | encodeFrame
  deriving DecidableEq, Repr

inductive Error
  | sampleAlignment (encoding : String) (byteLen sampleBytes : ℕ)
  | channelCountZero
  | channelAlignment (channels samples : ℕ)
  | resamplerChunkFramesZero
  | resamplerNotInitialized
  | resampler (reason : String)
  | pcmBlockSampleCount (expected actual : ℕ)
  | opusBitrateTooLarge (bitrateBps : ℕ)
  | opusOutputBufferTooSmall (minLen len : ℕ)
  | operationFailed (operation : OpusOperation) (reason : String)
  | unsupportedChannelCount (channels : ℕ)
  | discordPcmMixedSampleRates (existing actual : ℕ)
  | discordPcmMixedChannelCounts (existing actual : ℕ)
  | discordPcmMixedEncoding
  | discordPcmEncoderUninitialized
  deriving DecidableEq, Repr

/-! ### Samples -/

/-- What is computed on `f32`: its zero, `clamp(-1.0, 1.0)`, `f32::from_le_bytes` and
`s16_to_f32`. -/
structure Floats (σ : Type) where
  zero : σ
  clamp : σ → σ
  fromLeBytes : Bytes → σ
  ofS16 : ℤ → σ

/-- A sample encoding: each sample is `width` items of the input. -/
structure SampleEncoding (ι σ : Type) where
  name : String
  width : ℕ
  width_pos : 0 < width
  convert : List ι → σ

def clampI16 (x : ℤ) : ℤ := max (-32768) (min x 32767)

def i16FromLeBytes (bytes : Bytes) : ℤ :=
  let n := (bytes.getD 0 0).toNat + 256 * (bytes.getD 1 0).toNat
  if n < 32768 then n else n - 65536

def decodeMulaw (sample : UInt8) : ℤ :=
  let bias : ℤ := 0x84
  let sample := ~~~sample
  let magnitude : ℤ :=
    (((sample &&& 0x0f).toNat : ℤ) * 2 ^ 3 + bias) * 2 ^ ((sample &&& 0x70) >>> 4).toNat
  clampI16 (if sample &&& 0x80 = 0 then magnitude - bias else bias - magnitude)

def decodeAlaw (sample : UInt8) : ℤ :=
  let sample := sample ^^^ 0x55
  let segment := ((sample &&& 0x70) >>> 4).toNat
  let magnitude : ℤ := ((sample &&& 0x0f).toNat : ℤ) * 2 ^ 4
  let magnitude :=
    if segment = 0 then magnitude + 8
    else if segment > 1 then (magnitude + 0x108) * 2 ^ (segment - 1)
    else magnitude + 0x108
  clampI16 (if sample &&& 0x80 = 0 then -magnitude else magnitude)

section Encodings

variable {ι σ : Type} (F : Floats σ)

def f32 : SampleEncoding σ σ where
  name := "f32"
  width := 1
  width_pos := Nat.one_pos
  convert sample := F.clamp (sample.headD F.zero)

def s16 : SampleEncoding ℤ σ where
  name := "s16"
  width := 1
  width_pos := Nat.one_pos
  convert sample := F.ofS16 (sample.headD 0)

def f32Le : SampleEncoding UInt8 σ where
  name := "f32le"
  width := 4
  width_pos := Nat.succ_pos 3
  convert sample := F.clamp (F.fromLeBytes sample)

def s16Le : SampleEncoding UInt8 σ where
  name := "s16le"
  width := 2
  width_pos := Nat.two_pos
  convert sample := F.ofS16 (i16FromLeBytes sample)

def muLaw : SampleEncoding UInt8 σ where
  name := "mulaw"
  width := 1
  width_pos := Nat.one_pos
  convert sample := F.ofS16 (decodeMulaw (sample.headD 0))

def aLaw : SampleEncoding UInt8 σ where
  name := "alaw"
  width := 1
  width_pos := Nat.one_pos
  convert sample := F.ofS16 (decodeAlaw (sample.headD 0))

/-- `sample_count`: `checked_byte_sample_count`, which always succeeds for items that are
samples. -/
def SampleEncoding.sampleCount (E : SampleEncoding ι σ) (samples : List ι) : Checked Error ℕ :=
  if samples.length % E.width ≠ 0 then
    .error (.failed (.sampleAlignment E.name samples.length E.width))
  else .ok (samples.length / E.width)

/-- The samples of the input as `f32`. -/
def SampleEncoding.toF32 (E : SampleEncoding ι σ) (samples : List ι) : List σ :=
  (chunksExact E.width samples).map E.convert

def SampleEncoding.appendF32 (E : SampleEncoding ι σ) (samples : List ι) (output : List σ) :
    Checked Error (List σ) := do
  let _ ← E.sampleCount samples
  .ok (output ++ E.toF32 samples)

end Encodings

/-! ### Channels -/

inductive ChannelLayout
  | mono
  | stereoInterleaved
  deriving DecidableEq, Repr

def ChannelLayout.channels : ChannelLayout → ℕ
  | mono => 1
  | stereoInterleaved => 2

def validateChannelAlignment (channels samples : ℕ) : Checked Error Unit :=
  if channels = 0 then .error (.failed .channelCountZero)
  else if samples % channels ≠ 0 then .error (.failed (.channelAlignment channels samples))
  else .ok ()

section Layouts

variable {ι σ : Type}

/-- `Vec::resize` -/
def resize {α : Type} (xs : List α) (len : ℕ) (value : α) : List α :=
  xs.take len ++ List.replicate (len - xs.length) value

namespace ChannelLayout

/-- The number of frames, and the output with their samples. -/
def appendSourceF32 (L : ChannelLayout) (E : SampleEncoding ι σ) (samples : List ι)
    (output : List σ) : Checked Error (ℕ × List σ) :=
  match L with
  | mono => do
    let start := output.length
    let output ← E.appendF32 samples output
    let frames ← guarded (start ≤ output.length) (output.length - start)
    .ok (frames, output)
  | stereoInterleaved => do
    let sampleCount ← E.sampleCount samples
    validateChannelAlignment stereoInterleaved.channels sampleCount
    let output ← E.appendF32 samples output
    .ok (sampleCount / stereoInterleaved.channels, output)

/-- `output[index] = sample` -/
def writeAt (output : List σ) (index : ℕ) (sample : σ) : Checked Error (List σ) :=
  guarded (index < output.length) (output.set index sample)

/-- The loop that doubles the samples in place, from the last one down. -/
def upmix (zero : σ) (start : ℕ) : ℕ → List σ → Checked Error (List σ)
  | 0, output => .ok output
  | index + 1, output => do
    let sample ← guarded (start + index < output.length) (output.getD (start + index) zero)
    let output ← writeAt output (start + index * 2) sample
    let output ← writeAt output (start + index * 2 + 1) sample
    upmix zero start index output

def appendStereoInterleavedFromSource (L : ChannelLayout) (zero : σ) (E : SampleEncoding ι σ)
    (samples : List ι) (output : List σ) : Checked Error (ℕ × List σ) :=
  match L with
  | mono => do
    let start := output.length
    let (frames, output) ← mono.appendSourceF32 E samples output
    let output ← upmix zero start frames (resize output (start + frames * 2) zero)
    .ok (frames, output)
  | stereoInterleaved => stereoInterleaved.appendSourceF32 E samples output

def appendStereoInterleaved (L : ChannelLayout) (samples output : List σ) :
    Checked Error (ℕ × List σ) :=
  match L with
  | mono => .ok (samples.length, output ++ samples.flatMap fun sample => [sample, sample])
  | stereoInterleaved => do
    validateChannelAlignment stereoInterleaved.channels samples.length
    .ok (samples.length / stereoInterleaved.channels, output ++ samples)

end ChannelLayout

end Layouts

/-! ### The encoder of a packet -/

inductive Application
  | voip
  | audio
  | restrictedLowDelay
  deriving DecidableEq, Repr

structure EncodeConfig where
  application : Application := .audio
  bitrateBps : ℕ := 128000
  cbr : Bool := true
  deriving DecidableEq, Repr

/-- `RawOpusEncoder`. `encode` returns how much of the buffer it has filled. -/
structure RawOpusEncoder (σ ω : Type) where
  create : Application → Except String ω
  configure : ω → (bitrateBps : ℕ) → (useCbr : Bool) → ω
  encode : ω → List σ → Bytes → Except String ℕ × Bytes × ω

/-- `StreamingSincResampler` for two different rates: made for an input rate, a length of blocks and
a number of channels. -/
structure SincResampler (σ ρ : Type) where
  create : (inputSampleRateHz chunkFrames channels : ℕ) → Except String ρ
  pushInto : ρ → List σ → Except Error (List σ) × ρ
  finishInto : ρ → Except Error (List σ) × ρ

/-- The parts that other crates bring. -/
structure Crates (σ ω ρ : Type) where
  floats : Floats σ
  opus : RawOpusEncoder σ ω
  resampler : SincResampler σ ρ

section Encoder

variable {ι σ ω ρ τ : Type}

/-- `PacketEncoder::new` -/
def PacketEncoder.new (opus : RawOpusEncoder σ ω) (config : EncodeConfig) : Except Error ω :=
  match opus.create config.application with
  | .error reason => .error (.operationFailed .createEncoder reason)
  | .ok encoder =>
    if 2 ^ 31 ≤ config.bitrateBps then .error (.opusBitrateTooLarge config.bitrateBps)
    else .ok (opus.configure encoder config.bitrateBps config.cbr)

/-- `encode_frame_to_slice` -/
def PacketEncoder.encodeFrameToSlice (opus : RawOpusEncoder σ ω) (encoder : ω) (frame : List σ)
    (output : Bytes) : Except Error ℕ × Bytes × ω :=
  if output.length < maxPacketBytes then
    (.error (.opusOutputBufferTooSmall maxPacketBytes output.length), output, encoder)
  else
    match opus.encode encoder frame output with
    | (.error reason, output, encoder) =>
      (.error (.operationFailed .encodeFrame reason), output, encoder)
    | (.ok written, output, encoder) => (.ok written, output, encoder)

/-- `encode_frame_into` -/
def PacketEncoder.encodeFrameInto (opus : RawOpusEncoder σ ω) (encoder : ω) (frame : List σ)
    (output : Bytes) : Except Error ℕ × Bytes × ω :=
  match encodeFrameToSlice opus encoder frame (resize output maxPacketBytes 0) with
  | (.error error, output, encoder) => (.error error, output, encoder)
  | (.ok written, output, encoder) => (.ok written, output.take written, encoder)

/-! ### Sinks -/

/-- `PacketSink`. The encoding function gets an empty buffer, and changes the packet encoder. -/
structure PacketSink (ω τ : Type) where
  encodePacket : τ → ω → (ω → Bytes → Except Error ℕ × Bytes × ω) → Except Error Unit × τ × ω

/-- `PacketSink for Vec<Packet>` -/
def vecSink : PacketSink ω (List Packet) where
  encodePacket packets encoder encode :=
    match encode encoder [] with
    | (.error error, _, encoder) => (.error error, packets, encoder)
    | (.ok _, bytes, encoder) => (.ok (), packets ++ [⟨bytes⟩], encoder)

structure PacketSpan where
  offset : ℕ
  len : ℕ
  deriving DecidableEq, Repr

structure PacketBatch where
  bytes : Bytes := []
  packets : List PacketSpan := []
  scratch : Bytes := []
  deriving DecidableEq, Repr

/-- `packet`: the bytes of a span. -/
def PacketBatch.packet (batch : PacketBatch) (span : PacketSpan) : Bytes :=
  slice batch.bytes span.offset (span.offset + span.len)

/-- `PacketSink for PacketBatch` -/
def batchSink : PacketSink ω PacketBatch where
  encodePacket batch encoder encode :=
    match encode encoder [] with
    | (.error error, scratch, encoder) => (.error error, { batch with scratch }, encoder)
    | (.ok _, scratch, encoder) => (.ok (),
        { bytes := batch.bytes ++ scratch
          packets := batch.packets ++ [⟨batch.bytes.length, scratch.length⟩]
          scratch }, encoder)

/-! ### The encoder of a stream -/

structure PcmEncoder (σ ω ρ : Type) where
  inputSampleRateHz : ℕ
  resampler : Option ρ
  packetEncoder : ω
  sourceSamples : List σ := []
  resampledSamples : List σ := []
  discordSamples : List σ := []
  pendingStereoSamples : List σ := []
  emittedPackets : ℕ := 0

def sourceBlockFrames (inputSampleRateHz : ℕ) : ℕ := max (inputSampleRateHz * 20 / 1000) 1

/-- The part of `StreamingSincResampler::new` that can fail: there is no resampler between equal
rates. -/
def newResampler (C : Crates σ ω ρ) (L : ChannelLayout) (inputSampleRateHz : ℕ) :
    Except Error (Option ρ) :=
  if L.channels = 0 then .error .channelCountZero
  else if sourceBlockFrames inputSampleRateHz = 0 then .error .resamplerChunkFramesZero
  else if inputSampleRateHz = sampleRateHz then .ok none
  else
    match C.resampler.create inputSampleRateHz (sourceBlockFrames inputSampleRateHz) L.channels with
    | .error reason => .error (.resampler reason)
    | .ok resampler => .ok (some resampler)

/-- A call on an encoder and a sink. -/
abbrev Call (σ ω ρ τ : Type) := Prog (PcmEncoder σ ω ρ × τ) (Failure Error)

namespace PcmEncoder

variable (C : Crates σ ω ρ) (S : PacketSink ω τ) (E : SampleEncoding ι σ) (L : ChannelLayout)

def new (inputSampleRateHz : ℕ) (config : EncodeConfig) : Except Error (PcmEncoder σ ω ρ) := do
  let resampler ← newResampler C L inputSampleRateHz
  let packetEncoder ← PacketEncoder.new C.opus config
  .ok { inputSampleRateHz, resampler, packetEncoder }

def resamplingRequired (e : PcmEncoder σ ω ρ) : Bool := e.inputSampleRateHz ≠ sampleRateHz

/-- The value of a computation that does not touch the encoder. -/
def lift {α : Type} (x : Checked Error α) : Call σ ω ρ τ α := ofResult id x

/-- `PcmFrame::from_stereo_interleaved`, and the packet of the frame. -/
def encodeFrame (frame : List σ) : Call σ ω ρ τ Unit :=
  if frame.length ≠ stereoSamplesPerBlock then
    throw (.failed (.pcmBlockSampleCount stereoSamplesPerBlock frame.length))
  else do
    let (e, sink) ← get
    let (result, sink, packetEncoder) := S.encodePacket sink e.packetEncoder fun encoder bytes =>
      PacketEncoder.encodeFrameInto C.opus encoder frame bytes
    set ({ e with packetEncoder }, sink)
    ofResult .failed result

def encodeStereoFrame (start stop : ℕ) : Call σ ω ρ τ Unit := do
  let (e, _) ← get
  let frame ← lift (guarded (start ≤ stop ∧ stop ≤ e.discordSamples.length)
    (slice e.discordSamples start stop))
  encodeFrame C S frame
  modify fun (e, sink) => ({ e with emittedPackets := e.emittedPackets + 1 }, sink)

def encodePendingBlock : Call σ ω ρ τ Unit := do
  let (e, _) ← get
  encodeFrame C S e.pendingStereoSamples
  modify fun (e, sink) =>
    ({ e with pendingStereoSamples := [], emittedPackets := e.emittedPackets + 1 }, sink)

/-- The start of `encode_discord_samples`, which fills the pending block: how many samples went
into it. -/
def fillPending : Call σ ω ρ τ ℕ := do
  let (e, _) ← get
  if e.pendingStereoSamples.isEmpty then pure 0
  else
    let needed ← lift (guarded (e.pendingStereoSamples.length ≤ stereoSamplesPerBlock)
      (stereoSamplesPerBlock - e.pendingStereoSamples.length))
    let available := min needed e.discordSamples.length
    let pending := e.pendingStereoSamples ++ e.discordSamples.take available
    modify fun (e, sink) => ({ e with pendingStereoSamples := pending }, sink)
    if pending.length = stereoSamplesPerBlock then encodePendingBlock C S
    pure available

/-- The loop of `encode_discord_samples`: where the samples that fill no block start. -/
def encodeBlocks (samples : List σ) (offset : ℕ) : Call σ ω ρ τ ℕ :=
  if samples.length < offset then throw .panicked
  else if _h : samples.length - offset ≥ stereoSamplesPerBlock then do
    encodeStereoFrame C S offset (offset + stereoSamplesPerBlock)
    encodeBlocks samples (offset + stereoSamplesPerBlock)
  else pure offset
termination_by samples.length - offset
decreasing_by
  have hpos : 0 < stereoSamplesPerBlock := by decide
  omega

def encodeDiscordSamples : Call σ ω ρ τ Unit := do
  let offset ← fillPending C S
  let (e, _) ← get
  let offset ← encodeBlocks C S e.discordSamples offset
  let rest ← lift (guarded (offset ≤ e.discordSamples.length) (e.discordSamples.drop offset))
  modify fun (e, sink) =>
    ({ e with pendingStereoSamples := e.pendingStereoSamples ++ rest }, sink)

def encodeResampled : Call σ ω ρ τ Unit := do
  let (e, _) ← get
  if e.resampledSamples.isEmpty then pure ()
  else
    modify fun (e, sink) => ({ e with discordSamples := [] }, sink)
    let (_, discordSamples) ← lift (L.appendStereoInterleaved e.resampledSamples [])
    modify fun (e, sink) => ({ e with discordSamples }, sink)
    encodeDiscordSamples C S

/-- A step of the resampler, whose output replaces `resampled_samples`. -/
def resample (step : ρ → Except Error (List σ) × ρ) : Call σ ω ρ τ Unit := do
  let (e, _) ← get
  modify fun (e, sink) => ({ e with resampledSamples := [] }, sink)
  match e.resampler with
  | none => throw (.failed .resamplerNotInitialized)
  | some resampler =>
    let (result, resampler) := step resampler
    modify fun (e, sink) => ({ e with resampler := some resampler }, sink)
    let resampledSamples ← ofResult .failed result
    modify fun (e, sink) => ({ e with resampledSamples }, sink)

/-- The packets since `before`. -/
def emittedSince (before : ℕ) : Call σ ω ρ τ ℕ := do
  let (e, _) ← get
  lift (guarded (before ≤ e.emittedPackets) (e.emittedPackets - before))

/-- The branch of `push_to` for input at another rate. -/
def pushResampled (samples : List ι) : Call σ ω ρ τ ℕ := do
  let (e, _) ← get
  modify fun (e, sink) => ({ e with sourceSamples := [] }, sink)
  let (_, sourceSamples) ← lift (L.appendSourceF32 E samples [])
  modify fun (e, sink) => ({ e with sourceSamples }, sink)
  if sourceSamples.isEmpty then pure 0
  else
    resample fun resampler => C.resampler.pushInto resampler sourceSamples
    encodeResampled C S L
    emittedSince e.emittedPackets

/-- The branch of `push_to` for input at 48 kHz. -/
def pushDirect (samples : List ι) : Call σ ω ρ τ ℕ := do
  let (e, _) ← get
  modify fun (e, sink) => ({ e with discordSamples := [] }, sink)
  let (_, discordSamples) ←
    lift (L.appendStereoInterleavedFromSource C.floats.zero E samples [])
  modify fun (e, sink) => ({ e with discordSamples }, sink)
  encodeDiscordSamples C S
  emittedSince e.emittedPackets

def pushTo (samples : List ι) : Call σ ω ρ τ ℕ := do
  let (e, _) ← get
  if e.resamplingRequired then pushResampled C S E L samples else pushDirect C S E L samples

/-- The end of `finish_to`: the pending samples, padded to a block. -/
def finishPending : Call σ ω ρ τ Unit := do
  let (e, _) ← get
  if e.pendingStereoSamples.isEmpty then pure ()
  else
    modify fun (e, sink) => ({ e with
      pendingStereoSamples :=
        resize e.pendingStereoSamples stereoSamplesPerBlock C.floats.zero }, sink)
    encodePendingBlock C S

/-- The start of `finish_to`: what the resampler still has. -/
def finishResampler : Call σ ω ρ τ Unit := do
  let (e, _) ← get
  if e.resamplingRequired then
    resample C.resampler.finishInto
    encodeResampled C S L
  else pure ()

def finishTo : Call σ ω ρ τ ℕ := do
  let (e, _) ← get
  finishResampler C S L
  finishPending C S
  emittedSince e.emittedPackets

/-- `encode_all` and `encode_all_batch`, by their sink and its first value. -/
def encodeAllTo (sink : τ) (inputSampleRateHz : ℕ) (samples : List ι) (config : EncodeConfig) :
    Checked Error τ :=
  match new C L inputSampleRateHz config with
  | .error error => .error (.failed error)
  | .ok encoder =>
    match exec (do let _ ← pushTo C S E L samples; finishTo C S L) (encoder, sink) with
    | (.error failure, _) => .error failure
    | (.ok _, (_, sink)) => .ok sink

def encodeAll (inputSampleRateHz : ℕ) (samples : List ι) (config : EncodeConfig) :
    Checked Error (List Packet) :=
  encodeAllTo C vecSink E L [] inputSampleRateHz samples config

def encodeAllBatch (inputSampleRateHz : ℕ) (samples : List ι) (config : EncodeConfig) :
    Checked Error PacketBatch :=
  encodeAllTo C batchSink E L {} inputSampleRateHz samples config

end PcmEncoder

end Encoder

end Cacophony.Pcm
