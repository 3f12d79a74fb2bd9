import Cacophony.PcmStreaming

/-!
An encoder that learns its format from the first chunk.

A chunk of another format is turned away, and nothing changes. The first chunk is different: its
format is noted down before an encoder is made for it. When none can be made the format stays, and
every chunk from then on is compared with it.
-/

namespace Cacophony.DynamicPcm

open Progs Panics Pcm OpusPackets PcmStreaming

variable {σ ω ρ τ : Type}

/-! ### Chunks -/

inductive PcmEncoding
  | f32Le
  | s16Le
  | muLaw
  | aLaw
  deriving DecidableEq, Repr

/-- The sample encoding that an encoding is visited with. -/
def PcmEncoding.sampleEncoding (F : Floats σ) : PcmEncoding → SampleEncoding UInt8 σ
  | f32Le => Pcm.f32Le F
  | s16Le => Pcm.s16Le F
  | muLaw => Pcm.muLaw F
  | aLaw => Pcm.aLaw F

def PcmEncoding.bytesPerSample : PcmEncoding → ℕ
  | f32Le => 4
  | s16Le => 2
  | muLaw => 1
  | aLaw => 1

structure PcmFormat where
  sampleRateHz : ℕ
  channels : ℕ
  encoding : PcmEncoding
  sampleRateHz_pos : 0 < sampleRateHz
  channels_pos : 0 < channels
  deriving DecidableEq

/-- A chunk has passed `validate_pcm_bytes`: it is whole samples, and these are whole frames. -/
structure PcmChunk where
  format : PcmFormat
  data : Bytes
  samples_dvd : format.encoding.bytesPerSample ∣ data.length
  frames_dvd : format.channels ∣ data.length / format.encoding.bytesPerSample

/-! ### The encoder -/

/-- `DynamicPcmEncoderInner`: an encoder with the layout and the encoding that it is typed by. -/
structure DynamicPcmEncoderInner (σ ω ρ : Type) where
  layout : ChannelLayout
  encoding : PcmEncoding
  encoder : PcmEncoder σ ω ρ

structure DynamicPcmEncoder (σ ω ρ : Type) where
  sourceFormat : Option PcmFormat := none
  sourcePcmBytes : ℕ := 0
  encoder : Option (DynamicPcmEncoderInner σ ω ρ) := none

section

variable (C : Crates σ ω ρ) (S : PacketSink ω τ)

namespace DynamicPcmEncoderInner

/-- `DynamicPcmLayoutEncoder::new` -/
def newLayout (layout : ChannelLayout) (format : PcmFormat) :
    Except Error (DynamicPcmEncoderInner σ ω ρ) :=
  (PcmEncoder.new C layout format.sampleRateHz {}).map fun encoder =>
    ⟨layout, format.encoding, encoder⟩

def new (format : PcmFormat) : Except Error (DynamicPcmEncoderInner σ ω ρ) :=
  if format.channels = 1 then newLayout C .mono format
  else if format.channels = 2 then newLayout C .stereoInterleaved format
  else .error (.unsupportedChannelCount format.channels)

/-- `push` -/
def push (inner : DynamicPcmEncoderInner σ ω ρ) (data : Bytes) (sink : τ) :
    Except (Failure Error) ℕ × DynamicPcmEncoderInner σ ω ρ × τ :=
  let call := exec (PcmEncoder.pushTo C S (inner.encoding.sampleEncoding C.floats) inner.layout
    data) (inner.encoder, sink)
  (call.1, { inner with encoder := call.2.1 }, call.2.2)

end DynamicPcmEncoderInner

namespace DynamicPcmEncoder

/-- The arms of `accept_format` for a format that is not the established one. -/
def mixed (existing format : PcmFormat) : Error :=
  if existing.sampleRateHz ≠ format.sampleRateHz then
    .discordPcmMixedSampleRates existing.sampleRateHz format.sampleRateHz
  else if existing.channels ≠ format.channels then
    .discordPcmMixedChannelCounts existing.channels format.channels
  else .discordPcmMixedEncoding

def acceptFormat (format : PcmFormat) : Prog (DynamicPcmEncoder σ ω ρ) (Failure Error) Unit := do
  let d ← get
  match d.sourceFormat with
  | none =>
    set { d with sourceFormat := some format }
    let inner ← ofResult .failed (DynamicPcmEncoderInner.new C format)
    set { d with sourceFormat := some format, encoder := some inner }
  | some existing => if existing = format then pure () else throw (.failed (mixed existing format))

/-- `push_chunk_to` -/
def pushChunkTo (chunk : PcmChunk) (d : DynamicPcmEncoder σ ω ρ) (sink : τ) :
    Except (Failure Error) ℕ × DynamicPcmEncoder σ ω ρ × τ :=
  match exec (acceptFormat C chunk.format) d with
  | (.error failure, d) => (.error failure, d, sink)
  | (.ok _, d) =>
    let d := { d with sourcePcmBytes := d.sourcePcmBytes + chunk.data.length }
    match d.encoder with
    | none => (.error (.failed .discordPcmEncoderUninitialized), d, sink)
    | some inner =>
      let (result, inner, sink) := inner.push C S chunk.data sink
      (result, { d with encoder := some inner }, sink)

/-- Further chunks: what each call returns, and what they leave. -/
def pushChunks : List PcmChunk → DynamicPcmEncoder σ ω ρ → τ →
    List (Except (Failure Error) ℕ) × DynamicPcmEncoder σ ω ρ × τ
  | [], d, sink => ([], d, sink)
  | chunk :: chunks, d, sink =>
    let call := pushChunkTo C S chunk d sink
    let rest := pushChunks chunks call.2.1 call.2.2
    (call.1 :: rest.1, rest.2)

end DynamicPcmEncoder

end

/-! ### Rejected chunks -/

variable {C : Crates σ ω ρ} {S : PacketSink ω τ} {d : DynamicPcmEncoder σ ω ρ} {chunk : PcmChunk}
  {format : PcmFormat} {failure : Failure Error}

open DynamicPcmEncoder

/-- The format of the chunk is rejected: by `accept_format`, or by `encoder_mut` when no encoder
was made for the established one. -/
inductive Rejected (C : Crates σ ω ρ) (chunk : PcmChunk) (d : DynamicPcmEncoder σ ω ρ) :
    Failure Error → Prop
  | format {failure : Failure Error}
      (h : (exec (acceptFormat C chunk.format) d).1 = .error failure) : Rejected C chunk d failure
  | uninitialized (hok : (exec (acceptFormat C chunk.format) d).1 = .ok ())
      (hnone : (exec (acceptFormat C chunk.format) d).2.encoder = none) :
      Rejected C chunk d (.failed .discordPcmEncoderUninitialized)

variable (C format) in
lemma exec_acceptFormat_none (h : d.sourceFormat = none) :
    exec (acceptFormat C format) d = match DynamicPcmEncoderInner.new C format with
      | .error error => (.error (.failed error), { d with sourceFormat := some format })
      | .ok inner => (.ok (), { d with sourceFormat := some format, encoder := some inner }) := by
  rw [acceptFormat, exec_get_bind]
  simp only [h]
  rcases DynamicPcmEncoderInner.new C format with error | inner <;> rfl

lemma exec_acceptFormat_some {existing : PcmFormat} (h : d.sourceFormat = some existing) :
    exec (acceptFormat C format) d =
      (if existing = format then .ok () else .error (.failed (mixed existing format)), d) := by
  rw [acceptFormat, exec_get_bind]
  simp only [h]
  split <;> rfl

/-- What a rejected chunk leaves: its format, if none was established, and its bytes in the count,
if its format was. -/
lemma Rejected.pushChunkTo (h : Rejected C chunk d failure) (sink : τ) :
    pushChunkTo C S chunk d sink = (.error failure,
      { d with
        sourceFormat := some (d.sourceFormat.getD chunk.format)
        sourcePcmBytes := d.sourcePcmBytes +
          if d.sourceFormat = some chunk.format then chunk.data.length else 0 }, sink) := by
  obtain ⟨_ | existing, bytes, encoder⟩ := d
  · have hexec := exec_acceptFormat_none C (d := ⟨none, bytes, encoder⟩) chunk.format rfl
    rcases hnew : DynamicPcmEncoderInner.new C chunk.format with error | inner
    all_goals rw [hnew] at hexec
    · cases h with
      | format h =>
        rw [hexec] at h
        cases h
        rw [DynamicPcmEncoder.pushChunkTo, hexec]
        rfl
      | uninitialized hok _ =>
        rw [hexec] at hok
        cases hok
    · cases h with
      | format h =>
        rw [hexec] at h
        cases h
      | uninitialized _ hnone =>
        rw [hexec] at hnone
        cases hnone
  · rw [DynamicPcmEncoder.pushChunkTo, exec_acceptFormat_some rfl]
    cases h with
    | format h =>
      rw [exec_acceptFormat_some rfl] at h
      split at h
      · cases h
      next hne =>
        cases h
        simp [hne]
    | uninitialized hok hnone =>
      rw [exec_acceptFormat_some rfl] at hok hnone
      split at hok
      next heq =>
        obtain rfl : encoder = none := hnone
        simp [heq]
      · cases hok

/-- **Rejected.** A chunk whose format is rejected leaves the encoder as it was, for this and for
all later chunks, exactly when another format had been established before. If it was that of the
chunk, for which no encoder was made, the bytes of the chunk are counted. -/
theorem rejected_unchanged_iff (h : Rejected C chunk d failure) (S : PacketSink ω τ) (sink : τ) :
    (pushChunkTo C S chunk d sink).1 = .error failure ∧
      (((pushChunkTo C S chunk d sink).2 = (d, sink) ∧
          ∀ later, pushChunks C S later (pushChunkTo C S chunk d sink).2.1
            (pushChunkTo C S chunk d sink).2.2 = pushChunks C S later d sink) ↔
        d.sourceFormat.isSome = true ∧ (d.sourceFormat = some chunk.format → chunk.data = [])) := by
  rw [h.pushChunkTo]
  refine ⟨rfl, ?_, ?_⟩
  · rintro ⟨hsame, -⟩
    have hformat := congrArg (fun x => x.1.sourceFormat) hsame
    have hbytes := congrArg (fun x => x.1.sourcePcmBytes) hsame
    dsimp only at hformat hbytes
    refine ⟨by rw [← hformat]; rfl, fun heq => List.length_eq_zero_iff.mp ?_⟩
    rw [if_pos heq] at hbytes
    omega
  · rintro ⟨hsome, hempty⟩
    obtain ⟨existing, hformat⟩ := Option.isSome_iff_exists.mp hsome
    have hbytes : (if d.sourceFormat = some chunk.format then chunk.data.length else 0) = 0 := by
      split
      next heq => rw [hempty heq, List.length_nil]
      next => rfl
    have hsame : { d with
        sourceFormat := some (d.sourceFormat.getD chunk.format)
        sourcePcmBytes := d.sourcePcmBytes +
          if d.sourceFormat = some chunk.format then chunk.data.length else 0 } = d := by
      rw [hbytes, hformat, Option.getD_some, ← hformat]
      rfl
    dsimp only
    rw [hsame]
    exact ⟨rfl, fun _ => rfl⟩

/-! ### A first chunk of three channels -/

/-- One frame of silence at 48 kHz. -/
def silence (channels : ℕ) (h : 0 < channels) : PcmChunk where
  format := ⟨sampleRateHz, channels, .s16Le, by decide, h⟩
  data := List.replicate (2 * channels) 0
  samples_dvd := by simp [PcmEncoding.bytesPerSample]
  frames_dvd := by simp [PcmEncoding.bytesPerSample]

def mono : PcmChunk := silence 1 Nat.one_pos
def stereo : PcmChunk := silence 2 (by decide)
def threeChannels : PcmChunk := silence 3 (by decide)

abbrev toyCrates : Crates ℤ ℕ Unit := countingMachine.crates integers noResampler

/-- The encoder behind a mono chunk that it has accepted. -/
def afterMono : DynamicPcmEncoder ℤ ℕ Unit := (pushChunkTo toyCrates vecSink mono {} []).2.1

/-- A chunk of another format is rejected, and nothing changes. -/
theorem rejected_unchanged_stereo :
    (pushChunkTo toyCrates vecSink mono {} []).1 = .ok 0 ∧ afterMono.encoder.isSome = true ∧
      Rejected toyCrates stereo afterMono (.failed (.discordPcmMixedChannelCounts 1 2)) ∧
      (pushChunkTo toyCrates vecSink stereo afterMono []).2 = (afterMono, []) := by
  have hformat : afterMono.sourceFormat = some mono.format := by decide +kernel
  have hne : mono.format ≠ stereo.format := by decide
  have h : Rejected toyCrates stereo afterMono (.failed (.discordPcmMixedChannelCounts 1 2)) := by
    refine .format ?_
    rw [exec_acceptFormat_some hformat, if_neg hne]
    rfl
  refine ⟨by decide +kernel, by decide +kernel, h, ?_⟩
  refine ((rejected_unchanged_iff h vecSink []).2.mpr ⟨by rw [hformat]; rfl, fun heq => ?_⟩).1
  exact absurd (Option.some.inj (hformat.symm.trans heq)) hne

/-- A first chunk of three channels is rejected. The next one is counted and fails for want of an
encoder, and the mono chunk behind it is rejected too, which a new encoder accepts. -/
theorem rejected_first_chunk :
    let r := pushChunks toyCrates vecSink [threeChannels, threeChannels, mono] {} []
    r.1 = [.error (.failed (.unsupportedChannelCount 3)),
        .error (.failed .discordPcmEncoderUninitialized),
        .error (.failed (.discordPcmMixedChannelCounts 3 1))] ∧
      r.2.1.sourceFormat = some threeChannels.format ∧ r.2.1.sourcePcmBytes = 6 ∧
      (pushChunks toyCrates vecSink [mono] {} []).1 = [.ok 0] := by
  refine ⟨rfl, rfl, rfl, ?_⟩
  decide +kernel

end Cacophony.DynamicPcm
