import Cacophony.Pcm
import Mathlib.Data.List.Induction

/-!
Streaming a signal is encoding it at once.

At 48 kHz nothing is resampled. Whatever the calls, the samples so far are the blocks that were
encoded and the pending ones behind them; a call takes this from one cut of the signal to the next.
So the packets of any split are those of the whole signal in blocks, the last one filled up with
zeros, and a batch has them one behind the other.
-/

namespace Cacophony.PcmStreaming

open Progs Panics Chunks OpusPackets Pcm

variable {ι σ ω ρ τ : Type}

/-! ### An encoder that does not fail -/

/-- A deterministic Opus encoder: every block has a packet. -/
structure Machine (σ ω : Type) where
  create : Application → ω
  configure : ω → ℕ → Bool → ω
  step : ω → List σ → Bytes × ω
  length_le : ∀ w block, (step w block).1.length ≤ maxPacketBytes

namespace Machine

variable (M : Machine σ ω)

/-- The packets of the blocks. -/
def packets : ω → List (List σ) → List Bytes
  | _, [] => []
  | w, block :: blocks => (M.step w block).1 :: packets (M.step w block).2 blocks

/-- The encoder behind the blocks. -/
def after (w : ω) (blocks : List (List σ)) : ω := blocks.foldl (fun w block => (M.step w block).2) w

lemma packets_append (w : ω) (bs bs' : List (List σ)) :
    M.packets w (bs ++ bs') = M.packets w bs ++ M.packets (M.after w bs) bs' := by
  induction bs generalizing w with
  | nil => rfl
  | cons b bs ih =>
    rw [List.cons_append, packets, ih, packets, List.cons_append]
    rfl

lemma after_append (w : ω) (bs bs' : List (List σ)) :
    M.after w (bs ++ bs') = M.after (M.after w bs) bs' :=
  List.foldl_append

@[simp] lemma length_packets (w : ω) (bs : List (List σ)) :
    (M.packets w bs).length = bs.length := by
  induction bs generalizing w with
  | nil => rfl
  | cons b bs ih => rw [packets, List.length_cons, ih, List.length_cons]

/-- The machine as an encoder that writes into a buffer. -/
def opus : RawOpusEncoder σ ω where
  create application := .ok (M.create application)
  configure := M.configure
  encode w block output :=
    (.ok (M.step w block).1.length,
      (M.step w block).1 ++ output.drop (M.step w block).1.length, (M.step w block).2)

def crates (F : Floats σ) (R : SincResampler σ ρ) : Crates σ ω ρ := ⟨F, M.opus, R⟩

lemma encodeFrameInto_eq (w : ω) (frame : List σ) :
    PacketEncoder.encodeFrameInto M.opus w frame [] =
      (.ok (M.step w frame).1.length, (M.step w frame).1, (M.step w frame).2) := by
  have hresize : resize ([] : Bytes) maxPacketBytes 0 = List.replicate maxPacketBytes 0 := by
    rw [resize, List.take_nil, List.nil_append, List.length_nil, Nat.sub_zero]
  rw [PacketEncoder.encodeFrameInto, hresize, PacketEncoder.encodeFrameToSlice,
    List.length_replicate, if_neg (Nat.lt_irrefl _)]
  simp only [opus, List.take_left']

end Machine

/-! ### Sinks -/

/-- A sink that takes the packets of successful encodings by `append`. -/
def Appends (S : PacketSink ω τ) (append : τ → Bytes → τ) : Prop :=
  ∀ sink w (encode : ω → Bytes → Except Error ℕ × Bytes × ω) written bytes w',
    encode w [] = (.ok written, bytes, w') →
      S.encodePacket sink w encode = (.ok (), append sink bytes, w')

lemma appends_vecSink : Appends (vecSink : PacketSink ω (List Packet))
    fun packets bytes => packets ++ [⟨bytes⟩] := by
  intro sink w encode written bytes w' h
  simp only [vecSink, h]

/-- The batch with one more packet. -/
def extended (batch : PacketBatch) (bytes : Bytes) : PacketBatch where
  bytes := batch.bytes ++ bytes
  packets := batch.packets ++ [⟨batch.bytes.length, bytes.length⟩]
  scratch := bytes

lemma appends_batchSink : Appends (batchSink : PacketSink ω PacketBatch) extended := by
  intro sink w encode written bytes w' h
  simp only [batchSink, h]
  rfl

/-! ### Blocks -/

section Calls

variable {M : Machine σ ω} {F : Floats σ} {R : SincResampler σ ρ} {S : PacketSink ω τ}
  {append : τ → Bytes → τ} {e : PcmEncoder σ ω ρ} {t : τ}

/-- The encoder and the sink behind further blocks. -/
def emitted (M : Machine σ ω) (append : τ → Bytes → τ) (bs : List (List σ))
    (x : PcmEncoder σ ω ρ × τ) : PcmEncoder σ ω ρ × τ :=
  ({ x.1 with
      packetEncoder := M.after x.1.packetEncoder bs
      emittedPackets := x.1.emittedPackets + bs.length },
    (M.packets x.1.packetEncoder bs).foldl append x.2)

/-- The encoder with other pending samples. -/
def withPending (pending : List σ) (x : PcmEncoder σ ω ρ × τ) : PcmEncoder σ ω ρ × τ :=
  ({ x.1 with pendingStereoSamples := pending }, x.2)

lemma emitted_append (bs bs' : List (List σ)) (x : PcmEncoder σ ω ρ × τ) :
    emitted M append (bs ++ bs') x = emitted M append bs' (emitted M append bs x) := by
  simp only [emitted, M.after_append, M.packets_append, List.foldl_append, List.length_append,
    Nat.add_assoc]

lemma emitted_withPending (bs : List (List σ)) (pending : List σ) (x : PcmEncoder σ ω ρ × τ) :
    emitted M append bs (withPending pending x) = withPending pending (emitted M append bs x) :=
  rfl

lemma exec_encodeFrame (hS : Appends S append) {frame : List σ}
    (h : frame.length = stereoSamplesPerBlock) :
    exec (PcmEncoder.encodeFrame (M.crates F R) S frame) (e, t) =
      (.ok (), { e with packetEncoder := (M.step e.packetEncoder frame).2 },
        append t (M.step e.packetEncoder frame).1) := by
  have hpacket := hS t e.packetEncoder
    (fun encoder bytes => PacketEncoder.encodeFrameInto M.opus encoder frame bytes) _ _ _
    (M.encodeFrameInto_eq e.packetEncoder frame)
  rw [PcmEncoder.encodeFrame, if_neg (not_not.mpr h), exec_get_bind]
  simp only [Machine.crates, hpacket]
  rfl

lemma exec_encodeStereoFrame (hS : Appends S append) {offset : ℕ}
    (h : offset + stereoSamplesPerBlock ≤ e.discordSamples.length) :
    exec (PcmEncoder.encodeStereoFrame (M.crates F R) S offset (offset + stereoSamplesPerBlock))
        (e, t) =
      (.ok (), emitted M append
        [slice e.discordSamples offset (offset + stereoSamplesPerBlock)] (e, t)) := by
  have hframe : (slice e.discordSamples offset (offset + stereoSamplesPerBlock)).length =
      stereoSamplesPerBlock := by
    rw [length_slice]
    omega
  rw [PcmEncoder.encodeStereoFrame, exec_get_bind]
  simp only [PcmEncoder.lift, guarded_of (show offset ≤ offset + stereoSamplesPerBlock ∧
    offset + stereoSamplesPerBlock ≤ e.discordSamples.length from ⟨Nat.le_add_right _ _, h⟩),
    ofResult, pure_bind]
  rw [exec_bind_of_ok (exec_encodeFrame hS hframe)]
  rfl

lemma exec_encodePendingBlock (hS : Appends S append)
    (h : e.pendingStereoSamples.length = stereoSamplesPerBlock) :
    exec (PcmEncoder.encodePendingBlock (M.crates F R) S) (e, t) =
      (.ok (), withPending [] (emitted M append [e.pendingStereoSamples] (e, t))) := by
  rw [PcmEncoder.encodePendingBlock, exec_get_bind]
  dsimp only
  rw [exec_bind_of_ok (exec_encodeFrame hS h)]
  rfl

/-- The loop takes the blocks behind the offset, and stops at the samples that fill none. -/
lemma exec_encodeBlocks (hS : Appends S append) (samples : List σ) (offset : ℕ)
    (x : PcmEncoder σ ω ρ × τ) (hsamples : x.1.discordSamples = samples)
    (hoffset : offset ≤ samples.length) :
    ∃ bs rest stop, Cut stereoSamplesPerBlock (samples.drop offset) bs rest ∧
      stop ≤ samples.length ∧ samples.drop stop = rest ∧
      exec (PcmEncoder.encodeBlocks (M.crates F R) S samples offset) x =
        (.ok stop, emitted M append bs x) := by
  induction hleft : samples.length - offset using Nat.strong_induction_on
    generalizing offset x with
  | _ left ih =>
    have hpos : 0 < stereoSamplesPerBlock := by decide
    rw [PcmEncoder.encodeBlocks, if_neg (Nat.not_lt.mpr hoffset)]
    split
    · next hfull =>
      set block := slice samples offset (offset + stereoSamplesPerBlock) with hblock
      have hstep : exec (PcmEncoder.encodeStereoFrame (M.crates F R) S offset
          (offset + stereoSamplesPerBlock)) x = (.ok (), emitted M append [block] x) := by
        rw [hblock, ← hsamples]
        exact exec_encodeStereoFrame hS (by rw [hsamples]; omega)
      obtain ⟨bs, rest, stop, hcut, hstop, hrest, hexec⟩ := ih _ (by omega)
        (offset + stereoSamplesPerBlock) (emitted M append [block] x) hsamples (by omega) rfl
      refine ⟨block :: bs, rest, stop, ?_, hstop, hrest, ?_⟩
      · rw [drop_eq_slice_append samples (Nat.le_add_right offset stereoSamplesPerBlock)]
        refine hcut.cons ?_
        rw [length_slice]
        omega
      · rw [exec_bind_of_ok hstep, hexec, ← emitted_append, List.singleton_append]
    · next hfull =>
      refine ⟨[], samples.drop offset, offset, cut_rest ?_, hoffset, rfl, rfl⟩
      rw [List.length_drop]
      omega

/-- The pending samples are first filled up to a block. Either they are a block then, which is
encoded, or all the samples are among them. -/
lemma exec_fillPending (hS : Appends S append)
    (h : e.pendingStereoSamples.length < stereoSamplesPerBlock) :
    (e.pendingStereoSamples = [] ∧
      exec (PcmEncoder.fillPending (M.crates F R) S) (e, t) = (.ok 0, e, t)) ∨
    (∃ front rest, e.discordSamples = front ++ rest ∧
      (e.pendingStereoSamples ++ front).length = stereoSamplesPerBlock ∧
      exec (PcmEncoder.fillPending (M.crates F R) S) (e, t) = (.ok front.length,
        withPending [] (emitted M append [e.pendingStereoSamples ++ front] (e, t)))) ∨
    ((e.pendingStereoSamples ++ e.discordSamples).length < stereoSamplesPerBlock ∧
      exec (PcmEncoder.fillPending (M.crates F R) S) (e, t) =
        (.ok e.discordSamples.length,
          withPending (e.pendingStereoSamples ++ e.discordSamples) (e, t))) := by
  have hneeded : (guarded (e.pendingStereoSamples.length ≤ stereoSamplesPerBlock)
      (stereoSamplesPerBlock - e.pendingStereoSamples.length) : Checked Error ℕ) =
        .ok (stereoSamplesPerBlock - e.pendingStereoSamples.length) := guarded_of h.le
  by_cases hempty : e.pendingStereoSamples = []
  · refine .inl ⟨hempty, ?_⟩
    rw [PcmEncoder.fillPending, exec_get_bind]
    simp [hempty]
  · refine .inr ?_
    rw [PcmEncoder.fillPending, exec_get_bind]
    simp only [List.isEmpty_iff, hempty, if_false, PcmEncoder.lift, hneeded, ofResult, pure_bind]
    rw [exec_modify_bind]
    by_cases hfull : stereoSamplesPerBlock - e.pendingStereoSamples.length ≤ e.discordSamples.length
    · set needed := stereoSamplesPerBlock - e.pendingStereoSamples.length with hdef
      have hlength : (e.pendingStereoSamples ++ e.discordSamples.take needed).length =
          stereoSamplesPerBlock := by
        rw [List.length_append, List.length_take, Nat.min_eq_left hfull]
        omega
      refine .inl ⟨e.discordSamples.take needed, e.discordSamples.drop needed,
        (List.take_append_drop _ _).symm, hlength, ?_⟩
      rw [Nat.min_eq_left hfull, if_pos hlength, List.length_take, Nat.min_eq_left hfull]
      exact (exec_bind_of_ok (exec_encodePendingBlock hS hlength) _).trans rfl
    · have hall : min (stereoSamplesPerBlock - e.pendingStereoSamples.length)
          e.discordSamples.length = e.discordSamples.length := by
        omega
      have hlength : (e.pendingStereoSamples ++ e.discordSamples).length <
          stereoSamplesPerBlock := by
        rw [List.length_append]
        omega
      refine .inr ⟨hlength, ?_⟩
      rw [hall, List.take_length, if_neg hlength.ne]
      rfl

/-- The samples go behind the pending ones, and the blocks among them are encoded. -/
lemma exec_encodeDiscordSamples (hS : Appends S append)
    (h : e.pendingStereoSamples.length < stereoSamplesPerBlock) :
    ∃ bs rest, Cut stereoSamplesPerBlock (e.pendingStereoSamples ++ e.discordSamples) bs rest ∧
      exec (PcmEncoder.encodeDiscordSamples (M.crates F R) S) (e, t) =
        (.ok (), withPending rest (emitted M append bs (e, t))) := by
  -- the rest of the call, from a state that the first part leaves
  have hrest : ∀ (x : PcmEncoder σ ω ρ × τ) (offset : ℕ), x.1.discordSamples = e.discordSamples →
      offset ≤ e.discordSamples.length →
      exec (PcmEncoder.fillPending (M.crates F R) S) (e, t) = (.ok offset, x) →
      ∃ bs rest, Cut stereoSamplesPerBlock (e.discordSamples.drop offset) bs rest ∧
        exec (PcmEncoder.encodeDiscordSamples (M.crates F R) S) (e, t) =
          (.ok (), withPending (x.1.pendingStereoSamples ++ rest) (emitted M append bs x)) := by
    intro x offset hsamples hoffset hfill
    obtain ⟨bs, rest, stop, hcut, hstop, hdrop, hexec⟩ := exec_encodeBlocks (F := F) (R := R)
      (M := M) hS e.discordSamples offset x hsamples hoffset
    refine ⟨bs, rest, hcut, ?_⟩
    rw [PcmEncoder.encodeDiscordSamples, exec_bind_of_ok hfill, exec_get_bind]
    dsimp only
    rw [hsamples, exec_bind_of_ok hexec, guarded_of hstop, hdrop]
    rfl
  rcases exec_fillPending (F := F) (R := R) (M := M) (t := t) hS h with
    ⟨hempty, hfill⟩ | ⟨front, tail, hsplit, hfull, hfill⟩ | ⟨hshort, hfill⟩
  · obtain ⟨bs, rest, hcut, hexec⟩ := hrest _ 0 rfl (Nat.zero_le _) hfill
    refine ⟨bs, rest, ?_, ?_⟩
    · rw [hempty]
      exact hcut
    · rw [hexec, hempty]
      rfl
  · obtain ⟨bs, rest, hcut, hexec⟩ := hrest _ front.length rfl (by simp [hsplit]) hfill
    refine ⟨(e.pendingStereoSamples ++ front) :: bs, rest, ?_, ?_⟩
    · rw [hsplit, ← List.append_assoc]
      rw [hsplit, List.drop_left] at hcut
      exact hcut.cons hfull
    · rw [hexec, emitted_withPending, ← emitted_append, List.singleton_append]
      rfl
  · obtain ⟨bs, rest, hcut, hexec⟩ := hrest _ e.discordSamples.length rfl le_rfl hfill
    rw [List.drop_length] at hcut
    obtain ⟨rfl, rfl⟩ := hcut.unique (cut_rest (Nat.zero_lt_of_lt h))
    refine ⟨[], _, cut_rest hshort, ?_⟩
    rw [hexec, List.append_nil]
    rfl

end Calls

/-! ### Samples -/

/-- The stereo samples of a layout. -/
def stereo (L : ChannelLayout) (samples : List σ) : List σ :=
  match L with
  | .mono => samples.flatMap fun sample => [sample, sample]
  | .stereoInterleaved => samples

lemma stereo_append (L : ChannelLayout) (xs ys : List σ) :
    stereo L (xs ++ ys) = stereo L xs ++ stereo L ys := by
  cases L with
  | mono => exact List.flatMap_append
  | stereoInterleaved => rfl

/-- The input is whole frames. -/
def WholeFrames (E : SampleEncoding ι σ) (L : ChannelLayout) (samples : List ι) : Prop :=
  E.width * L.channels ∣ samples.length

variable {E : SampleEncoding ι σ} {L : ChannelLayout} {samples : List ι} {spans : List PacketSpan}
  {chunks : List (List ι)}

lemma WholeFrames.dvd (h : WholeFrames E L samples) : E.width ∣ samples.length :=
  (Nat.dvd_mul_right _ _).trans h

lemma wholeFrames_flatten (h : ∀ chunk ∈ chunks, WholeFrames E L chunk) :
    WholeFrames E L chunks.flatten := by
  induction chunks with
  | nil => exact Nat.dvd_zero _
  | cons chunk chunks ih =>
    obtain ⟨hchunk, hchunks⟩ := List.forall_mem_cons.mp h
    rw [WholeFrames, List.flatten_cons, List.length_append]
    exact Nat.dvd_add hchunk (ih hchunks)

lemma toF32_append (h : WholeFrames E L samples) (more : List ι) :
    E.toF32 (samples ++ more) = E.toF32 samples ++ E.toF32 more := by
  rw [SampleEncoding.toF32, chunksExact_append E.width_pos h.dvd, List.map_append]
  rfl

lemma writeAt_length (before after : List σ) (old new : σ) :
    ChannelLayout.writeAt (before ++ old :: after) before.length new =
      .ok (before ++ new :: after) := by
  have hlt : before.length < (before ++ old :: after).length := by simp
  rw [ChannelLayout.writeAt, guarded_of hlt]
  simp

/-- A round of the loop: the sample is read, and written to the two places in front of `done`. -/
lemma upmix_succ (zero : σ) (front xs mid done : List σ) (x a b : σ)
    (h : mid.length = xs.length) {output : List σ}
    (houtput : output = front ++ (xs ++ (mid ++ a :: b :: done)))
    (hx : output[front.length + xs.length]? = some x) :
    ChannelLayout.upmix zero front.length (xs.length + 1) output =
      ChannelLayout.upmix zero front.length xs.length
        (front ++ (xs ++ (mid ++ x :: x :: done))) := by
  obtain ⟨hlt, -⟩ := List.getElem?_eq_some_iff.mp hx
  have hget : output.getD (front.length + xs.length) zero = x := by
    rw [List.getD_eq_getElem?_getD, hx]
    rfl
  have hfirst : ChannelLayout.writeAt output (front.length + xs.length * 2) x =
      .ok (front ++ (xs ++ (mid ++ x :: b :: done))) := by
    have hplace := writeAt_length (front ++ (xs ++ mid)) (b :: done) a x
    simp only [List.append_assoc, List.length_append, h] at hplace
    rw [houtput,
      show front.length + xs.length * 2 = front.length + (xs.length + xs.length) by omega]
    exact hplace
  have hsecond : ChannelLayout.writeAt (front ++ (xs ++ (mid ++ x :: b :: done)))
      (front.length + xs.length * 2 + 1) x = .ok (front ++ (xs ++ (mid ++ x :: x :: done))) := by
    have hplace := writeAt_length (front ++ (xs ++ (mid ++ [x]))) done b x
    simp only [List.append_assoc, List.length_append, h, List.singleton_append,
      List.length_singleton] at hplace
    rw [show front.length + xs.length * 2 + 1 =
      front.length + (xs.length + (xs.length + 1)) by omega]
    exact hplace
  rw [ChannelLayout.upmix, guarded_of hlt, hget]
  change (ChannelLayout.writeAt output (front.length + xs.length * 2) x >>= _) = _
  rw [hfirst]
  change (ChannelLayout.writeAt _ (front.length + xs.length * 2 + 1) x >>= _) = _
  rw [hsecond]
  rfl

/-- **In place.** The samples behind `front` are doubled, the last one first, over themselves and
the room behind them; `done` has been written before. -/
lemma upmix_eq (zero : σ) (front xs mid done : List σ) (h : mid.length = xs.length) :
    ChannelLayout.upmix zero front.length xs.length (front ++ (xs ++ (mid ++ done))) =
      .ok (front ++ (stereo .mono xs ++ done)) := by
  induction xs using List.reverseRecOn generalizing mid done with
  | nil =>
    rw [List.eq_nil_of_length_eq_zero h]
    rfl
  | append_singleton xs x ih =>
    rw [List.length_append, List.length_singleton] at h ⊢
    -- the last two places in front of `done`: the sample itself may be one of them
    obtain ⟨a, b, hlast⟩ : ∃ a b, (x :: mid).drop xs.length = [a, b] :=
      List.length_eq_two.mp (by rw [List.length_drop, List.length_cons]; omega)
    have hmid : (x :: mid).take xs.length ++ [a, b] = x :: mid := by
      rw [← hlast, List.take_append_drop]
    have houtput : front ++ (xs ++ [x] ++ (mid ++ done)) =
        front ++ (xs ++ ((x :: mid).take xs.length ++ a :: b :: done)) := by
      rw [show a :: b :: done = [a, b] ++ done from rfl, ← List.append_assoc (List.take _ _), hmid,
        List.append_assoc, List.singleton_append, List.cons_append]
    have hlength : ((x :: mid).take xs.length).length = xs.length := by
      rw [List.length_take, List.length_cons]
      omega
    rw [upmix_succ zero front xs _ done x a b hlength houtput (by simp), ih _ _ hlength,
      stereo_append, List.append_assoc]
    rfl

lemma sampleCount_eq (h : WholeFrames E L samples) :
    E.sampleCount samples = .ok (samples.length / E.width) := by
  rw [SampleEncoding.sampleCount, if_neg (not_not.mpr (Nat.mod_eq_zero_of_dvd h.dvd))]

lemma appendF32_eq (h : WholeFrames E L samples) (output : List σ) :
    E.appendF32 samples output = .ok (output ++ E.toF32 samples) := by
  rw [SampleEncoding.appendF32, sampleCount_eq h]
  rfl

/-- Whole frames become stereo samples. -/
lemma appendStereoInterleavedFromSource_eq (zero : σ) (h : WholeFrames E L samples)
    (output : List σ) : ∃ frames, L.appendStereoInterleavedFromSource zero E samples output =
      .ok (frames, output ++ stereo L (E.toF32 samples)) := by
  cases L with
  | mono =>
    set xs := E.toF32 samples with hxs
    have hsource : ChannelLayout.mono.appendSourceF32 E samples output =
        .ok (xs.length, output ++ xs) := by
      have hle : output.length ≤ (output ++ xs).length := by simp
      have hlength : (output ++ xs).length - output.length = xs.length := by simp
      rw [ChannelLayout.appendSourceF32, appendF32_eq h output]
      change (guarded (output.length ≤ (output ++ xs).length) _ >>= fun frames =>
        (.ok (frames, output ++ xs) : Checked Error (ℕ × List σ))) = _
      rw [guarded_of hle, hlength]
      rfl
    have hresize : resize (output ++ xs) (output.length + xs.length * 2) zero =
        output ++ (xs ++ (List.replicate xs.length zero ++ [])) := by
      have hroom : output.length + xs.length * 2 - (output ++ xs).length = xs.length := by
        rw [List.length_append]
        omega
      rw [resize, hroom, List.take_of_length_le (by rw [List.length_append]; omega),
        List.append_nil, List.append_assoc]
    refine ⟨xs.length, ?_⟩
    rw [ChannelLayout.appendStereoInterleavedFromSource, hsource]
    change (ChannelLayout.upmix zero output.length xs.length
      (resize (output ++ xs) (output.length + xs.length * 2) zero) >>= fun output =>
        (.ok (xs.length, output) : Checked Error (ℕ × List σ))) = _
    rw [hresize, upmix_eq zero output xs _ [] List.length_replicate, List.append_nil]
    rfl
  | stereoInterleaved =>
    have halign : validateChannelAlignment ChannelLayout.stereoInterleaved.channels
        (samples.length / E.width) = .ok () := by
      have hdvd : 2 ∣ samples.length / E.width := Nat.dvd_div_of_mul_dvd h
      rw [validateChannelAlignment, if_neg (by decide), if_neg]
      exact not_not.mpr (Nat.mod_eq_zero_of_dvd hdvd)
    refine ⟨samples.length / E.width / 2, ?_⟩
    rw [ChannelLayout.appendStereoInterleavedFromSource, ChannelLayout.appendSourceF32,
      sampleCount_eq h]
    change (validateChannelAlignment ChannelLayout.stereoInterleaved.channels
      (samples.length / E.width) >>= _) = _
    rw [halign]
    change (E.appendF32 samples output >>= _) = _
    rw [appendF32_eq h output]
    rfl

/-! ### Calls -/

section Streams

variable {M : Machine σ ω} {F : Floats σ} {R : SincResampler σ ρ} {S : PacketSink ω τ}
  {append : τ → Bytes → τ} {w : ω} {sink : τ} {xs : List σ} {x : PcmEncoder σ ω ρ × τ}
  {encoder : PcmEncoder σ ω ρ} {config : EncodeConfig}

/-- The stereo samples `xs` have gone into an encoder that started with `w` and `sink`. -/
structure Streamed (M : Machine σ ω) (append : τ → Bytes → τ) (w : ω) (sink : τ) (xs : List σ)
    (x : PcmEncoder σ ω ρ × τ) : Prop where
  rate_eq : x.1.inputSampleRateHz = sampleRateHz
  cut : ∃ bs, Cut stereoSamplesPerBlock xs bs x.1.pendingStereoSamples ∧
    x.1.packetEncoder = M.after w bs ∧ x.1.emittedPackets = bs.length ∧
    x.2 = (M.packets w bs).foldl append sink

lemma exec_emittedSince {before : ℕ} (h : before ≤ x.1.emittedPackets) :
    exec (PcmEncoder.emittedSince before : Call σ ω ρ τ ℕ) x =
      (.ok (x.1.emittedPackets - before), x) := by
  rw [PcmEncoder.emittedSince, exec_get_bind]
  simp only [PcmEncoder.lift, guarded_of h, ofResult, exec_pure]

/-- **A push.** It takes the samples behind those so far, and counts its packets. -/
lemma Streamed.pushTo (hS : Appends S append) (h : Streamed M append w sink xs x)
    (hsamples : WholeFrames E L samples) :
    ∃ count x', exec (PcmEncoder.pushTo (M.crates F R) S E L samples) x = (.ok count, x') ∧
      Streamed M append w sink (xs ++ stereo L (E.toF32 samples)) x' ∧
      x'.1.emittedPackets = x.1.emittedPackets + count := by
  obtain ⟨e, t⟩ := x
  obtain ⟨bs, hcut, hencoder, hemitted, hsink⟩ := h.cut
  obtain ⟨frames, hstereo⟩ := appendStereoInterleavedFromSource_eq F.zero hsamples []
  have hrequired : e.resamplingRequired = false := by
    rw [PcmEncoder.resamplingRequired, decide_eq_false (not_not.mpr h.rate_eq)]
  rw [List.nil_append] at hstereo
  set e' : PcmEncoder σ ω ρ := { e with discordSamples := stereo L (E.toF32 samples) } with he'
  obtain ⟨bs', rest, hcut', hexec⟩ := exec_encodeDiscordSamples (e := e') (t := t) (F := F)
    (R := R) (M := M) hS hcut.length_lt
  refine ⟨bs'.length, withPending rest (emitted M append bs' (e', t)), ?_, ?_, ?_⟩
  · rw [PcmEncoder.pushTo, exec_get_bind]
    simp only [hrequired, Bool.false_eq_true, if_false]
    rw [PcmEncoder.pushDirect, exec_get_bind]
    dsimp only
    rw [exec_modify_bind]
    change exec (PcmEncoder.lift (L.appendStereoInterleavedFromSource F.zero E samples []) >>= _)
      _ = _
    rw [hstereo]
    change exec (PcmEncoder.encodeDiscordSamples (M.crates F R) S >>= fun _ =>
      PcmEncoder.emittedSince e.emittedPackets) (e', t) = _
    rw [exec_bind_of_ok hexec, exec_emittedSince (Nat.le_add_right _ _)]
    exact congrArg (fun count => (Except.ok count, _)) (Nat.add_sub_cancel_left _ _)
  · refine ⟨h.rate_eq, bs ++ bs', hcut.append hcut', ?_, ?_, ?_⟩
    · rw [M.after_append, ← hencoder]
      rfl
    · rw [List.length_append, ← hemitted]
      rfl
    · rw [M.packets_append, List.foldl_append, ← hencoder, ← hsink]
      rfl
  · rfl

/-- The blocks of a signal, the last one filled up with zeros. -/
def blocks (zero : σ) (xs : List σ) : List (List σ) :=
  chunksExact stereoSamplesPerBlock (padded stereoSamplesPerBlock zero xs)

/-- **The end.** The pending samples are the last block. -/
lemma Streamed.finishTo (hS : Appends S append) (h : Streamed M append w sink xs x) :
    ∃ count x', exec (PcmEncoder.finishTo (M.crates F R) S L) x = (.ok count, x') ∧
      x.1.emittedPackets + count = (blocks F.zero xs).length ∧
      x'.2 = (M.packets w (blocks F.zero xs)).foldl append sink := by
  obtain ⟨e, t⟩ := x
  obtain ⟨bs, hcut, hencoder, hemitted, hsink⟩ := h.cut
  have hblocks := hcut.chunksExact_padded F.zero
  have hrequired : e.resamplingRequired = false := by
    rw [PcmEncoder.resamplingRequired, decide_eq_false (not_not.mpr h.rate_eq)]
  have hstart : exec (PcmEncoder.finishResampler (M.crates F R) S L) (e, t) = (.ok (), e, t) := by
    rw [PcmEncoder.finishResampler, exec_get_bind]
    simp only [hrequired, Bool.false_eq_true, if_false, exec_pure]
  dsimp only at hcut hencoder hemitted hsink hblocks ⊢
  -- the end of the call, by what the pending samples become
  have hend : ∀ bs', blocks F.zero xs = bs ++ bs' → ∀ x' : PcmEncoder σ ω ρ × τ,
      x'.1.emittedPackets = e.emittedPackets + bs'.length →
      x'.2 = (emitted M append bs' (e, t)).2 →
      exec (PcmEncoder.finishPending (M.crates F R) S) (e, t) = (.ok (), x') →
      ∃ count x', exec (PcmEncoder.finishTo (M.crates F R) S L) (e, t) = (.ok count, x') ∧
        e.emittedPackets + count = (blocks F.zero xs).length ∧
        x'.2 = (M.packets w (blocks F.zero xs)).foldl append sink := by
    intro bs' hbs' x' hcount hx' hexec
    refine ⟨bs'.length, x', ?_, ?_, ?_⟩
    · rw [PcmEncoder.finishTo, exec_get_bind]
      dsimp only
      rw [exec_bind_of_ok hstart, exec_bind_of_ok hexec, exec_emittedSince (by omega), hcount,
        Nat.add_sub_cancel_left]
    · rw [hbs', List.length_append, hemitted]
    · rw [hx', hbs', M.packets_append, List.foldl_append, ← hencoder, ← hsink]
      rfl
  by_cases hempty : e.pendingStereoSamples = []
  · refine hend [] ?_ (e, t) rfl rfl ?_
    · rw [blocks, hblocks, if_pos hempty]
    · rw [PcmEncoder.finishPending, exec_get_bind]
      simp [hempty]
  · rw [if_neg hempty] at hblocks
    have hlt := hcut.length_lt
    set block := e.pendingStereoSamples ++
      List.replicate (stereoSamplesPerBlock - e.pendingStereoSamples.length) F.zero with hblock
    have hresize : resize e.pendingStereoSamples stereoSamplesPerBlock F.zero = block := by
      rw [resize, List.take_of_length_le hlt.le]
    have hlength : block.length = stereoSamplesPerBlock := by
      rw [hblock, List.length_append, List.length_replicate]
      omega
    refine hend [block] hblocks (withPending [] (emitted M append [block] (e, t))) rfl rfl ?_
    rw [PcmEncoder.finishPending, exec_get_bind]
    simp only [List.isEmpty_iff, hempty, if_false]
    rw [exec_modify_bind]
    change exec _ ({ e with pendingStereoSamples := (resize e.pendingStereoSamples
      stereoSamplesPerBlock F.zero) }, t) = _
    rw [hresize]
    exact exec_encodePendingBlock hS hlength

/-- All the pushes of a stream. -/
lemma Streamed.pushAll (hS : Appends S append) (h : Streamed M append w sink xs x)
    (hchunks : ∀ chunk ∈ chunks, WholeFrames E L chunk) :
    ∃ counts x', exec (chunks.mapM (PcmEncoder.pushTo (M.crates F R) S E L)) x =
        (.ok counts, x') ∧
      Streamed M append w sink (xs ++ stereo L (E.toF32 chunks.flatten)) x' ∧
      x'.1.emittedPackets = x.1.emittedPackets + counts.sum := by
  induction chunks generalizing xs x with
  | nil =>
    refine ⟨[], x, rfl, ?_, rfl⟩
    have hnil : stereo L (E.toF32 ([] : List ι)) = [] := by
      rw [SampleEncoding.toF32, chunksExact_of_lt E.width_pos]
      cases L <;> rfl
    rw [List.flatten_nil, hnil, List.append_nil]
    exact h
  | cons chunk chunks ih =>
    obtain ⟨hchunk, hchunks⟩ := List.forall_mem_cons.mp hchunks
    obtain ⟨count, x₁, hpush, hstreamed, hcount⟩ := h.pushTo (F := F) (R := R) hS hchunk
    obtain ⟨counts, x₂, hpushes, hstreamed, hcounts⟩ := ih hstreamed hchunks
    refine ⟨count :: counts, x₂, ?_, ?_, ?_⟩
    · rw [List.mapM_cons, exec_bind_of_ok hpush, exec_bind_of_ok hpushes]
      rfl
    · rw [List.flatten_cons, toF32_append hchunk, stereo_append, ← List.append_assoc]
      exact hstreamed
    · rw [hcounts, hcount, List.sum_cons, Nat.add_assoc]

/-- Any number of pushes, and the end. -/
def stream (C : Crates σ ω ρ) (S : PacketSink ω τ) (E : SampleEncoding ι σ) (L : ChannelLayout)
    (chunks : List (List ι)) : Call σ ω ρ τ (List ℕ × ℕ) := do
  let counts ← chunks.mapM (PcmEncoder.pushTo C S E L)
  let last ← PcmEncoder.finishTo C S L
  pure (counts, last)

/-- The packets of a signal: those of its blocks, one after the other. -/
def signalPackets (M : Machine σ ω) (F : Floats σ) (E : SampleEncoding ι σ) (L : ChannelLayout)
    (w : ω) (samples : List ι) : List Bytes :=
  M.packets w (blocks F.zero (stereo L (E.toF32 samples)))

lemma streamed_new (append : τ → Bytes → τ)
    (h : PcmEncoder.new (M.crates F R) L sampleRateHz config = .ok encoder) (sink : τ) :
    Streamed M append encoder.packetEncoder sink [] (encoder, sink) ∧
      encoder.emittedPackets = 0 := by
  obtain ⟨resampler, -, h⟩ := (bind_ok_iff _ _ _).mp h
  obtain ⟨packetEncoder, -, h⟩ := (bind_ok_iff _ _ _).mp h
  cases h
  exact ⟨⟨rfl, [], cut_rest (by decide : 0 < stereoSamplesPerBlock), rfl, rfl, rfl⟩, rfl⟩

lemma exec_stream (hS : Appends S append)
    (h : PcmEncoder.new (M.crates F R) L sampleRateHz config = .ok encoder) (sink : τ)
    (hchunks : ∀ chunk ∈ chunks, WholeFrames E L chunk) :
    ∃ counts last encoder', exec (stream (M.crates F R) S E L chunks) (encoder, sink) =
        (.ok (counts, last), encoder',
          (signalPackets M F E L encoder.packetEncoder chunks.flatten).foldl append sink) ∧
      counts.sum + last = (signalPackets M F E L encoder.packetEncoder chunks.flatten).length := by
  obtain ⟨hnew, hzero⟩ := streamed_new append h sink
  obtain ⟨counts, x, hpushes, hstreamed, hcounts⟩ := hnew.pushAll hS hchunks
  obtain ⟨last, ⟨encoder', sink'⟩, hfinish, hcount, hsink⟩ := hstreamed.finishTo hS
  rw [List.nil_append] at hcount hsink
  refine ⟨counts, last, encoder', ?_, ?_⟩
  · rw [stream, exec_bind_of_ok hpushes, exec_bind_of_ok hfinish, signalPackets, ← hsink]
    rfl
  · rw [signalPackets, M.length_packets, ← hcount, hcounts]
    dsimp only
    omega

lemma encodeAllTo_eq (hS : Appends S append)
    (h : PcmEncoder.new (M.crates F R) L sampleRateHz config = .ok encoder) (sink : τ)
    (hsamples : WholeFrames E L samples) :
    PcmEncoder.encodeAllTo (M.crates F R) S E L sink sampleRateHz samples config =
      .ok ((signalPackets M F E L encoder.packetEncoder samples).foldl append sink) := by
  obtain ⟨hnew, -⟩ := streamed_new append h sink
  obtain ⟨count, x, hpush, hstreamed, -⟩ := hnew.pushTo hS hsamples
  obtain ⟨last, x', hfinish, -, hsink⟩ := hstreamed.finishTo hS
  rw [PcmEncoder.encodeAllTo, h]
  dsimp only
  rw [exec_bind_of_ok hpush, hfinish]
  exact congrArg Except.ok hsink

end Streams

/-! ### Batches -/

/-- The spans lie one behind the other, from `start` to `stop`. -/
def Tiles (start stop : ℕ) : List PacketSpan → Prop
  | [] => start = stop
  | span :: spans => span.offset = start ∧ Tiles (start + span.len) stop spans

lemma Tiles.concat {start stop : ℕ} (h : Tiles start stop spans) (len : ℕ) :
    Tiles start (stop + len) (spans ++ [⟨stop, len⟩]) := by
  induction spans generalizing start with
  | nil =>
    obtain rfl : start = stop := h
    exact ⟨rfl, rfl⟩
  | cons span spans ih => exact ⟨h.1, ih h.2⟩

lemma Tiles.start_le {start stop : ℕ} (h : Tiles start stop spans) : start ≤ stop := by
  induction spans generalizing start with
  | nil => exact h.le
  | cons span spans ih => exact (Nat.le_add_right _ _).trans (ih h.2)

lemma Tiles.end_le {start stop : ℕ} (h : Tiles start stop spans) {span : PacketSpan}
    (hspan : span ∈ spans) : span.offset + span.len ≤ stop := by
  induction spans generalizing start with
  | nil => cases hspan
  | cons first spans ih =>
    rcases List.mem_cons.mp hspan with rfl | hspan
    · rw [h.1]
      exact h.2.start_le
    · exact ih h.2 hspan

/-- The batch has the packets, and their spans tile its bytes. -/
structure Batched (batch : PacketBatch) (packets : List Bytes) : Prop where
  tiles : Tiles 0 batch.bytes.length batch.packets
  packets_eq : batch.packets.map batch.packet = packets

lemma Batched.extended {batch : PacketBatch} {packets : List Bytes} (h : Batched batch packets)
    (bytes : Bytes) : Batched (extended batch bytes) (packets ++ [bytes]) where
  tiles := by
    rw [PcmStreaming.extended, List.length_append]
    exact h.tiles.concat bytes.length
  packets_eq := by
    rw [PcmStreaming.extended, List.map_append, List.map_singleton, ← h.packets_eq]
    congr 1
    · refine List.map_congr_left fun span hspan => ?_
      exact slice_append_left (h.tiles.end_le hspan)
    · have hlast := slice_append_right batch.bytes bytes 0 bytes.length
      rw [Nat.add_zero] at hlast
      rw [PacketBatch.packet, hlast, slice, List.drop_zero, Nat.sub_zero, List.take_length]

lemma batched_foldl {batch : PacketBatch} {done : List Bytes} (h : Batched batch done)
    (packets : List Bytes) : Batched (packets.foldl extended batch) (done ++ packets) := by
  induction packets generalizing batch done with
  | nil =>
    rw [List.append_nil]
    exact h
  | cons bytes packets ih =>
    rw [← List.singleton_append, ← List.append_assoc]
    exact ih (h.extended bytes)

lemma batched_empty : Batched {} [] := ⟨rfl, rfl⟩

lemma batched_packets (packets : List Bytes) : Batched (packets.foldl extended {}) packets :=
  batched_foldl batched_empty packets

lemma foldl_vecSink (done : List Packet) (packets : List Bytes) :
    packets.foldl (fun packets bytes => packets ++ [⟨bytes⟩]) done =
      done ++ packets.map Packet.mk := by
  induction packets generalizing done with
  | nil => rw [List.foldl_nil, List.map_nil, List.append_nil]
  | cons bytes packets ih =>
    rw [List.foldl_cons, ih, List.append_assoc, List.map_cons, List.singleton_append]

/-- **Streaming is batch encoding.** However whole frames are split into pushes, the packets of the
pushes and of the end are those of `encode_all`, which are those of the blocks of the signal; the
calls return how many they are; and a batch has the same packets, with spans that tile its bytes. -/
theorem stream_eq_encodeAll (M : Machine σ ω) (F : Floats σ) (R : SincResampler σ ρ)
    (E : SampleEncoding ι σ) (L : ChannelLayout) {config : EncodeConfig}
    {encoder : PcmEncoder σ ω ρ}
    (h : PcmEncoder.new (M.crates F R) L sampleRateHz config = .ok encoder)
    (chunks : List (List ι)) (hchunks : ∀ chunk ∈ chunks, WholeFrames E L chunk) :
    ∃ packets, packets = signalPackets M F E L encoder.packetEncoder chunks.flatten ∧
      (∃ counts last encoder', exec (stream (M.crates F R) vecSink E L chunks) (encoder, []) =
          (.ok (counts, last), encoder', packets.map Packet.mk) ∧
        counts.sum + last = packets.length) ∧
      PcmEncoder.encodeAll (M.crates F R) E L sampleRateHz chunks.flatten config =
        .ok (packets.map Packet.mk) ∧
      (∃ counts last encoder' batch,
        exec (stream (M.crates F R) batchSink E L chunks) (encoder, {}) =
          (.ok (counts, last), encoder', batch) ∧
        counts.sum + last = packets.length ∧ Batched batch packets) ∧
      ∃ batch, PcmEncoder.encodeAllBatch (M.crates F R) E L sampleRateHz chunks.flatten config =
        .ok batch ∧ Batched batch packets := by
  refine ⟨_, rfl, ?_, ?_, ?_, ?_⟩
  · obtain ⟨counts, last, encoder', hexec, hcount⟩ := exec_stream appends_vecSink h [] hchunks
    rw [foldl_vecSink, List.nil_append] at hexec
    exact ⟨counts, last, encoder', hexec, hcount⟩
  · rw [PcmEncoder.encodeAll, encodeAllTo_eq appends_vecSink h [] (wholeFrames_flatten hchunks),
      foldl_vecSink, List.nil_append]
  · obtain ⟨counts, last, encoder', hexec, hcount⟩ := exec_stream appends_batchSink h {} hchunks
    exact ⟨counts, last, encoder', _, hexec, hcount, batched_packets _⟩
  · exact ⟨_, encodeAllTo_eq appends_batchSink h {} (wholeFrames_flatten hchunks),
      batched_packets _⟩

/-- An encoder that numbers its packets. -/
def countingMachine : Machine ℤ ℕ where
  create _ := 0
  configure w _ _ := w
  step w _ := ([UInt8.ofNat w], w + 1)
  length_le _ _ := Nat.succ_le_succ (Nat.zero_le _)

def integers : Floats ℤ := ⟨0, id, fun _ => 0, id⟩

def noResampler : SincResampler ℤ Unit :=
  ⟨fun _ _ _ => .ok (), fun _ _ => (.ok [], ()), fun _ => (.ok [], ())⟩

/-- Three mono samples in two pushes are one packet. -/
theorem stream_eq_encodeAll_mono :
    (∀ chunk ∈ [[1, 2], [3]], WholeFrames (s16 integers) .mono chunk) ∧
      ∃ counts last encoder', exec (stream (countingMachine.crates integers noResampler) vecSink
          (s16 integers) .mono [[1, 2], [3]]) (⟨sampleRateHz, none, 0, [], [], [], [], 0⟩, []) =
        (.ok (counts, last), encoder', [⟨[0]⟩]) ∧ counts.sum + last = 1 := by
  have hchunks : ∀ chunk ∈ [[1, 2], [3]], WholeFrames (s16 integers) .mono chunk := by
    simp [WholeFrames, s16, ChannelLayout.channels]
  obtain ⟨packets, hpackets, hstream, -⟩ := stream_eq_encodeAll countingMachine integers noResampler
    (s16 integers) .mono (rfl : PcmEncoder.new _ _ sampleRateHz {} = .ok _) _ hchunks
  have hone : packets = [[0]] := hpackets.trans (by decide +kernel)
  subst hone
  exact ⟨hchunks, hstream⟩

end Cacophony.PcmStreaming
