import Cacophony.FrameCodecs

/-!
What is encrypted is decrypted to what was processed.

The processor is described by a mask, `true` at the clear bytes, and the bytes it was given.
Splitting and reconstructing a frame are picking and merging along the mask of its ranges, and
the trailer reads back as it was written, so decryption undoes encryption for every codec.
-/

namespace Cacophony.FrameRoundTrip

open Gcm Interleave Leb128 AnnexB Cacophony.Frame
open FrameCodecs OutboundFrameProcessor

/-! ### Splitting and reconstructing -/

variable {rs : List UnencryptedRange} {frame as es : Bytes} {n i : ℕ}

lemma reconstructFrom_eq {ai ei : ℕ} {output : Bytes} (hf : Fits i rs n)
    (hm : Matches (mask i rs n) (as.drop ai) (es.drop ei)) :
    InterleavedFramePlan.reconstructFrom as es i ai ei output rs =
      output ++ merge (mask i rs n) (as.drop ai) (es.drop ei) := by
  induction rs generalizing i ai ei output with
  | nil =>
    obtain ⟨-, hmerge⟩ := hm.of_mask_nil
    rw [InterleavedFramePlan.reconstructFrom, hmerge]
    split
    · rfl
    · rw [List.drop_eq_nil_of_le (by omega), List.append_nil]
  | cons r rs ih =>
    obtain ⟨e₁, e₂, he, hle, hm', hmerge⟩ := hm.of_replicate_false
    obtain ⟨a₁, a₂, ha, hla, hm'', hmerge'⟩ := hm'.of_replicate_true
    obtain ⟨hex, hdrop⟩ := slice_of_drop_eq he
    obtain ⟨hax, hadrop⟩ := slice_of_drop_eq ha
    rw [hle] at hex hdrop
    rw [hla] at hax hadrop
    have hgap : (if i < r.offset then
        (output ++ slice es ei (ei + (r.offset - i)), ei + (r.offset - i))
        else (output, ei)) = (output ++ e₁, ei + (r.offset - i)) := by
      split
      · rw [hex]
      · have h0 : r.offset - i = 0 := by omega
        rw [h0, List.length_eq_zero_iff] at hle
        simp [hle, h0]
    rw [InterleavedFramePlan.reconstructFrom]
    simp only [hgap, hax]
    rw [ih hf.2 (by rwa [hadrop, hdrop]), hadrop, hdrop, mask, hmerge, hmerge']
    simp

/-- Reconstructing is merging along the mask of the ranges. -/
lemma reconstruct_eq (hf : Fits 0 rs n) (hm : Matches (mask 0 rs n) as es) :
    InterleavedFramePlan.reconstruct rs as es = merge (mask 0 rs n) as es :=
  reconstructFrom_eq hf hm

lemma splitFrom_eq {a e : Bytes} (hf : Fits i rs frame.length) :
    InterleavedFramePlan.splitFrom frame i a e rs =
      (a ++ pick true (mask i rs frame.length) (frame.drop i),
        e ++ pick false (mask i rs frame.length) (frame.drop i)) := by
  induction rs generalizing i a e with
  | nil =>
    simp only [InterleavedFramePlan.splitFrom, mask, pick_replicate _ _ List.length_drop]
    split
    · simp
    · rw [List.drop_eq_nil_of_le (by omega)]
      simp
  | cons r rs ih =>
    have hi := hf.1
    have hr := hf.2.le
    have hstop : r.offset ≤ r.stop := Nat.le_add_right _ _
    have hgap : (slice frame i r.offset).length = r.offset - i := by
      rw [length_slice]
      omega
    have hclear : (slice frame r.offset r.stop).length = r.len := by
      simp only [length_slice, Range.stop] at hr ⊢
      omega
    have hpick (b : Bool) : pick b (mask i (r :: rs) frame.length) (frame.drop i) =
        (if false = b then slice frame i r.offset else []) ++
          ((if true = b then slice frame r.offset r.stop else []) ++
            pick b (mask r.stop rs frame.length) (frame.drop r.stop)) := by
      rw [mask, drop_eq_slice_append frame hi, drop_eq_slice_append frame hstop,
        pick_append b (by rw [hgap, List.length_replicate]),
        pick_append b (by rw [hclear, List.length_replicate]), pick_replicate b _ hgap,
        pick_replicate b _ hclear]
    simp only [InterleavedFramePlan.splitFrom, ih hf.2, hpick, if_true, Bool.false_eq_true,
      Bool.true_eq_false, if_false]
    split
    · simp
    · have h0 : slice frame i r.offset = [] := by
        rw [← List.length_eq_zero_iff, hgap]; omega
      simp [h0]

/-- Splitting is picking along the mask of the ranges. -/
lemma split_eq (hf : Fits 0 rs frame.length) : InterleavedFramePlan.split rs frame =
    (pick true (mask 0 rs frame.length) frame, pick false (mask 0 rs frame.length) frame) := by
  rw [InterleavedFramePlan.split, splitFrom_eq hf]
  simp

/-! ### The processor -/

/-- The processor has the mask `m` and was given the bytes `x`. -/
structure Carries (p : OutboundFrameProcessor) (m : List Bool) (x : Bytes) : Prop where
  fits : Fits 0 p.unencryptedRanges p.frameIndex
  mask_eq : mask 0 p.unencryptedRanges p.frameIndex = m
  is_match : Matches m p.unencryptedBytes p.encryptedBytes
  merge_eq : merge m p.unencryptedBytes p.encryptedBytes = x

variable {p p' : OutboundFrameProcessor} {m : List Bool} {x : Bytes}

lemma carries_empty : Carries {} [] [] := ⟨le_rfl, rfl, .nil, rfl⟩

lemma Carries.plaintext_eq (h : Carries p m x) : p.plaintext = x := by
  rw [plaintext, reconstruct_eq h.fits (h.mask_eq ▸ h.is_match), h.mask_eq, h.merge_eq]

lemma Carries.length_mask (h : Carries p m x) : m.length = p.frameIndex := by
  rw [← h.mask_eq, Interleave.length_mask h.fits, Nat.sub_zero]

lemma Carries.length_eq (h : Carries p m x) : x.length = p.frameIndex := by
  rw [← h.merge_eq, length_merge h.is_match, h.length_mask]

lemma addRange_spec (hf : Fits 0 rs n) (k : ℕ) : Fits 0 (addRange n k rs) (n + k) ∧
    mask 0 (addRange n k rs) (n + k) = mask 0 rs n ++ List.replicate k true := by
  rcases List.eq_nil_or_concat rs with rfl | ⟨init, r, rfl⟩
  · exact mask_push hf k
  · simp only [addRange, List.concat_eq_append, List.getLast?_append, List.getLast?_singleton,
      Option.some_or, List.dropLast_concat] at hf ⊢
    split
    next hr =>
      subst hr
      exact mask_extend hf k
    next => exact mask_push hf k

lemma Carries.addUnencryptedBytes (h : Carries p m x) (b : Bytes) :
    Carries (p.addUnencryptedBytes b) (m ++ List.replicate b.length true) (x ++ b) := by
  unfold OutboundFrameProcessor.addUnencryptedBytes
  split
  next hb =>
    rw [List.isEmpty_iff] at hb
    simpa [hb] using h
  next =>
    obtain ⟨hf, hm⟩ := addRange_spec h.fits b.length
    have hmatch := matches_append h.is_match (matches_replicate_true b)
    have hmerge := merge_append h.is_match (List.replicate b.length true) b []
    rw [List.append_nil] at hmatch hmerge
    refine ⟨hf, hm.trans (by rw [h.mask_eq]), hmatch, hmerge.trans ?_⟩
    rw [h.merge_eq, merge_replicate_true]

lemma Carries.addEncryptedBytes (h : Carries p m x) (b : Bytes) :
    Carries (p.addEncryptedBytes b) (m ++ List.replicate b.length false) (x ++ b) := by
  unfold OutboundFrameProcessor.addEncryptedBytes
  split
  next hb =>
    rw [List.isEmpty_iff] at hb
    simpa [hb] using h
  next =>
    obtain ⟨hf, hm⟩ := mask_add h.fits b.length
    have hmatch := matches_append h.is_match (matches_replicate_false b)
    have hmerge := merge_append h.is_match (List.replicate b.length false) [] b
    rw [List.append_nil] at hmatch hmerge
    refine ⟨hf, hm.trans (by rw [h.mask_eq]), hmatch, hmerge.trans ?_⟩
    rw [h.merge_eq, merge_replicate_false]

/-- Bytes of a frame that are all clear (`true`) or all hidden. -/
abbrev Segment := Bool × Bytes

def addSegment (p : OutboundFrameProcessor) : Segment → OutboundFrameProcessor
  | (true, b) => p.addUnencryptedBytes b
  | (false, b) => p.addEncryptedBytes b

def addSegments (p : OutboundFrameProcessor) (segments : List Segment) : OutboundFrameProcessor :=
  segments.foldl addSegment p

def segmentMask (segments : List Segment) : List Bool :=
  segments.flatMap fun s => List.replicate s.2.length s.1

def segmentBytes (segments : List Segment) : Bytes := segments.flatMap (·.2)

/-- **The processor is its segments.** -/
theorem Carries.addSegments (h : Carries p m x) (segments : List Segment) :
    Carries (addSegments p segments) (m ++ segmentMask segments) (x ++ segmentBytes segments) := by
  induction segments generalizing p m x with
  | nil => simpa [FrameRoundTrip.addSegments, segmentMask, segmentBytes] using h
  | cons s segments ih =>
    obtain ⟨clear, b⟩ := s
    have hs : Carries (addSegment p (clear, b)) (m ++ List.replicate b.length clear) (x ++ b) := by
      cases clear with
      | true => exact h.addUnencryptedBytes b
      | false => exact h.addEncryptedBytes b
    simpa [FrameRoundTrip.addSegments, segmentMask, segmentBytes] using ih hs

/-! ### The segments of each codec -/

lemma addSegments_append (p : OutboundFrameProcessor) (s t : List Segment) :
    addSegments p (s ++ t) = addSegments (addSegments p s) t := by
  simp [addSegments, List.foldl_append]

/-- A unit of an H.26x frame: its clear and its hidden bytes. -/
abbrev Piece := Bytes × Bytes

/-- A unit is sent behind a long start code. -/
def pieceSegments (piece : Piece) : List Segment :=
  [(true, h26xLongStartCode), (true, piece.1), (false, piece.2)]

lemma processNalu_eq {C : H26xFrameCodec} {start next : ℕ}
    (h : processNalu C frame start next p = some p') :
    ∃ piece : Piece, piece.1 ++ piece.2 = slice frame start next ∧
      p' = addSegments p (pieceSegments piece) := by
  unfold processNalu at h
  dsimp only at h
  split at h
  · split at h
    · cases h
    split at h
    · cases h
    next unencrypted _ hle =>
      cases h
      refine ⟨(slice frame start (start + unencrypted), slice frame (start + unencrypted) next),
        ?_, rfl⟩
      simp only [slice, Nat.add_sub_cancel_left, ← List.drop_drop]
      rw [← List.take_add, Nat.sub_add_eq, Nat.add_sub_cancel' (by omega)]
  · cases h
    exact ⟨(slice frame start next, []), by simp, rfl⟩

/-- The units of a frame from the start of one on. -/
inductive Pieces (frame : Bytes) : ℕ → List Piece → Prop
  | done {start : ℕ} (h : frame.length - 1 ≤ start) : Pieces frame start []
  | last {start : ℕ} {piece : Piece} (hnext : findNextNalu frame start = none)
      (heq : piece.1 ++ piece.2 = slice frame start frame.length) :
      Pieces frame start [piece]
  | more {start : ℕ} {piece : Piece} {next : H26xNalu} {pieces : List Piece}
      (hnext : findNextNalu frame start = some next)
      (heq : piece.1 ++ piece.2 = slice frame start (next.start - next.startCodeLen))
      (hrest : Pieces frame next.start pieces) : Pieces frame start (piece :: pieces)

@[simp] lemma segmentBytes_cons (s : Segment) (t : List Segment) :
    segmentBytes (s :: t) = s.2 ++ segmentBytes t := rfl

@[simp] lemma segmentBytes_nil : segmentBytes [] = [] := rfl

lemma segmentBytes_append (s t : List Segment) :
    segmentBytes (s ++ t) = segmentBytes s ++ segmentBytes t := by
  simp [segmentBytes]

lemma length_pieceSegments (piece : Piece) : (segmentBytes (pieceSegments piece)).length =
    4 + (piece.1 ++ piece.2).length := by
  simp [segmentBytes, pieceSegments, h26xLongStartCode]
  omega

/-- Where the pieces lie in a processor that starts at `pos`. -/
def pieceOffsets (pos : ℕ) : List Piece → List ℕ
  | [] => []
  | piece :: pieces => pos :: pieceOffsets (pos + (4 + (piece.1.length + piece.2.length))) pieces

lemma frameIndex_addSegments (segments : List Segment) (p : OutboundFrameProcessor) :
    (addSegments p segments).frameIndex = p.frameIndex + (segmentBytes segments).length := by
  induction segments generalizing p with
  | nil => rfl
  | cons s segments ih =>
    have hs : (addSegment p s).frameIndex = p.frameIndex + s.2.length := by
      obtain ⟨_ | _, b⟩ := s <;>
        simp only [addSegment, addEncryptedBytes, addUnencryptedBytes] <;> split <;>
        simp_all
    rw [addSegments, List.foldl_cons, ← addSegments, ih, hs, segmentBytes_cons,
      List.length_append, Nat.add_assoc]

lemma processNalus_eq {C : H26xFrameCodec} {nalu : H26xNalu}
    (h : processNalus C frame nalu p = some p') :
    ∃ pieces, Pieces frame nalu.start pieces ∧
      p' = addSegments p (pieces.flatMap pieceSegments) ∧
      longStartCodesFrom C frame nalu p = pieceOffsets p.frameIndex pieces := by
  fun_induction processNalus C frame nalu p with
  | case1 nalu p hlt hnext =>
    obtain ⟨piece, heq, rfl⟩ := processNalu_eq h
    refine ⟨[piece], .last hnext heq, by simp, ?_⟩
    rw [longStartCodesFrom, if_pos hlt]
    split
    · rfl
    next heq => rw [hnext] at heq; cases heq
  | case2 nalu p hlt next hnext ih =>
    obtain ⟨p₁, h₁, h₂⟩ := Option.bind_eq_some_iff.mp h
    obtain ⟨piece, heq, rfl⟩ := processNalu_eq h₁
    obtain ⟨pieces, hp, rfl, hoff⟩ := ih _ h₂
    refine ⟨piece :: pieces, .more hnext heq hp, by rw [List.flatMap_cons, addSegments_append], ?_⟩
    rw [longStartCodesFrom, if_pos hlt]
    split
    next heq => rw [hnext] at heq; cases heq
    next next' heq =>
      rw [hnext] at heq
      cases heq
      rw [h₁, Option.elim_some, hoff, frameIndex_addSegments, length_pieceSegments,
        List.length_append, pieceOffsets]
  | case3 nalu p hge =>
    cases h
    refine ⟨[], .done (by omega), rfl, ?_⟩
    rw [longStartCodesFrom, if_neg hge]
    rfl

/-- Every start code of the frame may grow by one byte, and no two of them are closer than
three. -/
lemma Pieces.length_le {start : ℕ} {pieces : List Piece} (h : Pieces frame start pieces) :
    (segmentBytes (pieces.flatMap pieceSegments)).length ≤ 2 * (frame.length - start) + 4 := by
  induction h with
  | done => simp
  | @last start piece hnext heq =>
    have hlen := length_slice_le frame start frame.length
    rw [List.flatMap_singleton, length_pieceSegments, heq]
    omega
  | @more start piece next pieces hnext heq hrest ih =>
    have hlen := length_slice_le frame start (next.start - next.startCodeLen)
    have hlt := lt_start_of_findNextNalu hnext
    obtain ⟨i, hi, rfl⟩ := exists_of_findNextNalu hnext
    have hcode : 3 ≤ (naluAt frame i).startCodeLen := by
      simp only [naluAt]
      split <;> omega
    rw [List.flatMap_cons, segmentBytes_append, List.length_append, length_pieceSegments, heq]
    omega

/-- What `readObu` says of a unit: its size field, if it has one, is what was read. -/
lemma readObu_size {o : Obu} (h : readObu frame i = some o) :
    ∃ size, o.payloadIndex = i + 1 + (if o.hasExtension then 1 else 0) + size ∧
      (o.hasSize = true → (encode o.payloadSize).length ≤ size) := by
  have hp := (readsObu h).payload
  unfold obuPayload at hp
  split at hp
  · obtain ⟨⟨v, n⟩, hread, heq⟩ := Option.map_eq_some_iff.mp hp
    obtain ⟨hindex, hsize⟩ := Prod.mk.inj heq
    exact ⟨n, hindex.symm, fun _ => hsize ▸ length_encode_le_of_read hread⟩
  next hno =>
    obtain ⟨hindex, -⟩ := Prod.mk.inj (Option.some.inj hp)
    exact ⟨0, hindex.symm, fun hs => absurd hs hno⟩

lemma take_writeTo {v : ℕ} {output sizeBuffer : Bytes} {written : ℕ}
    (h : Uleb128.writeTo v output = some (sizeBuffer, written)) :
    sizeBuffer.take written = encode v := by
  rw [writeTo_eq] at h
  split at h
  · cases h
    simp
  · cases h

/-- A unit of an AV1 frame does not grow. -/
lemma processObu_eq {i : ℕ} {o : Obu} (ho : readObu frame i = some o)
    (h : processObu frame i o p = some p') :
    ∃ segments, p' = addSegments p segments ∧
      (segmentBytes segments).length ≤ o.payloadIndex + o.payloadSize - i := by
  obtain ⟨size, hindex, hsize⟩ := readObu_size ho
  unfold processObu at h
  dsimp only at h
  split at h
  · cases h
    exact ⟨[], rfl, by simp⟩
  generalize hhead : (if o.payloadIndex + o.payloadSize = frame.length ∧ o.hasSize = true then
    o.header &&& ~~~0b00000010 else o.header) = header at h
  generalize he : slice frame (i + 1) (i + 2) = extension at h
  have hel : extension.length ≤ 1 := he ▸ (length_slice_le frame (i + 1) (i + 2)).trans (by omega)
  have hpl := length_slice_le frame o.payloadIndex (o.payloadIndex + o.payloadSize)
  -- the segments in front of the size field
  obtain ⟨front, hfront, hfl⟩ : ∃ front : List Segment,
      (if o.hasExtension = true then (p.addUnencryptedBytes [header]).addUnencryptedBytes extension
        else p.addUnencryptedBytes [header]) = addSegments p front ∧
      (segmentBytes front).length ≤ 1 + if o.hasExtension then 1 else 0 := by
    split
    · exact ⟨[(true, [header]), (true, extension)], rfl, by simp; omega⟩
    · exact ⟨[(true, [header])], rfl, by simp⟩
  rw [hfront] at h
  split at h
  next hs =>
    split at h
    · cases h
    next sizeBuffer written hw =>
      cases h
      refine ⟨front ++ [(true, sizeBuffer.take written), (false, slice frame o.payloadIndex
        (o.payloadIndex + o.payloadSize))], by rw [addSegments_append]; rfl, ?_⟩
      have := hsize hs.1
      simp only [segmentBytes_append, segmentBytes_cons, segmentBytes_nil, List.length_append,
        take_writeTo hw, List.length_nil]
      omega
  next =>
    cases h
    refine ⟨front ++ [(false, slice frame o.payloadIndex (o.payloadIndex + o.payloadSize))],
      by rw [addSegments_append]; rfl, ?_⟩
    simp only [segmentBytes_append, segmentBytes_cons, segmentBytes_nil, List.length_append,
      List.length_nil]
    omega

lemma processObus_eq (h : processObus frame i p = some p') :
    ∃ segments, p' = addSegments p segments ∧
      (segmentBytes segments).length ≤ frame.length - i := by
  fun_induction processObus frame i p with
  | case1 => cases h
  | case2 i p hlt o ho ih =>
    obtain ⟨p₁, h₁, h₂⟩ := Option.bind_eq_some_iff.mp h
    obtain ⟨s₁, rfl, hl₁⟩ := processObu_eq ho h₁
    obtain ⟨s₂, rfl, hl₂⟩ := ih _ h₂
    have hle := readObu_lt ho
    refine ⟨s₁ ++ s₂, (addSegments_append _ _ _).symm, ?_⟩
    rw [segmentBytes_append, List.length_append]
    omega
  | case3 i p hge =>
    cases h
    exact ⟨[], rfl, by simp⟩

/-- A processed frame has a unit, and the loop starts with the first. -/
lemma processH26xFrame_eq_some {D : H26xFrameCodec} (h : processH26xFrame D frame p = some p') :
    ∃ nalu, findNextNalu frame 0 = some nalu ∧ processNalus D frame nalu p = some p' := by
  unfold processH26xFrame at h
  split at h
  · cases h
  split at h
  · cases h
  next nalu hnext => exact ⟨nalu, hnext, h⟩

/-- Every codec adds segments of at most twice the length of the frame; Opus, VP8 and VP9 add
the frame itself. -/
theorem processFrame_eq {C : Codec} (h : C.processFrame frame p = some p') :
    ∃ segments, p' = addSegments p segments ∧
      (segmentBytes segments).length ≤ 2 * frame.length ∧
      (C = .opus ∨ C = .vp8 ∨ C = .vp9 → segmentBytes segments = frame) := by
  have hfull (h : processFullyEncryptedFrame frame p = some p') :
      ∃ segments, p' = addSegments p segments ∧ segmentBytes segments = frame := by
    cases h
    exact ⟨[(false, frame)], rfl, by simp⟩
  have h26x {D : H26xFrameCodec} (h : processH26xFrame D frame p = some p') :
      ∃ segments, p' = addSegments p segments ∧
        (segmentBytes segments).length ≤ 2 * frame.length := by
    obtain ⟨nalu, hnext, hnalus⟩ := processH26xFrame_eq_some h
    obtain ⟨pieces, hp, rfl, -⟩ := processNalus_eq hnalus
    have hle := hp.length_le
    have hlt := lt_start_of_findNextNalu hnext
    exact ⟨_, rfl, by omega⟩
  cases C with
  | opus =>
    obtain ⟨segments, hp, hb⟩ := hfull h
    exact ⟨segments, hp, by rw [hb]; omega, fun _ => hb⟩
  | vp9 =>
    obtain ⟨segments, hp, hb⟩ := hfull h
    exact ⟨segments, hp, by rw [hb]; omega, fun _ => hb⟩
  | vp8 =>
    unfold Codec.processFrame processVp8Frame at h
    dsimp only at h
    split at h
    · cases h
    generalize (if List.getD frame 0 0 &&& 0x01 = 0 then 10 else 1) = k at h
    split at h
    · cases h
    cases h
    have hb : segmentBytes [(true, frame.take k), (false, frame.drop k)] = frame := by simp
    exact ⟨_, rfl, by rw [hb]; omega, fun _ => hb⟩
  | h264 =>
    obtain ⟨segments, hp, hb⟩ := h26x h
    exact ⟨segments, hp, hb, by simp⟩
  | h265 =>
    obtain ⟨segments, hp, hb⟩ := h26x h
    exact ⟨segments, hp, hb, by simp⟩
  | av1 =>
    obtain ⟨segments, hp, hb⟩ := processObus_eq h
    exact ⟨segments, hp, by omega, by simp⟩

/-- **What a codec makes of a frame.** -/
theorem process_carries (C : Codec) (frame : Bytes) : ∃ m x, Carries (process C frame) m x ∧
    x.length ≤ 2 * frame.length ∧
    (C = .opus ∨ C = .vp8 ∨ C = .vp9 ∨ C.processFrame frame {} = none → x = frame) := by
  rcases h : C.processFrame frame {} with _ | p
  · have hc := carries_empty.addEncryptedBytes frame
    exact ⟨_, frame, by simpa [process, h] using hc, by omega, fun _ => rfl⟩
  · obtain ⟨segments, rfl, hl, hb⟩ := processFrame_eq h
    refine ⟨_, _, by simpa [process, h] using carries_empty.addSegments segments, hl, ?_⟩
    rintro (hC | hC | hC | hC)
    · exact hb (.inl hC)
    · exact hb (.inr (.inl hC))
    · exact hb (.inr (.inr hC))
    · cases hC

/-! ### The trailer -/

/-- The byte string of the ranges. -/
def encodeRanges (ranges : List UnencryptedRange) : Bytes :=
  ranges.flatMap fun r => encode r.offset ++ encode r.len

lemma unencryptedRangesSize_eq (ranges : List UnencryptedRange) :
    unencryptedRangesSize ranges = (encodeRanges ranges).length := by
  simp [unencryptedRangesSize, encodeRanges, encodedLen_eq, List.length_flatMap]

/-- Writing into a buffer of zeros moves the border between what is written and the zeros. -/
lemma writeAt_zeros (done rest : Bytes) {v k : ℕ} (hk : (encode v).length ≤ k) :
    writeAt (done ++ (List.replicate k 0 ++ rest)) done.length (done.length + k) v =
      .ok ((done ++ encode v) ++ (List.replicate (k - (encode v).length) 0 ++ rest),
        (encode v).length) := by
  have hz : (done ++ (List.replicate k 0 ++ rest)).drop done.length =
      List.replicate k 0 ++ rest := List.drop_left
  obtain ⟨hex, hdrop⟩ := slice_of_drop_eq hz
  rw [List.length_replicate] at hex hdrop
  rw [writeAt, hex, hdrop, writeTo_eq, if_pos (by simpa using hk)]
  simp

lemma writeAt_zeros_end (done : Bytes) {v k : ℕ} (hk : (encode v).length ≤ k) :
    writeAt (done ++ List.replicate k 0) done.length (done ++ List.replicate k 0).length v =
      .ok ((done ++ encode v) ++ List.replicate (k - (encode v).length) 0, (encode v).length) := by
  simpa using writeAt_zeros done [] hk

lemma writeRanges_zeros (done : Bytes) {ranges : List UnencryptedRange} {k : ℕ}
    (hk : (encodeRanges ranges).length ≤ k) :
    writeRanges (done ++ List.replicate k 0) done.length ranges =
      .ok ((done ++ encodeRanges ranges) ++ List.replicate (k - (encodeRanges ranges).length) 0,
        (done ++ encodeRanges ranges).length) := by
  induction ranges generalizing done k with
  | nil => simp [writeRanges, encodeRanges]
  | cons r ranges ih =>
    have hcons : encodeRanges (r :: ranges) =
        encode r.offset ++ (encode r.len ++ encodeRanges ranges) := by
      simp [encodeRanges]
    simp only [hcons, List.length_append] at hk ⊢
    rw [writeRanges, writeAt_zeros_end done (by omega)]
    simp only [bind, Except.bind]
    rw [← List.length_append, writeAt_zeros_end _ (by omega)]
    simp only
    rw [← List.length_append, ih _ (by omega)]
    simp [Nat.sub_sub, Nat.add_assoc]

/-- The trailer behind the tag. -/
def tailBytes (truncatedNonce : UInt32) (ranges : List UnencryptedRange) : Bytes :=
  encode truncatedNonce.toNat ++ encodeRanges ranges

def supplementalSize (truncatedNonce : UInt32) (ranges : List UnencryptedRange) : ℕ :=
  tagBytes + (tailBytes truncatedNonce ranges).length + 3

/-- **The writer.** -/
theorem writeSupplementalTail_eq (truncatedNonce : UInt32) (ranges : List UnencryptedRange)
    (output : Bytes) : writeSupplementalTail truncatedNonce ranges output =
      if 255 < supplementalSize truncatedNonce ranges then .error .supplementalDataTooLarge
      else .ok (output ++ tailBytes truncatedNonce ranges ++
        [UInt8.ofNat (supplementalSize truncatedNonce ranges)] ++ marker) := by
  have hsize : tagBytes + (encode truncatedNonce.toNat).length + (encodeRanges ranges).length + 1 +
      marker.length = supplementalSize truncatedNonce ranges := by
    simp [supplementalSize, tailBytes, marker]
    omega
  unfold writeSupplementalTail
  simp only [encodedLen_eq, unencryptedRangesSize_eq, hsize]
  split
  · rfl
  · have hzeros : List.replicate ((encode truncatedNonce.toNat).length +
          (encodeRanges ranges).length + 1 + marker.length) (0 : UInt8) =
        List.replicate (encode truncatedNonce.toNat).length 0 ++
          List.replicate ((encodeRanges ranges).length + 3) 0 := by
      rw [List.replicate_append_replicate, Nat.add_assoc, Nat.add_assoc]
      rfl
    rw [hzeros, writeAt_zeros output _ le_rfl]
    simp only [bind, Except.bind, Nat.sub_self, List.replicate_zero, List.nil_append]
    rw [← List.length_append, writeRanges_zeros _ (by omega)]
    simp only [List.take_left, pure, Except.pure]
    simp [tailBytes]

/-- Ranges that fit, and are numbers of 64 bits, read back as they were written. -/
lemma parseRangesFrom_encodeRanges {pos : ℕ} (hf : Fits pos rs n) (hn : n < 2 ^ 64) :
    parseRangesFrom n pos (encodeRanges rs) = .ok rs := by
  induction rs generalizing pos with
  | nil => simp [parseRangesFrom, encodeRanges]
  | cons r rs ih =>
    have hle : r.stop ≤ n := hf.2.le
    have hr : r.offset < 2 ^ 64 ∧ r.len < 2 ^ 64 := by
      simp only [Range.stop] at hle
      omega
    have hcons : encodeRanges (r :: rs) = encode r.offset ++ (encode r.len ++ encodeRanges rs) := by
      simp [encodeRanges]
    have hd₁ : (encode r.offset ++ (encode r.len ++ encodeRanges rs)).drop
        (encode r.offset).length = encode r.len ++ encodeRanges rs := List.drop_left
    have hd₂ : (encode r.len ++ encodeRanges rs).drop (encode r.len).length = encodeRanges rs :=
      List.drop_left
    have hne : ¬ (encode r.offset ++ (encode r.len ++ encodeRanges rs)).isEmpty := by
      simp [encode_ne_nil]
    have hno : ¬ (r.offset < pos ∨ n < r.offset + r.len) := by
      have := hf.1
      simp only [Range.stop] at hle
      omega
    have hlen := read_encode hr.2 (encodeRanges rs)
    rw [← hd₁] at hlen
    rw [hcons, parseRangesFrom_range hne (read_encode hr.1 _) hlen, if_neg hno, hd₁, hd₂,
      show r.offset + r.len = r.stop from rfl, ih hf.2]
    rfl

/-- **The parser reads what the writer wrote.** -/
theorem parse_tail (interleaved tag : Bytes) (truncatedNonce : UInt32)
    (htag : tag.length = tagBytes) (hf : Fits 0 rs interleaved.length)
    (hn : interleaved.length < 2 ^ 64) (hs : supplementalSize truncatedNonce rs ≤ 255) :
    parse (interleaved ++ tag ++ tailBytes truncatedNonce rs ++
      [UInt8.ofNat (supplementalSize truncatedNonce rs)] ++ marker) =
      .ok ⟨true, truncatedNonce, interleaved, rs, tag⟩ := by
  set size := supplementalSize truncatedNonce rs with hsize
  set tail := tailBytes truncatedNonce rs with htail
  set o := interleaved ++ tag ++ tail ++ [UInt8.ofNat size] ++ marker with ho
  have hsum : size = 8 + tail.length + 3 := rfl
  have hlen : o.length = interleaved.length + size := by
    simp only [ho, List.length_append, htag, marker, tagBytes, List.length_cons, List.length_nil]
    omega
  have hmarker : o.drop (o.length - marker.length) = marker := by
    rw [ho, List.length_append, Nat.add_sub_cancel, List.drop_left]
  have hbyte : o.getD (o.length - marker.length - 1) 0 = UInt8.ofNat size := by
    have hindex : o.length - marker.length - 1 = (interleaved ++ tag ++ tail).length := by
      simp only [ho, List.length_append, List.length_singleton]
      omega
    rw [hindex, ho, List.append_assoc _ _ marker, List.getD_eq_getElem?_getD,
      List.getElem?_append_right le_rfl]
    simp
  have hsupp : o.drop (o.length - size) = tag ++ (tail ++ ([UInt8.ofNat size] ++ marker)) := by
    rw [hlen, Nat.add_sub_cancel, ho]
    simp only [List.append_assoc, List.drop_left]
  have hto : (UInt8.ofNat size).toNat = size :=
    UInt8.toNat_ofNat_of_lt' (show size < 256 by omega)
  have hslice : slice (tag ++ (tail ++ ([UInt8.ofNat size] ++ marker))) tagBytes
      ((tag ++ (tail ++ ([UInt8.ofNat size] ++ marker))).length - marker.length - 1) = tail := by
    have hdrop : (tag ++ (tail ++ ([UInt8.ofNat size] ++ marker))).drop tagBytes =
        tail ++ ([UInt8.ofNat size] ++ marker) := by rw [← htag, List.drop_left]
    have hstop : (tag ++ (tail ++ ([UInt8.ofNat size] ++ marker))).length - marker.length - 1 =
        tagBytes + tail.length := by
      simp only [List.length_append, List.length_singleton, htag]
      omega
    rw [hstop, (slice_of_drop_eq hdrop).1]
  have hread : DecodedUleb128.read tail =
      some (truncatedNonce.toNat, (encode truncatedNonce.toNat).length) :=
    read_encode (lt_of_lt_of_le truncatedNonce.toNat_lt (by decide)) _
  have hrest : tail.drop (encode truncatedNonce.toNat).length = encodeRanges rs := List.drop_left
  have hil : o.take (o.length - size) = interleaved := by
    rw [hlen, Nat.add_sub_cancel, ho]
    simp only [List.append_assoc, List.take_left]
  have hnonce : ¬ 2 ^ 32 - 1 < truncatedNonce.toNat := by
    have := truncatedNonce.toNat_lt
    omega
  have hbase : ¬ o.length < supplementalBaseBytes := by
    simp only [supplementalBaseBytes, tagBytes, marker, List.length_cons, List.length_nil]
    omega
  have hfit : ¬ (size < supplementalBaseBytes ∨ o.length < size) := by
    simp only [supplementalBaseBytes, tagBytes, marker, List.length_cons, List.length_nil]
    omega
  rw [parse, if_neg hbase, if_neg (not_not.mpr hmarker)]
  simp only [hbyte, hto, if_neg hfit, hsupp, hslice, hread, if_neg hnonce, hil, hrest,
    parseUnencryptedRanges, parseRangesFrom_encodeRanges hf hn, UInt32.ofNat_toNat]
  rw [← htag, List.take_left]

/-! ### The round trip -/

/-- A slice of bytes in memory: no object is longer than `isize::MAX`. -/
structure Slice where
  bytes : Bytes
  length_lt : bytes.length < 2 ^ 63

lemma encryptProcessed_of_encrypt {A : Aead} {cipher : FrameCipher} {nonce : UInt32}
    {ciphertext tag : Bytes} (hc : Carries p m x) (henc : A.encrypt cipher.key
      (nonceFromTruncated nonce) p.unencryptedBytes p.encryptedBytes = some (ciphertext, tag)) :
    cipher.encryptProcessed A nonce p =
      if 255 < supplementalSize nonce p.unencryptedRanges then .error .supplementalDataTooLarge
      else .ok (merge m p.unencryptedBytes ciphertext ++ tag ++
        tailBytes nonce p.unencryptedRanges ++
        [UInt8.ofNat (supplementalSize nonce p.unencryptedRanges)] ++ marker) := by
  have hmatch : Matches m p.unencryptedBytes ciphertext :=
    hc.is_match.congr (A.length_encrypt henc).1
  simp only [FrameCipher.encryptProcessed, FrameCipher.encryptLogged, Aead.seal, henc]
  rw [reconstruct_eq hc.fits (hc.mask_eq ▸ hmatch), hc.mask_eq, writeSupplementalTail_eq]

/-- An encrypted frame, taken to pieces. -/
lemma encryptProcessed_eq {A : Aead} {cipher : FrameCipher} {nonce : UInt32} {o : Bytes}
    (hc : Carries p m x) (h : cipher.encryptProcessed A nonce p = .ok o) :
    ∃ ciphertext tag, A.encrypt cipher.key (nonceFromTruncated nonce) p.unencryptedBytes
        p.encryptedBytes = some (ciphertext, tag) ∧
      supplementalSize nonce p.unencryptedRanges ≤ 255 ∧
      o = merge m p.unencryptedBytes ciphertext ++ tag ++ tailBytes nonce p.unencryptedRanges ++
        [UInt8.ofNat (supplementalSize nonce p.unencryptedRanges)] ++ marker := by
  rcases henc : A.encrypt cipher.key (nonceFromTruncated nonce) p.unencryptedBytes
      p.encryptedBytes with _ | ⟨ciphertext, tag⟩
  · simp [FrameCipher.encryptProcessed, FrameCipher.encryptLogged, Aead.seal, henc] at h
  · rw [encryptProcessed_of_encrypt hc henc] at h
    split at h
    · cases h
    next hs =>
      cases h
      exact ⟨ciphertext, tag, rfl, by omega, rfl⟩

/-- Decryption of the pieces of an encrypted frame. -/
lemma decryptInto_eq {A : Aead} {cipher : FrameCipher} {nonce : UInt32} {ciphertext tag : Bytes}
    (hc : Carries p m x) (henc : A.encrypt cipher.key (nonceFromTruncated nonce)
      p.unencryptedBytes p.encryptedBytes = some (ciphertext, tag)) (generation : UInt32) :
    cipher.decryptInto A generation ⟨true, nonce, merge m p.unencryptedBytes ciphertext,
      p.unencryptedRanges, tag⟩ = .ok x := by
  have hdec := A.decrypt_encrypt henc
  have hmatch : Matches m p.unencryptedBytes ciphertext :=
    hc.is_match.congr (A.length_encrypt henc).1
  have hlen : (merge m p.unencryptedBytes ciphertext).length = p.frameIndex := by
    rw [length_merge hmatch, hc.length_mask]
  unfold FrameCipher.decryptInto
  dsimp only
  split
  next hr =>
    -- no ranges: everything is hidden, and nothing is authenticated
    rw [List.isEmpty_iff] at hr
    have hmask : m = mask 0 [] p.frameIndex := by rw [← hr, hc.mask_eq]
    obtain ⟨has, hct⟩ := Matches.of_mask_nil (hmask ▸ hmatch)
    obtain ⟨-, hen⟩ := Matches.of_mask_nil (hmask ▸ hc.is_match)
    have hx : x = p.encryptedBytes := by rw [← hc.merge_eq, hmask, hen]
    rw [has] at hdec
    rw [FrameCipher.decryptContiguousInto, hmask, hct]
    simp only [hdec, hx]
  next =>
    have hfits : Fits 0 p.unencryptedRanges (merge m p.unencryptedBytes ciphertext).length :=
      hlen ▸ hc.fits
    rw [split_eq hfits, hlen, hc.mask_eq, (pick_merge hmatch).1, (pick_merge hmatch).2]
    simp only [hdec]
    rw [reconstruct_eq hc.fits (hc.mask_eq ▸ hc.is_match), hc.mask_eq, hc.merge_eq]

/-- **The round trip.** What a frame cipher encrypts parses as an encrypted frame with the
nonce and the ranges it was written with, and decrypts to the bytes that were processed. These
are the payload itself, except where a codec rewrites it. -/
theorem decryptInto_encryptProcessed (A : Aead) (C : Codec) (payload : Slice) (cipher : FrameCipher)
    (nonce generation : UInt32) (o : Bytes)
    (h : cipher.encryptProcessed A nonce (process C payload.bytes) = .ok o) :
    (∃ parsed, parse o = .ok parsed ∧ parsed.encrypted = true ∧ parsed.truncatedNonce = nonce ∧
      parsed.unencryptedRanges = (process C payload.bytes).unencryptedRanges ∧
      parsed.interleavedFrame.length = (process C payload.bytes).frameIndex ∧
      cipher.decryptInto A generation parsed = .ok (process C payload.bytes).plaintext) ∧
    (C = .opus ∨ C = .vp8 ∨ C = .vp9 ∨ C.processFrame payload.bytes {} = none →
      (process C payload.bytes).plaintext = payload.bytes) := by
  obtain ⟨m, x, hc, hle, hx⟩ := process_carries C payload.bytes
  obtain ⟨ciphertext, tag, henc, hs, rfl⟩ := encryptProcessed_eq hc h
  obtain ⟨hlct, hltag⟩ := A.length_encrypt henc
  have hlen : (merge m (process C payload.bytes).unencryptedBytes ciphertext).length =
      (process C payload.bytes).frameIndex := by
    rw [length_merge (hc.is_match.congr hlct), hc.length_mask]
  have hbound : (process C payload.bytes).frameIndex < 2 ^ 64 := by
    have := payload.length_lt
    rw [← hc.length_eq]
    omega
  refine ⟨⟨_, parse_tail _ tag nonce hltag (hlen ▸ hc.fits) (hlen ▸ hbound) hs, rfl, rfl, rfl,
    hlen, ?_⟩, fun hC => ?_⟩
  · rw [decryptInto_eq hc henc, hc.plaintext_eq]
  · rw [hc.plaintext_eq, hx hC]

/-- A block cipher and a hash for the examples. -/
def toyPrimitives : Primitives where
  encryptBlock _ _ := ⟨List.replicate 16 0x5a, rfl⟩
  ghash _ _ := ⟨List.replicate 16 0x11, rfl⟩

theorem decryptInto_vp8 : ∃ parsed,
    parse [1, 0x58, 0x59, 0x4b, 0x4b, 0x4b, 0x4b, 0x4b, 0x4b, 0x4b, 0x4b, 7, 0, 1, 14, 0xFA, 0xFA] =
      .ok parsed ∧
    (FrameCipher.mk (List.replicate 16 0) rfl).decryptInto (aes128Gcm8 toyPrimitives) 0 parsed =
      .ok [1, 2, 3] := by
  obtain ⟨⟨parsed, hparse, -, -, -, -, hdec⟩, hplain⟩ :=
    decryptInto_encryptProcessed (aes128Gcm8 toyPrimitives) .vp8 ⟨[1, 2, 3], by decide⟩
      ⟨List.replicate 16 0, rfl⟩ 7 0
      [1, 0x58, 0x59, 0x4b, 0x4b, 0x4b, 0x4b, 0x4b, 0x4b, 0x4b, 0x4b, 7, 0, 1, 14, 0xFA, 0xFA]
      (by decide +kernel)
  exact ⟨parsed, hparse, by rw [hdec, hplain (.inr (.inl rfl))]⟩

end Cacophony.FrameRoundTrip
