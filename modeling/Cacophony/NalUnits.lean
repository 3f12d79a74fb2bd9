import Cacophony.FrameRoundTrip

/-!
The NAL units of a processed H.264 or H.265 frame.

Processing rewrites every start code as a long one. Units are parted by the same bytes before and
after: zeros in front of a start code belong to the unit, but for one, and a unit without bytes is
passed over by the iterator. The loop of the source stops in front of the last byte of the frame
though, and a last unit of one byte is lost.
-/

namespace Cacophony.NalUnits

open AnnexB Cacophony.Frame FrameCodecs FrameRoundTrip
open OutboundFrameProcessor

variable {frame : Bytes}

/-- The frame ends with a start code and one more byte. -/
def EndsInByte (frame : Bytes) : Prop := StartAt frame (frame.length - 4)

instance (frame : Bytes) : Decidable (EndsInByte frame) :=
  inferInstanceAs (Decidable (StartAt _ _))

/-! ### What the loop processes -/

/-- The unit that a start code ends has no start code in it. -/
lemma noStartCode_slice {s i : ℕ} (h : FirstFrom frame s i) :
    NoStartCode (slice frame s (naluEnd frame (some (naluAt frame i)))) := by
  have hstop : naluEnd frame (some (naluAt frame i)) ≤ i := by
    simp only [naluEnd, Option.elim_some, naluAt]
    split <;> omega
  have hlen := h.2.1.1
  rintro j ⟨h0, h1, h2⟩
  simp only [getElem?_slice, Option.ite_none_right_eq_some] at h0 h1 h2
  exact h.2.2 (s + j) (by omega) (by omega) ⟨by omega, h0.2, h1.2, h2.2⟩

/-- All units are processed. -/
structure Full (frame : Bytes) (units all : List Bytes) : Prop where
  not_ends : ¬ EndsInByte frame
  last : ∃ nals nal, units = nals ++ [nal] ∧ (∀ n ∈ nals, NoStartCode n) ∧ nal ≠ [] ∧
    ∀ j, ¬ StartAt nal j
  all_eq : all = units.filter (· ≠ [])

/-- All units are processed but the last, which is one byte. -/
structure Short (frame : Bytes) (units all : List Bytes) : Prop where
  ends : EndsInByte frame
  quiet : ∀ n ∈ units, NoStartCode n
  all_eq : ∃ x, all = units.filter (· ≠ []) ++ [[x]]

section Cons

variable {units all : List Bytes} {nal : Bytes}

lemma Full.cons (h : Full frame units all) (hnal : NoStartCode nal) :
    Full frame (nal :: units) ([nal].filter (· ≠ []) ++ all) where
  not_ends := h.not_ends
  last := by
    obtain ⟨nals, last, rfl, hnals, hlast⟩ := h.last
    exact ⟨nal :: nals, last, rfl, List.forall_mem_cons.mpr ⟨hnal, hnals⟩, hlast⟩
  all_eq := by rw [h.all_eq, ← List.filter_append, List.singleton_append]

lemma Short.cons (h : Short frame units all) (hnal : NoStartCode nal) :
    Short frame (nal :: units) ([nal].filter (· ≠ []) ++ all) where
  ends := h.ends
  quiet := List.forall_mem_cons.mpr ⟨hnal, h.quiet⟩
  all_eq := by
    obtain ⟨x, hx⟩ := h.all_eq
    exact ⟨x, by rw [hx, ← List.append_assoc, ← List.filter_append, List.singleton_append]⟩

end Cons

def whole (piece : Piece) : Bytes := piece.1 ++ piece.2

variable {C : H26xFrameCodec} {nalu : H26xNalu} {p p' : OutboundFrameProcessor} {i : ℕ}

lemma full_last (hi : StartAt frame i) (hlt : i + 3 < frame.length - 1)
    (hnext : findNextNalu frame (i + 3) = none) (c : ℕ) :
    Full frame [slice frame (i + 3) frame.length]
      (AnnexBNalus.toList ⟨frame, some ⟨i + 3, c⟩⟩) where
  not_ends hends := by
    have hend := hends.1
    rcases lt_trichotomy i (frame.length - 4) with h | h | h
    · exact findNextNalu_eq_none.mp hnext _ (hi.disjoint hends h) hends
    · omega
    · omega
  last := by
    refine ⟨[], _, rfl, by simp, List.ne_nil_of_length_pos ?_, fun j hj => ?_⟩
    · rw [length_slice]
      omega
    · exact findNextNalu_eq_none.mp hnext _ (Nat.le_add_right _ _) (startAt_slice.mp hj).1
  all_eq := by
    rw [toList_next, hnext, toList_none, List.append_nil]
    rfl

lemma short_nil (hi : StartAt frame i) (hge : ¬ i + 3 < frame.length - 1) (c : ℕ) :
    Short frame [] (AnnexBNalus.toList ⟨frame, some ⟨i + 3, c⟩⟩) where
  ends := by
    have hlen := hi.1
    rwa [EndsInByte, show frame.length - 4 = i by omega]
  quiet := by simp
  all_eq := by
    have hlen := hi.1
    have hnext : findNextNalu frame (i + 3) = none :=
      findNextNalu_eq_none.mpr fun j hj hst => by
        have := hst.1
        omega
    obtain ⟨x, hx⟩ : ∃ x, slice frame (i + 3) frame.length = [x] := by
      refine List.length_eq_one_iff.mp ?_
      rw [length_slice]
      omega
    refine ⟨x, ?_⟩
    rw [toList_next, hnext, toList_none]
    simp [naluEnd, hx]

lemma processNalus_units (h : processNalus C frame nalu p = some p') (hi : StartAt frame i)
    (hnalu : nalu.start = i + 3) :
    ∃ pieces : List Piece, p' = addSegments p (pieces.flatMap pieceSegments) ∧
      (Full frame (pieces.map whole) (AnnexBNalus.toList ⟨frame, some nalu⟩) ∨
        Short frame (pieces.map whole) (AnnexBNalus.toList ⟨frame, some nalu⟩)) := by
  fun_induction processNalus C frame nalu p generalizing i with
  | case1 nalu p hlt hnext =>
    obtain ⟨piece, heq, rfl⟩ := processNalu_eq h
    refine ⟨[piece], by simp, .inl ?_⟩
    obtain ⟨start, c⟩ := nalu
    obtain rfl : start = i + 3 := hnalu
    rw [List.map_singleton, whole, heq]
    exact full_last hi hlt hnext c
  | case2 nalu p hlt next hnext ih =>
    obtain ⟨p₁, h₁, h₂⟩ := Option.bind_eq_some_iff.mp h
    obtain ⟨piece, heq, rfl⟩ := processNalu_eq h₁
    obtain ⟨k, hk, rfl⟩ := exists_of_findNextNalu hnext
    obtain ⟨pieces, rfl, hunits⟩ := ih _ h₂ hk.2.1 rfl
    refine ⟨piece :: pieces, by rw [List.flatMap_cons, addSegments_append], ?_⟩
    have hquiet := noStartCode_slice hk
    rw [toList_next, hnext, List.map_cons, whole, heq]
    exact hunits.imp (fun hf => hf.cons hquiet) fun hs => hs.cons hquiet
  | case3 nalu p hge =>
    cases h
    refine ⟨[], rfl, .inr ?_⟩
    obtain ⟨start, c⟩ := nalu
    obtain rfl : start = i + 3 := hnalu
    exact short_nil hi hge c

/-! ### The units of the result -/

lemma plaintext_pieces (pieces : List Piece) :
    (addSegments {} (pieces.flatMap pieceSegments)).plaintext =
      (pieces.map whole).flatMap (h26xLongStartCode ++ ·) := by
  rw [(carries_empty.addSegments _).plaintext_eq, List.nil_append]
  induction pieces with
  | nil => rfl
  | cons piece pieces ih =>
    rw [List.flatMap_cons, segmentBytes_append, ih]
    simp [pieceSegments, whole]

lemma Full.nalus_eq {units all : List Bytes} (h : Full frame units all) :
    (nalus (units.flatMap (h26xLongStartCode ++ ·))).toList = all := by
  obtain ⟨nals, nal, rfl, hnals, hne, hnal⟩ := h.last
  rw [toList_nalus_append hnals hne hnal, h.all_eq]

/-- A start code with nothing behind it is part of the unit in front of it. -/
lemma toList_nalus_long {nals : List Bytes} {nal : Bytes} (hnals : ∀ n ∈ nals, NoStartCode n)
    (hnal : NoStartCode nal) :
    (nalus ((nals ++ [nal] ++ [[]]).flatMap (h26xLongStartCode ++ ·))).toList =
      (nals ++ [nal ++ h26xLongStartCode]).filter (· ≠ []) := by
  rw [← toList_nalus_append hnals (by simp [h26xLongStartCode]) fun j hj => ?_]
  · simp
  · have hlen : j ≤ nal.length := by
      have := hj.1
      simp only [List.length_append, h26xLongStartCode, List.length_cons, List.length_nil] at this
      omega
    refine hnal.append [] hlen ?_
    rw [List.append_nil]
    exact hj.2

/-- The unit that is left out is missed. -/
lemma Short.nalus_ne {units all : List Bytes} (h : Short frame units all) :
    (nalus (units.flatMap (h26xLongStartCode ++ ·))).toList ≠ all := by
  obtain ⟨x, rfl⟩ := h.all_eq
  rcases List.eq_nil_or_concat' units with rfl | ⟨units, nal, rfl⟩
  · simp [nalus_nil]
  by_cases hne : nal = []
  · subst hne
    rcases List.eq_nil_or_concat' units with rfl | ⟨nals, nal, rfl⟩
    · have hnone : findNextNalu h26xLongStartCode 0 = none := by
        refine findNextNalu_eq_none.mpr fun j _ hst => ?_
        obtain rfl : j = 0 := by
          have := hst.1
          simp only [h26xLongStartCode, List.length_cons, List.length_nil] at this
          omega
        exact absurd hst (by decide)
      simp [nalus, hnone, toList_none]
    · rw [toList_nalus_long (fun n hn => h.quiet n (by simp [hn])) (h.quiet nal (by simp)),
        List.filter_append]
      intro heq
      have hlast : nal ++ h26xLongStartCode = [x] := by
        simpa [h26xLongStartCode] using congrArg List.getLast? heq
      simpa [h26xLongStartCode] using congrArg List.length hlast
  · intro heq
    rw [toList_nalus_append (fun n hn => h.quiet n (by simp [hn])) hne
      fun j hj => h.quiet nal (by simp) j hj.2] at heq
    simpa using congrArg List.length heq

/-! ### Falling back -/

/-- The codec leaves the unit in the clear, or its clear part lies in the unit. -/
def Divides (C : H26xFrameCodec) (frame : Bytes) (start stop : ℕ) : Prop :=
  C.encryptsPayload (C.nalType (frame.getD start 0)) = true →
    ∃ unencrypted, C.encryptedPayloadUnencryptedPrefix (slice frame start stop) =
      some unencrypted ∧ start + unencrypted ≤ stop

/-- The frame is too short or has no start code, or one of its units is not divided. The loop does
not come to a unit that starts with the last byte. -/
def FallsBack (C : H26xFrameCodec) (frame : Bytes) : Prop :=
  frame.length < h26xShortStartSequenceBytes + C.nalHeaderBytes ∨ scan frame = [] ∨
    ∃ n ∈ scan frame, n.start < frame.length - 1 ∧
      ¬ Divides C frame n.start (naluEnd frame (findNextNalu frame n.start))

lemma processNalu_eq_none {start stop : ℕ} :
    processNalu C frame start stop p = none ↔ ¬ Divides C frame start stop := by
  unfold processNalu Divides
  rcases C.encryptsPayload (C.nalType (frame.getD start 0)) with _ | _
  · simp
  · rcases C.encryptedPayloadUnencryptedPrefix (slice frame start stop) with _ | unencrypted
    · simp
    · by_cases hle : start + unencrypted ≤ stop <;> simp [hle]

lemma processNalus_eq_none : processNalus C frame nalu p = none ↔
    ∃ n ∈ nalu :: scanFrom frame nalu.start, n.start < frame.length - 1 ∧
      ¬ Divides C frame n.start (naluEnd frame (findNextNalu frame n.start)) := by
  fun_induction processNalus C frame nalu p with
  | case1 nalu p hlt hnext =>
    rw [processNalu_eq_none, scanFrom_eq, hnext]
    simp [hnext, hlt]
  | case2 nalu p hlt next hnext ih =>
    rw [scanFrom_eq, hnext]
    simp only [List.exists_mem_cons_iff, hlt, true_and, hnext]
    rw [← processNalu_eq_none (p := p), Option.bind_eq_none_iff]
    rcases hp : processNalu C frame nalu.start (naluEnd frame (some next)) p with _ | p₁
    · simp
    · simpa using ih p₁
  | case3 nalu p hge =>
    simp only [reduceCtorEq, false_iff]
    rintro ⟨n, hn, hlt, -⟩
    rcases List.mem_cons.mp hn with rfl | hn
    · exact hge hlt
    · obtain ⟨k, hk, hst, rfl⟩ := mem_scanFrom.mp hn
      have := hst.1
      simp only [naluAt] at hlt
      omega

lemma processH26xFrame_eq_none : processH26xFrame C frame {} = none ↔ FallsBack C frame := by
  unfold processH26xFrame FallsBack
  split
  next hshort => simp [hshort]
  next hlong =>
    rw [scan, scanFrom_eq]
    rcases findNextNalu frame 0 with _ | nalu
    · simp
    · simp only [processNalus_eq_none, hlong, false_or, reduceCtorEq]

/-- For every H.264 and H.265 frame: what the processor represents has the NAL units of the frame
if and only if the frame does not end with a start code and one more byte, or falls back. A frame
that falls back is represented as it is. -/
theorem nalus_process_iff (C : H26x) (frame : Bytes) :
    ((nalus (process C.codec frame).plaintext).toList = (nalus frame).toList ∧
      (C.codec.processFrame frame {} = none → (process C.codec frame).plaintext = frame)) ↔
    FallsBack C.frameCodec frame ∨ ¬ EndsInByte frame := by
  have hcodec : C.codec.processFrame frame {} = processH26xFrame C.frameCodec frame {} := by
    cases C <;> rfl
  rw [hcodec, ← processH26xFrame_eq_none]
  rcases hp : processH26xFrame C.frameCodec frame {} with _ | p
  · obtain ⟨m, x, hc, -, hx⟩ := process_carries C.codec frame
    obtain rfl := hx (.inr (.inr (.inr (hcodec.trans hp))))
    simp [hc.plaintext_eq]
  · have hprocess : process C.codec frame = p := by rw [process, hcodec, hp, Option.getD_some]
    simp only [hprocess, reduceCtorEq, false_imp_iff, and_true, false_or]
    obtain ⟨nalu, hnext, hnalus⟩ := processH26xFrame_eq_some hp
    obtain ⟨i, hi, rfl⟩ := exists_of_findNextNalu hnext
    obtain ⟨pieces, rfl, hunits⟩ := processNalus_units hnalus hi.2.1 rfl
    rw [plaintext_pieces, nalus.eq_def frame, hnext]
    rcases hunits with hfull | hshort
    · exact iff_of_true hfull.nalus_eq hfull.not_ends
    · exact iff_of_false hshort.nalus_ne (not_not.mpr hshort.ends)

lemma noStartCode_of_length {nal : Bytes} (h : nal.length < 3) : NoStartCode nal := by
  rintro j ⟨-, -, h2⟩
  rw [List.getElem?_eq_none (by omega)] at h2
  cases h2

/-- A sequence parameter set and an end of sequence, which is a unit of one byte. -/
def endOfSequence : Bytes := [0, 0, 0, 1, 0x67, 0x42, 0, 0, 0, 1, 0x0a]

theorem process_endOfSequence :
    (nalus endOfSequence).toList = [[0x67, 0x42], [0x0a]] ∧
    (process .h264 endOfSequence).plaintext = [0, 0, 0, 1, 0x67, 0x42] ∧
    (nalus (process .h264 endOfSequence).plaintext).toList = [[0x67, 0x42]] := by
  have hquiet : NoStartCode [0x67, 0x42] := noStartCode_of_length (by decide)
  have hfirst : findNextNalu endOfSequence 0 = some ⟨4, 4⟩ :=
    findNextNalu_of_unit (noStartCode_of_length (show ([] : Bytes).length < 3 by decide))
      (show ([0x67, 0x42, 0, 0, 0, 1, 0x0a] : Bytes) ≠ [] by decide) rfl
  have hsecond : findNextNalu endOfSequence 4 = some ⟨10, 4⟩ :=
    findNextNalu_of_unit hquiet (show ([0x0a] : Bytes) ≠ [] by decide) rfl
  have hplain : (process .h264 endOfSequence).plaintext = [0, 0, 0, 1, 0x67, 0x42] := by
    have hloop : processNalus h264 endOfSequence ⟨4, 4⟩ {} = some (addUnencryptedBytes
        (addUnencryptedBytes {} h26xLongStartCode) [0x67, 0x42]) := by
      rw [processNalus, if_pos (by decide)]
      split
      next hnone => simp [hsecond] at hnone
      next next hnext =>
        obtain rfl : next = ⟨10, 4⟩ := Option.some.inj (hnext.symm.trans hsecond)
        have hunit : processNalu h264 endOfSequence 4 6 {} = some (addUnencryptedBytes
            (addUnencryptedBytes {} h26xLongStartCode) [0x67, 0x42]) := by decide +kernel
        rw [show naluEnd endOfSequence (some ⟨10, 4⟩) = 6 from rfl, hunit, Option.bind_some,
          processNalus, if_neg (by decide)]
    rw [process, Codec.processFrame, processH26xFrame, if_neg (by decide)]
    simp only [hfirst, hloop]
    decide +kernel
  have hunits (nals : List Bytes) (h : ∀ n ∈ nals, n ≠ [] ∧ n.length < 3) :
      (nalus (nals.flatMap (h26xLongStartCode ++ ·))).toList = nals :=
    toList_nalus fun n hn => ⟨(h n hn).1, noStartCode_of_length (h n hn).2⟩
  refine ⟨hunits [[0x67, 0x42], [0x0a]] (by decide), hplain, ?_⟩
  rw [hplain]
  exact hunits [[0x67, 0x42]] (by decide)

end Cacophony.NalUnits
