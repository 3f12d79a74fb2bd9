import Cacophony.FrameRoundTrip
import Cacophony.SenderNonces

/-!
Start codes in encrypted H.264 and H.265 frames.

A receiver cuts a frame at its start codes, so ciphertext, tag and trailer must not show any.
The validator of the source looks at every run of hidden bytes with two bytes on either side. It
looks at the trailer only when the frame ends in hidden bytes: behind a clear unit, or an empty
frame, a start code in the tag goes out.
-/

namespace Cacophony.StartCodes

open Gcm Interleave AnnexB Cacophony.Frame FrameCodecs
open FrameRoundTrip Ratchet SenderNonces OutboundFrameProcessor

/-! ### The validator -/

variable {o : Bytes} {rs : List UnencryptedRange} {s n e : ℕ}

lemma window_free {a b : ℕ} : findNextNalu (slice o a (min b o.length)) 0 = none ↔
    ∀ i, a ≤ i → i + 3 < b → ¬ StartAt o i := by
  rw [findNextNalu_eq_none]
  constructor
  · intro h i ha hb hst
    refine h (i - a) (Nat.zero_le _) (startAt_slice.mpr ⟨?_, ?_⟩)
    · rwa [Nat.add_sub_cancel' ha]
    · have := hst.1
      omega
  · intro h j _ hst
    obtain ⟨hst, hlt⟩ := startAt_slice.mp hst
    exact h _ (by omega) (by omega) hst

/-- A start code that takes a hidden byte in front of the last section is one that ends with the
first two bytes of a clear range. -/
lemma of_validateSections (hf : Fits s rs n) (hv : validateSections o s rs = some e) :
    e = lastStop s rs ∧ ∀ i h, StartAt o i → i ≤ h → h ≤ i + 2 → s ≤ h → h < e →
      ¬ Covered rs h → i = h ∧ ∃ r ∈ rs, r.offset = h + 1 := by
  induction rs generalizing s with
  | nil =>
    cases hv
    exact ⟨rfl, by omega⟩
  | cons r rs ih =>
    -- behind the range, the rest of the loop
    have hrest (hv : validateSections o r.stop rs = some e) {i h : ℕ} (hst : StartAt o i)
        (hi : i ≤ h) (hi' : h ≤ i + 2) (hr : r.offset ≤ h) (hlt : h < e)
        (hno : ¬ Covered (r :: rs) h) : i = h ∧ ∃ r' ∈ r :: rs, r'.offset = h + 1 := by
      have hout : r.stop ≤ h := by
        by_contra hin
        exact hno ⟨r, List.mem_cons_self, hr, by omega⟩
      have hno' : ¬ Covered rs h := fun ⟨r', hr', hc⟩ => hno ⟨r', List.mem_cons_of_mem _ hr', hc⟩
      obtain ⟨heq, r', hr', hoff⟩ := (ih hf.2 hv).2 i h hst hi hi' hout hlt hno'
      exact ⟨heq, r', List.mem_cons_of_mem _ hr', hoff⟩
    unfold validateSections at hv
    split at hv
    next hs =>
      rw [hs] at hv
      exact ⟨(ih hf.2 hv).1, fun i h hst hi hi' hle hlt hno =>
        hrest hv hst hi hi' (hs ▸ hle) hlt hno⟩
    next hs =>
      dsimp only at hv
      split at hv
      · cases hv
      next hwindow =>
        rw [Bool.not_eq_true, Option.isSome_eq_false_iff, Option.isNone_iff_eq_none] at hwindow
        have hfree := window_free.mp hwindow
        refine ⟨(ih hf.2 hv).1, fun i h hst hi hi' hle hlt hno => ?_⟩
        rcases lt_or_ge h r.offset with hgap | hgap
        · have hend : ¬ i + 3 < r.offset + 2 := fun hin => hfree i (by omega) hin hst
          exact ⟨by omega, r, List.mem_cons_self, by omega⟩
        · exact hrest hv hst hi hi' hgap hlt hno

/-- Hidden bytes `FF` pass. -/
lemma validateSections_of_hidden (hf : Fits s rs n)
    (hff : ∀ h, s ≤ h → h < lastStop s rs → ¬ Covered rs h → o[h]? = some 0xFF) :
    validateSections o s rs = some (lastStop s rs) := by
  induction rs generalizing s with
  | nil => rfl
  | cons r rs ih =>
    have hnext : validateSections o r.stop rs = some (lastStop r.stop rs) := by
      refine ih hf.2 fun h hs hlt hno => hff h ?_ hlt ?_
      · have := hf.1
        simp only [Range.stop] at hs
        omega
      · rintro ⟨r', hr', hc⟩
        rcases List.mem_cons.mp hr' with rfl | hr'
        · omega
        · exact hno ⟨r', hr', hc⟩
    unfold validateSections
    split
    next hs =>
      subst hs
      exact hnext
    next hs =>
      have hle := hf.1
      have hstop : r.stop ≤ lastStop r.stop rs := hf.2.lastStop_le.1
      have hgap {h : ℕ} (hs : s ≤ h) (hlt : h < r.offset) : o[h]? = some 0xFF := by
        refine hff h hs ?_ ?_
        · simp only [Range.stop, lastStop] at hstop ⊢
          omega
        · intro hc
          have hfits : Fits r.offset (r :: rs) _ := ⟨le_rfl, hf.2⟩
          have := (hfits.lt_lastStop hc).1
          omega
      have hwindow : findNextNalu (slice o (s - 2) (min (r.offset + 2) o.length)) 0 = none := by
        refine window_free.mpr fun i hi hlt hst => ?_
        -- the window has at least one hidden byte, and the last bytes of a start code meet it
        rcases lt_or_ge (i + 2) r.offset with hin | hin
        · exact absurd ((hst.third (hgap (by omega) hin)).1 rfl) (by decide)
        · exact absurd ((hst.third (hgap (h := i + 1) (by omega) (by omega))).2.1 rfl) (by decide)
      simp only [hwindow, Option.isSome_none, Bool.false_eq_true, if_false]
      exact hnext

/-! ### The clear bytes of a processed frame -/

/-- Every range of the processor starts like a long start code. -/
def Opens (p : OutboundFrameProcessor) (x : Bytes) : Prop :=
  ∀ r ∈ p.unencryptedRanges, 2 ≤ r.len ∧ x[r.offset + 1]? = some 0

variable {p : OutboundFrameProcessor} {m : List Bool} {x frame : Bytes} {k : ℕ}

lemma mem_addRange {r : UnencryptedRange} (h : r ∈ addRange n k rs) :
    (∃ r' ∈ rs, r = { r' with len := r'.len + k }) ∨ r ∈ rs ∨ r = ⟨n, k⟩ := by
  have hlast {r' : UnencryptedRange} (hr' : rs.getLast? = some r') : r' ∈ rs :=
    List.mem_of_getLast? hr'
  unfold addRange at h
  split at h
  next r' hr' =>
    split at h
    · rcases List.mem_append.mp h with h | h
      · exact .inr (.inl (List.mem_of_mem_dropLast h))
      · exact .inl ⟨r', hlast hr', List.mem_singleton.mp h⟩
    · rcases List.mem_append.mp h with h | h
      · exact .inr (.inl h)
      · exact .inr (.inr (List.mem_singleton.mp h))
  next =>
    rcases List.mem_append.mp h with h | h
    · exact .inr (.inl h)
    · exact .inr (.inr (List.mem_singleton.mp h))

lemma addRange_addRange (n k l : ℕ) (rs : List UnencryptedRange) :
    addRange (n + k) l (addRange n k rs) = addRange n (k + l) rs := by
  have hextend (init : List UnencryptedRange) {r : UnencryptedRange} {n : ℕ} (hr : r.stop = n)
      (k : ℕ) : addRange n k (init ++ [r]) = init ++ [{ r with len := r.len + k }] := by
    simp [addRange, hr]
  rcases List.eq_nil_or_concat rs with rfl | ⟨init, r, rfl⟩
  · exact hextend [] rfl l
  · rw [List.concat_eq_append]
    by_cases hr : r.stop = n
    · rw [hextend init hr, hextend init hr, hextend init, Nat.add_assoc]
      rw [← hr, Range.stop, Range.stop, Nat.add_assoc]
    · have hpush (k : ℕ) : addRange n k (init ++ [r]) = init ++ [r] ++ [⟨n, k⟩] := by
        simp [addRange, hr]
      rw [hpush, hpush]
      exact hextend _ rfl l

/-- Clear bytes behind clear bytes extend the same range. -/
lemma addUnencryptedBytes_append {a : Bytes} (ha : a ≠ []) (b : Bytes) :
    (p.addUnencryptedBytes a).addUnencryptedBytes b = p.addUnencryptedBytes (a ++ b) := by
  rcases eq_or_ne b [] with rfl | hb
  · simp [addUnencryptedBytes]
  simp [addUnencryptedBytes, ha, hb, addRange_addRange, Nat.add_assoc]

lemma Opens.addPiece (h : Opens p x) (hl : x.length = p.frameIndex) (piece : Piece) :
    Opens (addSegments p (pieceSegments piece)) (x ++ segmentBytes (pieceSegments piece)) := by
  have hp : (addSegments p (pieceSegments piece)).unencryptedRanges =
      addRange p.frameIndex (4 + piece.1.length) p.unencryptedRanges := by
    have hclear := addUnencryptedBytes_append (p := p) (a := h26xLongStartCode) (by decide) piece.1
    have hlen : (h26xLongStartCode ++ piece.1).length = 4 + piece.1.length := by
      rw [List.length_append]
      rfl
    have hranges : (p.addUnencryptedBytes (h26xLongStartCode ++ piece.1)).unencryptedRanges =
        addRange p.frameIndex (4 + piece.1.length) p.unencryptedRanges := by
      rw [addUnencryptedBytes, if_neg (by simp [h26xLongStartCode]), hlen]
    simp only [addSegments, pieceSegments, List.foldl_cons, List.foldl_nil, addSegment, hclear,
      addEncryptedBytes]
    split <;> exact hranges
  have hkeep {r : UnencryptedRange} (hr : x[r.offset + 1]? = some 0) :
      (x ++ segmentBytes (pieceSegments piece))[r.offset + 1]? = some 0 := by
    rw [List.getElem?_append_left (List.getElem?_eq_some_iff.mp hr).1]
    exact hr
  intro r hr
  rw [hp] at hr
  rcases mem_addRange hr with ⟨r', hr', rfl⟩ | hr' | rfl
  · obtain ⟨hlen, hx⟩ := h r' hr'
    exact ⟨by dsimp only; omega, hkeep hx⟩
  · exact ⟨(h r hr').1, hkeep (h r hr').2⟩
  · refine ⟨by dsimp only; omega, ?_⟩
    rw [← hl, List.getElem?_append_right (by simp)]
    simp [pieceSegments, h26xLongStartCode]

lemma Opens.addPieces (h : Opens p x) (hc : Carries p m x) (pieces : List Piece) :
    Opens (addSegments p (pieces.flatMap pieceSegments))
      (x ++ segmentBytes (pieces.flatMap pieceSegments)) := by
  induction pieces generalizing p m x with
  | nil => simpa [addSegments] using h
  | cons piece pieces ih =>
    have hstep := ih (h.addPiece hc.length_eq piece) (hc.addSegments (pieceSegments piece))
    rw [List.flatMap_cons, addSegments_append, segmentBytes_append, ← List.append_assoc]
    exact hstep

/-! ### Start codes among the clear bytes -/

/-- The bytes and the mask of a list of units. -/
def pieceBytes (pieces : List Piece) : Bytes := segmentBytes (pieces.flatMap pieceSegments)

def pieceMask (pieces : List Piece) : List Bool := segmentMask (pieces.flatMap pieceSegments)

/-- A start code of clear bytes at `i`, whether or not a byte follows it. -/
structure ClearCode (m : List Bool) (x : Bytes) (i : ℕ) : Prop where
  clear : ∀ k < 3, m[i + k]? = some true
  zero : x[i]? = some 0
  zero' : x[i + 1]? = some 0
  one : x[i + 2]? = some 1

variable {piece : Piece} {pieces : List Piece} {i : ℕ}

lemma pieceBytes_cons (piece : Piece) (pieces : List Piece) : pieceBytes (piece :: pieces) =
    h26xLongStartCode ++ ((piece.1 ++ piece.2) ++ pieceBytes pieces) := by
  simp [pieceBytes, pieceSegments]

lemma pieceMask_cons (piece : Piece) (pieces : List Piece) : pieceMask (piece :: pieces) =
    List.replicate (4 + piece.1.length) true ++
      (List.replicate piece.2.length false ++ pieceMask pieces) := by
  simp only [pieceMask, segmentMask, pieceSegments, List.flatMap_cons, List.flatMap_nil,
    List.append_nil, List.flatMap_append, ← List.replicate_append_replicate, List.append_assoc]
  rfl

/-- The units go on with a start code, so their first two bytes are not `01`. -/
lemma pieceBytes_front (hk : k < 2) : (pieceBytes pieces)[k]? ≠ some 1 := by
  rcases pieces with _ | ⟨piece, pieces⟩
  · simp [pieceBytes]
  · rw [pieceBytes_cons]
    rcases (show k = 0 ∨ k = 1 by omega) with rfl | rfl <;> simp [h26xLongStartCode]

/-- The bytes of a unit, behind its start code. -/
lemma getElem?_pieceBytes_unit (hk : k < piece.1.length + piece.2.length) :
    (pieceBytes (piece :: pieces))[4 + k]? = (piece.1 ++ piece.2)[k]? := by
  have hlen : h26xLongStartCode.length = 4 := rfl
  rw [pieceBytes_cons, List.getElem?_append_right (by omega), hlen, Nat.add_sub_cancel_left,
    List.getElem?_append_left (by rwa [List.length_append])]

/-- The bytes behind a unit. -/
lemma getElem?_pieceBytes_behind (k : ℕ) :
    (pieceBytes (piece :: pieces))[4 + (piece.1.length + piece.2.length) + k]? =
      (pieceBytes pieces)[k]? := by
  have hlen : h26xLongStartCode.length = 4 := rfl
  rw [pieceBytes_cons, List.getElem?_append_right (by omega), hlen,
    List.getElem?_append_right (by rw [List.length_append]; omega), List.length_append]
  congr 1
  omega

/-- Behind its clear bytes a unit is hidden. -/
lemma getElem?_pieceMask_hidden (hlo : 4 + piece.1.length ≤ k)
    (hhi : k < 4 + (piece.1.length + piece.2.length)) :
    (pieceMask (piece :: pieces))[k]? = some false := by
  have hk : k - (4 + piece.1.length) < piece.2.length := by omega
  rw [pieceMask_cons, List.getElem?_append_right (by rwa [List.length_replicate]),
    List.length_replicate, List.getElem?_append_left (by rwa [List.length_replicate]),
    List.getElem?_replicate, if_pos hk]

lemma getElem?_pieceMask_behind (k : ℕ) :
    (pieceMask (piece :: pieces))[4 + (piece.1.length + piece.2.length) + k]? =
      (pieceMask pieces)[k]? := by
  rw [pieceMask_cons, List.getElem?_append_right (by rw [List.length_replicate]; omega),
    List.length_replicate, List.getElem?_append_right (by rw [List.length_replicate]; omega),
    List.length_replicate]
  congr 1
  omega

/-- A start code that begins in the start code of a unit is that one. -/
lemma ClearCode.eq_one
    (h : ClearCode (pieceMask (piece :: pieces)) (pieceBytes (piece :: pieces)) i) (hi : i < 4) :
    i = 1 := by
  obtain ⟨-, h0, h1, h2⟩ := h
  have hcode {k : ℕ} (hk : k < 4) :
      (pieceBytes (piece :: pieces))[k]? = h26xLongStartCode[k]? := by
    rw [pieceBytes_cons]
    exact List.getElem?_append_left hk
  rcases (show i = 0 ∨ i = 1 ∨ i = 2 ∨ i = 3 by omega) with rfl | rfl | rfl | rfl
  · rw [hcode (by omega)] at h2
    exact absurd h2 (by decide)
  · rfl
  · rw [hcode (by omega)] at h1
    exact absurd h1 (by decide)
  · rw [hcode (by omega)] at h0
    exact absurd h0 (by decide)

/-- A start code of clear bytes that begins in a unit lies inside its clear bytes. -/
lemma ClearCode.lt_clear {j : ℕ}
    (h : ClearCode (pieceMask (piece :: pieces)) (pieceBytes (piece :: pieces)) (4 + j))
    (hj : j < piece.1.length + piece.2.length) : j + 2 < piece.1.length := by
  obtain ⟨hm, -, -, h2⟩ := h
  have hclear {k : ℕ} (hk : k < 3) :
      ¬ (4 + piece.1.length ≤ 4 + j + k ∧ 4 + j + k < 4 + (piece.1.length + piece.2.length)) := by
    rintro ⟨hlo, hhi⟩
    have hfalse : (pieceMask (piece :: pieces))[4 + j + k]? = some false :=
      getElem?_pieceMask_hidden hlo hhi
    rw [hm k hk] at hfalse
    exact absurd hfalse (by decide)
  have hclear0 := hclear (k := 0) (by omega)
  have hclear1 := hclear (k := 1) (by omega)
  have hclear2 := hclear (k := 2) (by omega)
  -- otherwise it runs into the start code of the next unit
  by_contra hout
  obtain ⟨k, hk, heq⟩ : ∃ k < 2, 4 + j + 2 = 4 + (piece.1.length + piece.2.length) + k :=
    ⟨j + 2 - (piece.1.length + piece.2.length), by omega, by omega⟩
  rw [heq, getElem?_pieceBytes_behind] at h2
  exact pieceBytes_front hk h2

/-- A start code of clear bytes in a unit and what follows is the one in front of the unit, or
inside the clear bytes of the unit, or behind the unit. -/
lemma ClearCode.cases {i : ℕ} (h : ClearCode (pieceMask (piece :: pieces))
    (pieceBytes (piece :: pieces)) i) :
    i = 1 ∨
    (∃ j, i = 4 + j ∧ j + 3 ≤ piece.1.length ∧ (piece.1 ++ piece.2)[j]? = some 0 ∧
      (piece.1 ++ piece.2)[j + 1]? = some 0 ∧ (piece.1 ++ piece.2)[j + 2]? = some 1) ∨
    (∃ j, i = 4 + (piece.1.length + piece.2.length) + j ∧
      ClearCode (pieceMask pieces) (pieceBytes pieces) j) := by
  rcases lt_or_ge i 4 with hi | hi
  · exact .inl (h.eq_one hi)
  obtain ⟨j, rfl⟩ := Nat.exists_eq_add_of_le hi
  rcases lt_or_ge j (piece.1.length + piece.2.length) with hj | hj
  · have hlt := h.lt_clear hj
    obtain ⟨-, h0, h1, h2⟩ := h
    rw [Nat.add_assoc, getElem?_pieceBytes_unit (by omega)] at h1 h2
    rw [getElem?_pieceBytes_unit hj] at h0
    exact .inr (.inl ⟨j, rfl, hlt, h0, h1, h2⟩)
  · obtain ⟨k, rfl⟩ := Nat.exists_eq_add_of_le hj
    rw [← Nat.add_assoc] at h ⊢
    obtain ⟨hm, h0, h1, h2⟩ := h
    refine .inr (.inr ⟨k, rfl, fun l hl => ?_, ?_, ?_, ?_⟩)
    · have hl := hm l hl
      rwa [Nat.add_assoc, getElem?_pieceMask_behind] at hl
    · rwa [getElem?_pieceBytes_behind] at h0
    · rwa [Nat.add_assoc, getElem?_pieceBytes_behind] at h1
    · rwa [Nat.add_assoc, getElem?_pieceBytes_behind] at h2

/-- A start code inside a unit is one of the frame, unless the frame ends with it. -/
lemma startAt_of_unit {start stop j : ℕ} (heq : piece.1 ++ piece.2 = slice frame start stop)
    (h0 : (piece.1 ++ piece.2)[j]? = some 0) (h1 : (piece.1 ++ piece.2)[j + 1]? = some 0)
    (h2 : (piece.1 ++ piece.2)[j + 2]? = some 1) (hlt : start + j + 3 < frame.length) :
    StartAt frame (start + j) ∧ start + j + 3 ≤ stop := by
  have hget {k : ℕ} {b : UInt8} (h : (piece.1 ++ piece.2)[k]? = some b) :
      start + k < stop ∧ frame[start + k]? = some b := by
    rw [heq, getElem?_slice] at h
    split at h
    · exact ⟨by omega, h⟩
    · cases h
  refine ⟨⟨hlt, (hget h0).2, (hget h1).2, (hget h2).2⟩, ?_⟩
  have := (hget h2).1
  omega

/-- **No other start codes.** The units of a frame that does not end in the clear have no start
codes of clear bytes but their own. -/
theorem Pieces.clearCode {start : ℕ} (h : Pieces frame start pieces)
    (hend : (pieceMask pieces).getLast? ≠ some true) (pos : ℕ)
    (hcode : ClearCode (pieceMask pieces) (pieceBytes pieces) i) :
    ∃ off ∈ pieceOffsets pos pieces, pos + i = off + 1 := by
  induction h generalizing pos i with
  | done =>
    have := hcode.zero
    simp [pieceBytes] at this
  | @last start piece hnext heq =>
    rcases hcode.cases with rfl | ⟨j, rfl, hj, h0, h1, h2⟩ | ⟨j, -, hrest⟩
    · exact ⟨pos, by simp [pieceOffsets], rfl⟩
    · exfalso
      rcases lt_or_ge (start + j + 3) frame.length with hlt | hge
      · exact findNextNalu_eq_none.mp hnext _ (by omega) (startAt_of_unit heq h0 h1 h2 hlt).1
      · -- the unit ends with its clear bytes
        have hlen := congrArg List.length heq
        rw [List.length_append, length_slice] at hlen
        have hnil : piece.2 = [] := by
          rw [← List.length_eq_zero_iff]
          omega
        apply hend
        rw [pieceMask_cons, hnil, show 4 + piece.1.length = 3 + piece.1.length + 1 by omega]
        simp [pieceMask, segmentMask, List.getLast?_replicate]
    · have := hrest.zero
      simp [pieceBytes] at this
  | @more start piece next pieces hnext heq hrest ih =>
    rcases hcode.cases with rfl | ⟨j, rfl, hj, h0, h1, h2⟩ | ⟨j, rfl, hj⟩
    · exact ⟨pos, by simp [pieceOffsets], rfl⟩
    · exfalso
      obtain ⟨i, ⟨hsi, hst, hfirst⟩, rfl⟩ := exists_of_findNextNalu hnext
      have hlen := congrArg List.length heq
      rw [List.length_append, length_slice] at hlen
      have hcode : 3 ≤ (naluAt frame i).startCodeLen ∧ (naluAt frame i).start = i + 3 := by
        simp only [naluAt]
        split <;> simp
      have hlt := hst.1
      obtain ⟨hst', hle⟩ := startAt_of_unit heq h0 h1 h2 (by omega)
      exact hfirst _ (by omega) (by omega) hst'
    · have hend' : (pieceMask pieces).getLast? ≠ some true := by
        intro hlast
        apply hend
        rw [pieceMask_cons, List.getLast?_append, List.getLast?_append, hlast]
        rfl
      obtain ⟨off, hoff, heq⟩ :=
        ih hend' (pos + (4 + (piece.1.length + piece.2.length))) hj
      exact ⟨off, List.mem_cons_of_mem _ hoff, by omega⟩

/-- The long start codes are where they were put, in the clear. -/
lemma of_mem_pieceOffsets {pos off : ℕ} (h : off ∈ pieceOffsets pos pieces) :
    pos ≤ off ∧ ∀ k < 4, (pieceMask pieces)[off - pos + k]? = some true ∧
      (pieceBytes pieces)[off - pos + k]? = h26xLongStartCode[k]? := by
  induction pieces generalizing pos with
  | nil => simp [pieceOffsets] at h
  | cons piece pieces ih =>
    rw [pieceMask_cons, pieceBytes_cons]
    rcases List.mem_cons.mp h with rfl | h
    · refine ⟨le_rfl, fun k hk => ⟨?_, ?_⟩⟩
      · rw [List.getElem?_append_left (by simp; omega), List.getElem?_replicate,
          if_pos (by omega)]
      · rw [List.getElem?_append_left (by simp [h26xLongStartCode]; omega), Nat.sub_self,
          Nat.zero_add]
    · obtain ⟨hle, hrest⟩ := ih h
      refine ⟨by omega, fun k hk => ?_⟩
      obtain ⟨hm, hb⟩ := hrest k hk
      have hS : h26xLongStartCode.length = 4 := rfl
      constructor
      · rw [List.getElem?_append_right (by simp; omega), List.length_replicate,
          List.getElem?_append_right (by simp; omega), List.length_replicate, ← hm]
        congr 1
        omega
      · rw [List.getElem?_append_right (by omega), hS,
          List.getElem?_append_right (by simp; omega), List.length_append, ← hb]
        congr 1
        omega

lemma pieceOffsets_sorted (pos : ℕ) (pieces : List Piece) :
    (pieceOffsets pos pieces).Pairwise (· < ·) := by
  induction pieces generalizing pos with
  | nil => exact .nil
  | cons piece pieces ih =>
    refine .cons (fun off hoff => ?_) (ih _)
    have := (of_mem_pieceOffsets hoff).1
    omega

/-! ### Processed frames -/

lemma process_h26x (D : H26x) (frame : Bytes) : process D.codec frame =
    (processH26xFrame D.frameCodec frame {}).getD (addEncryptedBytes {} frame) := by
  cases D <;> rfl

lemma validate_h26x (D : H26x) (p : OutboundFrameProcessor) (o : Bytes) :
    D.codec.validateProcessedFrame p o = validateH26xEncryptedFrame p o := by
  cases D <;> rfl

/-- A processed frame with its long start codes. -/
structure Layout (p : OutboundFrameProcessor) (m : List Bool) (x : Bytes) (codes : List ℕ) : Prop
    extends Carries p m x where
  opens : Opens p x
  sorted : codes.Pairwise (· < ·)
  codes_clear : ∀ off ∈ codes, ∀ k < 4, m[off + k]? = some true ∧
    x[off + k]? = h26xLongStartCode[k]?
  clear_codes : m.getLast? ≠ some true → ∀ i, ClearCode m x i → ∃ off ∈ codes, i = off + 1

/-- **What is clear in a processed frame.** -/
theorem process_layout (D : H26x) (frame : Bytes) : ∃ m x,
    Layout (process D.codec frame) m x (longStartCodes D.frameCodec frame) := by
  rw [process_h26x, longStartCodes]
  rcases hp : processH26xFrame D.frameCodec frame {} with _ | p
  · have hc := carries_empty.addEncryptedBytes frame
    refine ⟨_, _, hc, ?_, .nil, by simp, fun _ i hi => ?_⟩
    · have hr : (addEncryptedBytes {} frame).unencryptedRanges = [] := by
        unfold addEncryptedBytes
        split <;> rfl
      simp [Opens, hr]
    · have := hi.clear 0 (by decide)
      rw [List.nil_append, List.getElem?_replicate] at this
      split at this <;> simp at this
  · obtain ⟨nalu, hn, hnalus⟩ := processH26xFrame_eq_some hp
    rw [hn]
    obtain ⟨pieces, hpieces, rfl, hcodes⟩ := processNalus_eq hnalus
    have hc := carries_empty.addSegments (pieces.flatMap pieceSegments)
    have hopens := Opens.addPieces (p := {}) (x := []) (by simp [Opens]) carries_empty pieces
    rw [List.nil_append] at hopens
    rw [List.nil_append, List.nil_append] at hc
    simp only [Option.getD_some, Option.isNone_some, Bool.false_eq_true, if_false,
      Option.elim_some, hcodes]
    refine ⟨_, _, hc, hopens, pieceOffsets_sorted _ _, fun off hoff k hk => ?_, fun hend i hi => ?_⟩
    · exact (of_mem_pieceOffsets hoff).2 k hk
    · simpa using Pieces.clearCode hpieces hend 0 hi

/-! ### Validated frames -/

/-- The last byte of the frame is a hidden one. -/
def EndsHidden (p : OutboundFrameProcessor) : Prop :=
  lastStop 0 p.unencryptedRanges < p.frameIndex

instance (p : OutboundFrameProcessor) : Decidable (EndsHidden p) :=
  inferInstanceAs (Decidable (_ < _))

lemma getElem?_of_carries (hc : Carries p m x) (i : ℕ) : m[i]? =
    if i < p.frameIndex then some (decide (Covered p.unencryptedRanges i)) else none := by
  rw [← hc.mask_eq, getElem?_mask hc.fits]
  simp only [Nat.zero_add]

lemma EndsHidden.getLast? (h : EndsHidden p) (hc : Carries p m x) : m.getLast? ≠ some true := by
  have hlen := hc.length_mask
  have hlt : lastStop 0 p.unencryptedRanges < p.frameIndex := h
  have hno : ¬ Covered p.unencryptedRanges (p.frameIndex - 1) := fun hcov => by
    have := (hc.fits.lt_lastStop hcov).2
    omega
  rw [List.getLast?_eq_getElem?, getElem?_of_carries hc, hlen]
  simp [hno]

variable {codes : List ℕ} {ciphertext rest : Bytes}

/-- An encrypted frame has the clear bytes of the processed one. -/
lemma getElem?_clear (hc : Carries p m x) (hl : ciphertext.length = p.encryptedBytes.length)
    (hi : m[i]? = some true) : (merge m p.unencryptedBytes ciphertext ++ rest)[i]? = x[i]? := by
  have hlen : (merge m p.unencryptedBytes ciphertext).length = m.length :=
    length_merge (hc.is_match.congr hl)
  rw [List.getElem?_append_left (hlen ▸ (List.getElem?_eq_some_iff.mp hi).1),
    getElem?_merge_congr hc.is_match hl hi, hc.merge_eq]

/-- **A validated frame.** The start codes of an encrypted frame that ends in hidden bytes and
passed the validator are all in the clear. -/
theorem clearCode_of_validate (hL : Layout p m x codes)
    (hl : ciphertext.length = p.encryptedBytes.length)
    (ho : o = merge m p.unencryptedBytes ciphertext ++ rest) (hend : EndsHidden p)
    (hv : validateH26xEncryptedFrame p o = true) (hst : StartAt o i) : ClearCode m x i := by
  have hc := hL.toCarries
  unfold validateH26xEncryptedFrame at hv
  split at hv
  · cases hv
  next e hsections =>
    obtain ⟨rfl, hfree⟩ := of_validateSections hc.fits hsections
    have hlt : lastStop 0 p.unencryptedRanges < p.frameIndex := hend
    rw [if_neg (by omega), Option.isNone_iff_eq_none, findNextNalu_eq_none] at hv
    -- nothing behind the last clear byte
    have hbefore : i + 2 < lastStop 0 p.unencryptedRanges := by
      by_contra hge
      refine hv (i - (lastStop 0 p.unencryptedRanges - 2)) (Nat.zero_le _) (startAt_drop.mpr ?_)
      rwa [Nat.add_sub_cancel' (by omega)]
    have hclear (h : ℕ) (hi : i ≤ h) (hi' : h ≤ i + 2) : m[h]? = some true := by
      rw [getElem?_of_carries hc, if_pos (by omega), Option.some.injEq, decide_eq_true_eq]
      by_contra hno
      obtain ⟨rfl, r, hr, hoff⟩ := hfree i h hst hi hi' (Nat.zero_le _) (by omega) hno
      -- the two clear bytes would be zero
      obtain ⟨hlen, hzero⟩ := hL.opens r hr
      have hcov : m[r.offset + 1]? = some true := by
        have hcov : Covered p.unencryptedRanges (r.offset + 1) :=
          ⟨r, hr, by omega, by simp only [Range.stop]; omega⟩
        have hlt := (hc.fits.lt_lastStop hcov).2
        rw [getElem?_of_carries hc, if_pos (by omega), decide_eq_true hcov]
      have hone := hst.2.2.2
      rw [show i + 2 = r.offset + 1 by omega, ho, getElem?_clear hc hl hcov, hzero] at hone
      simp at hone
    have hget (h : ℕ) (hi : i ≤ h) (hi' : h ≤ i + 2) : o[h]? = x[h]? := by
      rw [ho, getElem?_clear hc hl (hclear h hi hi')]
    refine ⟨fun k hk => hclear _ (by omega) (by omega), ?_, ?_, ?_⟩
    · rw [← hget i (by omega) (by omega), hst.2.1]
    · rw [← hget (i + 1) (by omega) (by omega), hst.2.2.1]
    · rw [← hget (i + 2) (by omega) (by omega), hst.2.2.2]

/-- The long start codes as a scan finds them. -/
def asNalus (codes : List ℕ) : List H26xNalu := codes.map fun off => ⟨off + 4, 4⟩

lemma naluAt_code (hL : Layout p m x codes) (hl : ciphertext.length = p.encryptedBytes.length)
    (ho : o = merge m p.unencryptedBytes ciphertext ++ rest) (hrest : rest ≠ []) {off : ℕ}
    (hoff : off ∈ codes) : StartAt o (off + 1) ∧ naluAt o (off + 1) = ⟨off + 4, 4⟩ := by
  have hc := hL.toCarries
  have hget (k : ℕ) (hk : k < 4) : o[off + k]? = h26xLongStartCode[k]? := by
    obtain ⟨hm, hx⟩ := hL.codes_clear off hoff k hk
    rw [ho, getElem?_clear hc hl hm, hx]
  have hlen : off + 4 < o.length := by
    have h3 := (List.getElem?_eq_some_iff.mp (hL.codes_clear off hoff 3 (by decide)).1).1
    have hmerge := length_merge (hc.is_match.congr hl)
    have hpos : 0 < rest.length := List.length_pos_iff.mpr hrest
    rw [ho, List.length_append, hmerge]
    omega
  have h0 := hget 0 (by decide)
  rw [Nat.add_zero] at h0
  refine ⟨⟨by omega, hget 1 (by decide), hget 2 (by decide), hget 3 (by decide)⟩, ?_⟩
  rw [naluAt, if_pos ⟨by omega, by simpa [h26xLongStartCode] using h0⟩]

theorem scan_of_validate (hL : Layout p m x codes)
    (hl : ciphertext.length = p.encryptedBytes.length)
    (ho : o = merge m p.unencryptedBytes ciphertext ++ rest) (hrest : rest ≠ [])
    (hend : EndsHidden p) (hv : validateH26xEncryptedFrame p o = true) :
    scan o = asNalus codes := by
  refine scan_eq (List.pairwise_map.mpr (hL.sorted.imp fun h => by dsimp only; omega)) fun n => ?_
  rw [asNalus, List.mem_map]
  constructor
  · rintro ⟨off, hoff, rfl⟩
    obtain ⟨hst, hn⟩ := naluAt_code hL hl ho hrest hoff
    exact ⟨off + 1, hst, hn.symm⟩
  · rintro ⟨i, hst, rfl⟩
    obtain ⟨off, hoff, rfl⟩ := hL.clear_codes (hend.getLast? hL.toCarries) i
      (clearCode_of_validate hL hl ho hend hv hst)
    exact ⟨off, hoff, (naluAt_code hL hl ho hrest hoff).2.symm⟩

/-! ### The sender -/

/-- What `encrypt_into` returns was encrypted with some nonce and passed the validator. -/
lemma encryptInto_ok {A : Aead} {K : Kdf} {C : Codec} {payload : Bytes} {e : Encryptor}
    {calls : List Encryptor.Call} (h : (e.encryptInto A K C payload calls).1 = some (.ok o)) :
    ∃ cipher nonce, FrameCipher.encryptProcessed A cipher nonce (process C payload) = .ok o ∧
      C.validateProcessedFrame (process C payload) o = true := by
  unfold Encryptor.encryptInto at h
  generalize maxCiphertextValidationRetries = retries at h
  induction retries generalizing e calls with
  | zero => simp [Encryptor.attempts] at h
  | succ retries ih =>
    rw [Encryptor.attempts] at h
    rcases hatt : e.attempt A K (process C payload) with ⟨_ | _ | output, e', call⟩
    · simp [hatt] at h
    · simp [hatt] at h
    rw [hatt] at h
    dsimp only at h
    split at h
    next hv =>
      cases h
      obtain ⟨nonce, cipher, -, -, henc⟩ := attempt_ok hatt
      exact ⟨cipher, nonce, henc, hv⟩
    next => exact ih h

/-- The trailer has room for the ranges, behind a nonce of one byte. -/
def FitsTrailer (p : OutboundFrameProcessor) : Prop :=
  tagBytes + 1 + unencryptedRangesSize p.unencryptedRanges + 1 + marker.length ≤ 255

instance (p : OutboundFrameProcessor) : Decidable (FitsTrailer p) :=
  inferInstanceAs (Decidable (_ ≤ _))

lemma fitsTrailer_of_supplementalSize {nonce : UInt32}
    (h : supplementalSize nonce p.unencryptedRanges ≤ 255) : FitsTrailer p := by
  have hpos : 0 < (Leb128.encode nonce.toNat).length :=
    List.length_pos_iff.mpr (Leb128.encode_ne_nil _)
  simp only [supplementalSize, tailBytes, List.length_append] at h
  rw [FitsTrailer, unencryptedRangesSize_eq, marker, List.length_cons, List.length_singleton]
  omega

lemma supplementalSize_one (h : FitsTrailer p) : supplementalSize 1 p.unencryptedRanges ≤ 255 := by
  have hone : (Leb128.encode (1 : UInt32).toNat).length = 1 := by decide +kernel
  rw [FitsTrailer, unencryptedRangesSize_eq, marker, List.length_cons, List.length_singleton] at h
  rw [supplementalSize, tailBytes, List.length_append, hone]
  omega

/-- An encrypted frame shows the long start codes of the processed one, and no others. -/
def KeepsStartCodes (D : H26x) (payload : Bytes) : Prop :=
  ∀ (A : Aead) (K : Kdf) (e : Encryptor) (calls : List Encryptor.Call) (o : Bytes),
    (e.encryptInto A K D.codec payload calls).1 = some (.ok o) →
      scan o = asNalus (longStartCodes D.frameCodec payload)

def startCodeTag : Bytes := [0, 0, 1, 0xFF, 0xFF, 0xFF, 0xFF, 0xFF]

/-- A cipher that exchanges one buffer for bytes `FF`, with a start code for a tag. -/
def startCodeAead (buffer : Bytes) : Aead where
  encrypt _ _ _ b := some (Equiv.swap buffer (List.replicate buffer.length 0xFF) b, startCodeTag)
  decrypt _ _ _ b _ := some (Equiv.swap buffer (List.replicate buffer.length 0xFF) b)
  length_encrypt := by
    intro k n a b c t h
    simp only [Option.some.injEq, Prod.mk.injEq] at h
    obtain ⟨rfl, rfl⟩ := h
    refine ⟨?_, rfl⟩
    rw [Equiv.swap_apply_def]
    split
    next hb => rw [hb, List.length_replicate]
    next =>
      split
      next hb => rw [hb, List.length_replicate]
      next => rfl
  decrypt_encrypt := by
    intro k n a b c t h
    simp only [Option.some.injEq, Prod.mk.injEq] at h
    obtain ⟨rfl, -⟩ := h
    rw [Equiv.swap_apply_self]

/-- The validator passes a frame that ends in the clear, whatever follows it. -/
lemma validate_of_hidden (hc : Carries p m x) (hend : ¬ EndsHidden p)
    (ho : o = merge m p.unencryptedBytes (List.replicate p.encryptedBytes.length 0xFF) ++ rest) :
    validateH26xEncryptedFrame p o = true := by
  have hstop : lastStop 0 p.unencryptedRanges = p.frameIndex := by
    have := hc.fits.lastStop_le.2
    rw [EndsHidden] at hend
    omega
  have hsections : validateSections o 0 p.unencryptedRanges = some p.frameIndex := by
    rw [← hstop]
    refine validateSections_of_hidden hc.fits fun h _ hlt hno => ?_
    have hm : m[h]? = some false := by
      rw [getElem?_of_carries hc, if_pos (by omega), decide_eq_false hno]
    have hmatch : Matches m p.unencryptedBytes (List.replicate p.encryptedBytes.length 0xFF) :=
      hc.is_match.congr List.length_replicate
    obtain ⟨hlt, -⟩ := List.getElem?_eq_some_iff.mp hm
    rw [ho, List.getElem?_append_left (by rwa [length_merge hmatch])]
    exact getElem?_merge_hidden hmatch (fun b hb => List.eq_of_mem_replicate hb) hm
  rw [validateH26xEncryptedFrame, hsections]
  exact if_pos rfl

/-- A tag that is a start code is found, behind all of the long ones. -/
lemma scan_ne_of_startCodeTag (hL : Layout p m x codes)
    (hl : ciphertext.length = p.encryptedBytes.length) :
    scan (merge m p.unencryptedBytes ciphertext ++ (startCodeTag ++ rest)) ≠ asNalus codes := by
  set o := merge m p.unencryptedBytes ciphertext ++ (startCodeTag ++ rest) with ho
  have hlen : (merge m p.unencryptedBytes ciphertext).length = m.length :=
    length_merge (hL.is_match.congr hl)
  have htag (k : ℕ) (hk : k < 3) : o[m.length + k]? = startCodeTag[k]? := by
    rw [ho, List.getElem?_append_right (by omega), hlen, Nat.add_sub_cancel_left,
      List.getElem?_append_left (by rw [startCodeTag]; simp; omega)]
  have hst : StartAt o m.length := by
    refine ⟨?_, htag 0 (by decide), htag 1 (by decide), htag 2 (by decide)⟩
    rw [ho, List.length_append, List.length_append, hlen, startCodeTag]
    simp only [List.length_cons]
    omega
  intro hscan
  have hmem : naluAt o m.length ∈ asNalus codes := by
    rw [← hscan]
    exact mem_scanFrom.mpr ⟨m.length, Nat.zero_le _, hst, rfl⟩
  obtain ⟨off, hoff, heq⟩ := List.mem_map.mp hmem
  have hlt := (List.getElem?_eq_some_iff.mp (hL.codes_clear off hoff 3 (by decide)).1).1
  have hstart := congrArg H26xNalu.start heq
  simp only [naluAt] at hstart
  omega

/-- A sender whose first frame is encrypted by a given cipher. -/
lemma exists_encryptInto (A : Aead) (C : Codec) (payload : Bytes)
    (h : ∀ cipher, ∃ o, FrameCipher.encryptProcessed A cipher 1 (process C payload) = .ok o ∧
      C.validateProcessedFrame (process C payload) o = true) :
    ∃ (e : Encryptor) (cipher : FrameCipher) (o : Bytes),
      (e.encryptInto A toyKdf C payload []).1 = some (.ok o) ∧
      cipher.encryptProcessed A 1 (process C payload) = .ok o := by
  obtain ⟨e, he, hact⟩ := (active_fresh (K := toyKdf) []).advanceCipher (by decide)
  have hkey := hact.cipher
  rw [if_neg (by decide)] at hkey
  obtain ⟨cipher, hcipher, -⟩ := Option.map_eq_some_iff.mp hkey
  obtain ⟨o, henc, hv⟩ := h cipher
  have hnonce : e.truncatedNonce = 1 := hact.nonce
  refine ⟨{ activeRatchet := some (.new []) }, cipher, o, ?_, henc⟩
  rw [Encryptor.encryptInto, show maxCiphertextValidationRetries = 9 + 1 from rfl,
    Encryptor.attempts, attempt_eq he hcipher]
  simp only [hnonce, henc, hv, if_true]

/-- **Start codes.** Encrypted frames show the long start codes of the processed one and no
others, exactly when the processed frame ends in hidden bytes, or has too many clear ranges to
be sent at all. -/
theorem keepsStartCodes_iff (D : H26x) (payload : Bytes) : KeepsStartCodes D payload ↔
    EndsHidden (process D.codec payload) ∨ ¬ FitsTrailer (process D.codec payload) := by
  obtain ⟨m, x, hL⟩ := process_layout D payload
  have hc := hL.toCarries
  set p := process D.codec payload with hp
  constructor
  · intro hkeeps
    by_contra hno
    obtain ⟨hend, hfits⟩ := not_or.mp hno
    have hencrypt (k n a : Bytes) :
        (startCodeAead p.encryptedBytes).encrypt k n a p.encryptedBytes =
          some (List.replicate p.encryptedBytes.length 0xFF, startCodeTag) := by
      simp [startCodeAead]
    have henc (cipher : FrameCipher) :
        cipher.encryptProcessed (startCodeAead p.encryptedBytes) 1 p =
          .ok (merge m p.unencryptedBytes (List.replicate p.encryptedBytes.length 0xFF) ++
            (startCodeTag ++ (tailBytes 1 p.unencryptedRanges ++
              ([UInt8.ofNat (supplementalSize 1 p.unencryptedRanges)] ++ marker)))) := by
      rw [encryptProcessed_of_encrypt hc (hencrypt _ _ _),
        if_neg (not_lt.mpr (supplementalSize_one (not_not.mp hfits)))]
      simp only [List.append_assoc]
    obtain ⟨e, cipher, o, hsent, ho⟩ := exists_encryptInto (startCodeAead p.encryptedBytes)
      D.codec payload fun cipher => ⟨_, henc cipher, by
        rw [validate_h26x]
        exact validate_of_hidden hc hend rfl⟩
    have hscan := hkeeps _ _ _ _ _ hsent
    rw [← hp, henc cipher] at ho
    cases ho
    exact scan_ne_of_startCodeTag hL List.length_replicate hscan
  · rintro hcond A K e calls o h
    obtain ⟨cipher, nonce, henc, hv⟩ := encryptInto_ok h
    rw [← hp] at henc hv
    rw [validate_h26x] at hv
    obtain ⟨ciphertext, tag, hencrypt, hsize, ho⟩ := encryptProcessed_eq hc henc
    rcases hcond with hend | hbig
    · rw [List.append_assoc, List.append_assoc, List.append_assoc] at ho
      exact scan_of_validate hL (A.length_encrypt hencrypt).1 ho (by simp [marker]) hend hv
    · exact absurd (fitsTrailer_of_supplementalSize hsize) hbig

/-- A hash that makes a tag of the start code. -/
def startCodePrimitives : Primitives where
  encryptBlock _ _ := ⟨List.replicate 16 0, rfl⟩
  ghash _ _ := ⟨startCodeTag ++ List.replicate 8 0, rfl⟩

/-- A frame of one clear unit, type 6: the tag behind it shows a second start code. -/
theorem startCode_in_tag : ∃ o, ((({ activeRatchet := some (.new []) } : Encryptor).encryptInto
      (aes128Gcm8 startCodePrimitives) toyKdf H26x.h264.codec [0, 0, 0, 1, 6, 5] []).1 =
        some (.ok o)) ∧
    asNalus (longStartCodes H26x.h264.frameCodec [0, 0, 0, 1, 6, 5]) = [⟨4, 4⟩] ∧
    scan o = [⟨4, 4⟩, ⟨9, 3⟩] :=
  ⟨[0, 0, 0, 1, 6, 5, 0, 0, 1, 0xFF, 0xFF, 0xFF, 0xFF, 0xFF, 1, 0, 6, 14, 0xFA, 0xFA],
    by decide +kernel, by decide +kernel, by decide +kernel⟩

end Cacophony.StartCodes
