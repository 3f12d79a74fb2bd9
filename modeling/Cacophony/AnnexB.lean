import Mathlib.Data.List.Sort
import Cacophony.Basic

/-!
Annex B byte streams, `codec.rs`: NAL units behind start codes `00 00 01`.

The search of the source jumps three bytes where no start code can begin. What it finds is the
first start code from a position on; a start code whose third byte is the last byte of the
frame is not one.
-/

namespace Cacophony.AnnexB

def h26xLongStartCode : Bytes := [0, 0, 0, 1]
def h26xShortStartSequenceBytes : ℕ := 3

structure H26xNalu where
  start : ℕ
  startCodeLen : ℕ
  deriving DecidableEq

/-- The loop of `find_next_nalu`. -/
def findFrom (frame : Bytes) (index : ℕ) : Option H26xNalu :=
  if h : index + 3 < frame.length then
    if 1 < frame[index + 2] then findFrom frame (index + 3)
    else if frame[index + 2] = 1 then
      if frame[index] = 0 ∧ frame[index + 1] = 0 then
        some ⟨index + 3, if 1 ≤ index ∧ frame[index - 1] = 0 then 4 else 3⟩
      else findFrom frame (index + 3)
    else findFrom frame (index + 1)
  else none
termination_by frame.length - index

-- a frame shorter than a start code has none; the test of the source keeps its subtraction
-- from wrapping, and the loop says the same
def findNextNalu (frame : Bytes) (searchStart : ℕ) : Option H26xNalu :=
  if frame.length < h26xShortStartSequenceBytes then none else findFrom frame searchStart

/-! ### What the search finds -/

/-- A start code at position `i`. -/
def StartAt (frame : Bytes) (i : ℕ) : Prop :=
  i + 3 < frame.length ∧ frame[i]? = some 0 ∧ frame[i + 1]? = some 0 ∧ frame[i + 2]? = some 1

instance (frame : Bytes) (i : ℕ) : Decidable (StartAt frame i) :=
  inferInstanceAs (Decidable (_ ∧ _))

/-- The NAL unit behind the start code at `i`. -/
def naluAt (frame : Bytes) (i : ℕ) : H26xNalu :=
  ⟨i + 3, if 1 ≤ i ∧ frame[i - 1]? = some 0 then 4 else 3⟩

/-- The first start code from `s` on. -/
def FirstFrom (frame : Bytes) (s i : ℕ) : Prop :=
  s ≤ i ∧ StartAt frame i ∧ ∀ j, s ≤ j → j < i → ¬ StartAt frame j

variable {frame nal : Bytes} {s i j : ℕ} {n : H26xNalu} {nals : List Bytes}

lemma StartAt.third (h : StartAt frame i) {k : ℕ} {x : UInt8} (hk : frame[k]? = some x) :
    (k = i + 2 → x = 1) ∧ (k = i + 1 → x = 0) ∧ (k = i → x = 0) := by
  refine ⟨?_, ?_, ?_⟩ <;> rintro rfl
  · exact Option.some.inj (hk.symm.trans h.2.2.2)
  · exact Option.some.inj (hk.symm.trans h.2.2.1)
  · exact Option.some.inj (hk.symm.trans h.2.1)

/-- Two start codes do not overlap. -/
lemma StartAt.disjoint (h : StartAt frame i) (hj : StartAt frame j) (hij : i < j) : i + 3 ≤ j := by
  by_contra hlt
  have h1 := h.third hj.2.1
  have h2 := h.third hj.2.2.1
  rcases (show j = i + 1 ∨ j = i + 2 by omega) with rfl | rfl
  · exact absurd (h2.1 rfl) (by decide)
  · exact absurd (h1.1 rfl) (by decide)

/-- What a search from `s` on returns: the first start code, or nothing when there is none. -/
def Finds (frame : Bytes) (s : ℕ) : Option H26xNalu → Prop
  | some n => ∃ i, FirstFrom frame s i ∧ n = naluAt frame i
  | none => ∀ j, s ≤ j → ¬ StartAt frame j

/-- A search may go on past positions that hold no start code. -/
lemma Finds.of_skip {t : ℕ} {r : Option H26xNalu} (hst : s ≤ t)
    (hskip : ∀ j, s ≤ j → j < t → ¬ StartAt frame j) (h : Finds frame t r) : Finds frame s r := by
  rcases r with _ | n
  · intro j hj
    rcases lt_or_ge j t with hjt | hjt
    · exact hskip j hj hjt
    · exact h j hjt
  · obtain ⟨i, ⟨hti, hi, hfirst⟩, hn⟩ := h
    refine ⟨i, ⟨le_trans hst hti, hi, fun j hs hj => ?_⟩, hn⟩
    rcases lt_or_ge j t with hjt | hjt
    · exact hskip j hs hjt
    · exact hfirst j hjt hj

/-- A nonzero third byte rules out the two positions behind the current one. -/
lemma Finds.of_skip_three {r : Option H26xNalu} (h : s + 3 < frame.length)
    (h2 : frame[s + 2] ≠ 0) (hs : ¬ StartAt frame s) (hr : Finds frame (s + 3) r) :
    Finds frame s r := by
  refine hr.of_skip (by omega) fun j hj hj' hst => ?_
  have hthird := hst.third (List.getElem?_eq_getElem (show s + 2 < frame.length by omega))
  rcases (show j = s ∨ j = s + 1 ∨ j = s + 2 by omega) with rfl | rfl | rfl
  · exact hs hst
  · exact h2 (hthird.2.1 rfl)
  · exact h2 (hthird.2.2 rfl)

/-- A start code at `s`, by the bytes the loop looks at. -/
lemma startAt_iff (h : s + 3 < frame.length) :
    StartAt frame s ↔ frame[s] = 0 ∧ frame[s + 1] = 0 ∧ frame[s + 2] = 1 := by
  simp [StartAt, h, List.getElem?_eq_getElem (show s < frame.length by omega),
    List.getElem?_eq_getElem (show s + 1 < frame.length by omega),
    List.getElem?_eq_getElem (show s + 2 < frame.length by omega)]

theorem finds_findFrom (frame : Bytes) (s : ℕ) : Finds frame s (findFrom frame s) := by
  fun_induction findFrom frame s with
  | case1 s h hbig ih =>
    refine .of_skip_three h (fun h0 => ?_) (fun hst => ?_) ih
    · rw [h0] at hbig
      exact absurd hbig (by decide)
    · rw [((startAt_iff h).mp hst).2.2] at hbig
      exact absurd hbig (by decide)
  | case2 s h _ hone hzero =>
    refine ⟨s, ⟨le_rfl, (startAt_iff h).mpr ⟨hzero.1, hzero.2, hone⟩, by omega⟩, ?_⟩
    simp [naluAt, List.getElem?_eq_getElem (show s - 1 < frame.length by omega)]
  | case3 s h _ hone hzero ih =>
    refine .of_skip_three h (by simp [hone]) (fun hst => hzero ?_) ih
    exact ⟨((startAt_iff h).mp hst).1, ((startAt_iff h).mp hst).2.1⟩
  | case4 s h _ hone ih =>
    refine Finds.of_skip (by omega) (fun j hj hj' hst => ?_) ih
    obtain rfl : j = s := by omega
    exact hone ((startAt_iff h).mp hst).2.2
  | case5 s h => exact fun j hj hst => h (by have := hst.1; omega)

/-- **The search.** -/
theorem finds_findNextNalu (frame : Bytes) (s : ℕ) : Finds frame s (findNextNalu frame s) := by
  unfold findNextNalu
  split
  next hlen =>
    intro j _ hst
    have := hst.1
    simp only [h26xShortStartSequenceBytes] at hlen
    omega
  next => exact finds_findFrom frame s

lemma findNextNalu_eq_none : findNextNalu frame s = none ↔ ∀ j, s ≤ j → ¬ StartAt frame j := by
  have h := finds_findNextNalu frame s
  constructor
  · intro hn
    rwa [hn] at h
  · intro hno
    rcases hf : findNextNalu frame s with _ | n
    · rfl
    · rw [hf] at h
      obtain ⟨i, hi, -⟩ := h
      exact absurd hi.2.1 (hno i hi.1)

lemma exists_of_findNextNalu (h : findNextNalu frame s = some n) :
    ∃ i, FirstFrom frame s i ∧ n = naluAt frame i := by
  have hf := finds_findNextNalu frame s
  rwa [h] at hf

/-- A search moves on, inside the frame. -/
lemma lt_start_of_findNextNalu (h : findNextNalu frame s = some n) :
    s + 3 ≤ n.start ∧ n.start < frame.length := by
  obtain ⟨i, hi, rfl⟩ := exists_of_findNextNalu h
  have := hi.2.1.1
  have := hi.1
  simp only [naluAt]
  omega

/-! ### All start codes -/

/-- The start codes found by searching on behind each one. -/
def scanFrom (frame : Bytes) (s : ℕ) : List H26xNalu :=
  match _h : findNextNalu frame s with
  | none => []
  | some n => n :: scanFrom frame n.start
termination_by frame.length - s
decreasing_by
  have := lt_start_of_findNextNalu _h
  omega

def scan (frame : Bytes) : List H26xNalu := scanFrom frame 0

lemma scanFrom_eq (frame : Bytes) (s : ℕ) : scanFrom frame s =
    match findNextNalu frame s with
    | none => []
    | some n => n :: scanFrom frame n.start := by
  rw [scanFrom]
  split <;> simp_all

/-- A scan finds every start code. -/
theorem mem_scanFrom :
    n ∈ scanFrom frame s ↔ ∃ i, s ≤ i ∧ StartAt frame i ∧ n = naluAt frame i := by
  induction s using scanFrom.induct frame with
  | case1 s hs =>
    rw [scanFrom_eq, hs]
    simp only [List.not_mem_nil, false_iff]
    rintro ⟨i, hi, hst, -⟩
    exact findNextNalu_eq_none.mp hs i hi hst
  | case2 s n' hs ih =>
    obtain ⟨i, ⟨hsi, hi, hfirst⟩, rfl⟩ := exists_of_findNextNalu hs
    rw [scanFrom_eq, hs, List.mem_cons, ih]
    constructor
    · rintro (rfl | ⟨j, hj, hst, rfl⟩)
      · exact ⟨i, hsi, hi, rfl⟩
      · exact ⟨j, by simp only [naluAt] at hj; omega, hst, rfl⟩
    · rintro ⟨j, hj, hst, rfl⟩
      rcases lt_trichotomy j i with hlt | rfl | hgt
      · exact absurd hst (hfirst j hj hlt)
      · exact .inl rfl
      · exact .inr ⟨j, hi.disjoint hst hgt, hst, rfl⟩

lemma scanFrom_pairwise (frame : Bytes) (s : ℕ) :
    (scanFrom frame s).Pairwise fun n n' => n.start < n'.start := by
  induction s using scanFrom.induct frame with
  | case1 s hs => rw [scanFrom_eq, hs]; exact .nil
  | case2 s n hs ih =>
    rw [scanFrom_eq, hs]
    refine .cons (fun n' hn' => ?_) ih
    obtain ⟨i, hi, -, rfl⟩ := mem_scanFrom.mp hn'
    simp only [naluAt]
    omega

/-- The scan of a frame is the ordered list of its start codes. -/
theorem scan_eq {l : List H26xNalu} (hsorted : l.Pairwise fun n n' => n.start < n'.start)
    (hmem : ∀ n, n ∈ l ↔ ∃ i, StartAt frame i ∧ n = naluAt frame i) : scan frame = l := by
  have : Std.Irrefl fun n n' : H26xNalu => n.start < n'.start := ⟨fun _ => lt_irrefl _⟩
  have : Std.Antisymm fun n n' : H26xNalu => n.start < n'.start :=
    ⟨fun _ _ hlt hgt => absurd hgt (not_lt.mpr hlt.le)⟩
  refine (scanFrom_pairwise frame 0).eq_of_mem_iff hsorted fun n => ?_
  rw [hmem, mem_scanFrom]
  simp

/-! ### Parts of a frame -/

lemma startAt_slice {a b : ℕ} :
    StartAt (slice frame a b) j ↔ StartAt frame (a + j) ∧ a + j + 3 < b := by
  simp only [StartAt, length_slice, getElem?_slice]
  constructor
  · rintro ⟨hlen, h0, h1, h2⟩
    rw [if_pos (by omega)] at h0 h1 h2
    exact ⟨⟨by omega, h0, h1, h2⟩, by omega⟩
  · rintro ⟨⟨hlen, h0, h1, h2⟩, hb⟩
    rw [if_pos (by omega), if_pos (by omega), if_pos (by omega)]
    exact ⟨by omega, h0, h1, h2⟩

lemma startAt_drop {a : ℕ} : StartAt (frame.drop a) j ↔ StartAt frame (a + j) := by
  simp only [StartAt, List.length_drop, List.getElem?_drop, Nat.add_assoc]
  rw [Nat.lt_sub_iff_add_lt']

/-! ### NAL units -/

/-- The iterator over the NAL units of a frame. -/
structure AnnexBNalus where
  frame : Bytes
  next : Option H26xNalu

namespace AnnexBNalus

def isEmpty (it : AnnexBNalus) : Bool := it.next.isNone

def remaining (it : AnnexBNalus) : ℕ := it.next.elim 0 fun n => 1 + (it.frame.length - n.start)

lemma remaining_lt {it : AnnexBNalus} (h : it.next = some n) :
    remaining { it with next := findNextNalu it.frame n.start } < it.remaining := by
  rcases hf : findNextNalu it.frame n.start with _ | n'
  · simp only [remaining, h, Option.elim_some, Option.elim_none]
    omega
  · have := lt_start_of_findNextNalu hf
    simp only [remaining, h, Option.elim_some]
    omega

end AnnexBNalus

/-- Where the NAL unit behind a start code ends: at the next start code, or with the frame. -/
def naluEnd (frame : Bytes) (next : Option H26xNalu) : ℕ :=
  next.elim frame.length fun next => next.start - next.startCodeLen

lemma naluEnd_le (frame : Bytes) (s : ℕ) :
    naluEnd frame (findNextNalu frame s) ≤ frame.length := by
  rcases hf : findNextNalu frame s with _ | next
  · exact le_rfl
  · have := lt_start_of_findNextNalu hf
    simp only [naluEnd, Option.elim_some]
    omega

/-- `Iterator::next`: empty units are passed over. -/
def AnnexBNalus.advance (it : AnnexBNalus) : Option (Bytes × AnnexBNalus) :=
  match _h : it.next with
  | none => none
  | some nalu =>
    let next := findNextNalu it.frame nalu.start
    let stop := naluEnd it.frame next
    if nalu.start < stop then some (slice it.frame nalu.start stop, { it with next := next })
    else advance { it with next := next }
termination_by it.remaining
decreasing_by exact remaining_lt _h

lemma AnnexBNalus.remaining_advance {it it' : AnnexBNalus} (h : it.advance = some (nal, it')) :
    it'.remaining < it.remaining ∧ nal ≠ [] := by
  fun_induction AnnexBNalus.advance it with
  | case1 => cases h
  | case2 it nalu hnext next stop hlt =>
    cases h
    exact ⟨remaining_lt hnext, mt (slice_eq_nil_iff (naluEnd_le _ _)).mp (not_le.mpr hlt)⟩
  | case3 it nalu hnext next stop hge ih =>
    obtain ⟨hlt, hne⟩ := ih h
    exact ⟨hlt.trans (remaining_lt hnext), hne⟩

/-- The units that the iterator is still to give. -/
def AnnexBNalus.toList (it : AnnexBNalus) : List Bytes :=
  match _h : it.advance with
  | none => []
  | some (nal, it') => nal :: it'.toList
termination_by it.remaining
decreasing_by exact (remaining_advance _h).1

lemma AnnexBNalus.toList_eq (it : AnnexBNalus) : it.toList =
    match it.advance with
    | none => []
    | some (nal, it') => nal :: it'.toList := by
  rw [AnnexBNalus.toList]
  split <;> simp_all

lemma AnnexBNalus.ne_nil_of_mem_toList {it : AnnexBNalus} (h : nal ∈ it.toList) : nal ≠ [] := by
  fun_induction AnnexBNalus.toList it with
  | case1 => cases h
  | case2 it nal' it' hadvance ih =>
    rcases List.mem_cons.mp h with rfl | h
    · exact (remaining_advance hadvance).2
    · exact ih h

/-- The next unit starts inside the frame. -/
def AnnexBNalus.Valid (it : AnnexBNalus) : Prop := ∀ n, it.next = some n → n.start < it.frame.length

lemma AnnexBNalus.valid_search (frame : Bytes) (s : ℕ) :
    AnnexBNalus.Valid ⟨frame, findNextNalu frame s⟩ :=
  fun _ hn => (lt_start_of_findNextNalu hn).2

lemma AnnexBNalus.Valid.advance {it it' : AnnexBNalus} (h : it.advance = some (nal, it')) :
    it'.Valid := by
  fun_induction AnnexBNalus.advance it with
  | case1 => cases h
  | case2 it nalu hnext next stop hlt =>
    cases h
    exact valid_search _ _
  | case3 it nalu hnext next stop hge ih => exact ih h

/-- An iterator that has a next start code has a next unit: a unit without bytes is never the
last. -/
lemma AnnexBNalus.Valid.isEmpty_iff {it : AnnexBNalus} (hv : it.Valid) :
    it.isEmpty = true ↔ it.toList = [] := by
  rw [toList_eq]
  fun_induction AnnexBNalus.advance it with
  | case1 it hnext => simp [AnnexBNalus.isEmpty, hnext]
  | case2 it nalu hnext next stop hlt => simp [AnnexBNalus.isEmpty, hnext]
  | case3 it nalu hnext next stop hge ih =>
    have hsome : next.isSome := by
      by_contra hnone
      rw [Bool.not_eq_true, Option.isSome_eq_false_iff, Option.isNone_iff_eq_none] at hnone
      have := hv nalu hnext
      simp only [stop, hnone, naluEnd, Option.elim_none] at hge
      omega
    rw [← ih (valid_search it.frame nalu.start)]
    simp [AnnexBNalus.isEmpty, hnext, Option.isSome_iff_ne_none.mp hsome]

def nalus (frame : Bytes) : AnnexBNalus := ⟨frame, findNextNalu frame 0⟩

/-! ### Frames made of units -/

/-- No start code begins in the unit, not even with its last bytes. -/
def NoStartCode (nal : Bytes) : Prop :=
  ∀ j : ℕ, ¬ (nal[j]? = some 0 ∧ nal[j + 1]? = some 0 ∧ nal[j + 2]? = some 1)

lemma findNextNalu_eq_some (h : FirstFrom frame s i) :
    findNextNalu frame s = some (naluAt frame i) := by
  obtain ⟨hsi, hi, hfirst⟩ := h
  have hfinds := finds_findNextNalu frame s
  rcases hn : findNextNalu frame s with _ | n
  · rw [hn] at hfinds
    exact absurd hi (hfinds i hsi)
  · rw [hn] at hfinds
    obtain ⟨j, ⟨hsj, hj, hfirst'⟩, rfl⟩ := hfinds
    rcases lt_trichotomy i j with hlt | rfl | hgt
    · exact absurd hi (hfirst' i hsi hlt)
    · rfl
    · exact absurd hj (hfirst j hsj hgt)

/-- No start code begins in front of the one behind a unit. -/
lemma NoStartCode.append (hnal : NoStartCode nal) (rest : Bytes) (hj : j ≤ nal.length) :
    ¬ ((nal ++ (h26xLongStartCode ++ rest))[j]? = some 0 ∧
      (nal ++ (h26xLongStartCode ++ rest))[j + 1]? = some 0 ∧
      (nal ++ (h26xLongStartCode ++ rest))[j + 2]? = some 1) := by
  rintro ⟨h0, h1, h2⟩
  rcases Nat.lt_or_ge (j + 2) nal.length with hlt | hge
  · -- all three bytes are in the unit
    rw [List.getElem?_append_left (by omega)] at h0 h1 h2
    exact hnal j ⟨h0, h1, h2⟩
  · -- the third byte is one of the zeros of the next start code
    rw [List.getElem?_append_right hge, List.getElem?_append_left (by
      simp only [h26xLongStartCode, List.length_cons, List.length_nil]
      omega)] at h2
    rcases (show j + 2 - nal.length = 0 ∨ j + 2 - nal.length = 1 ∨ j + 2 - nal.length = 2 by omega)
      with hk | hk | hk <;> rw [hk] at h2 <;> exact absurd h2 (by decide)

/-- Behind a unit, the search finds the start code of the next one. -/
lemma findNextNalu_of_unit {rest : Bytes} (hnal : NoStartCode nal) (hrest : rest ≠ [])
    (h : frame.drop s = nal ++ (h26xLongStartCode ++ rest)) :
    findNextNalu frame s = some ⟨s + nal.length + 4, 4⟩ := by
  have hlen := congrArg List.length h
  have hpos := List.length_pos_iff.mpr hrest
  simp only [List.length_drop, List.length_append, h26xLongStartCode, List.length_cons,
    List.length_nil] at hlen
  have hcode (k : ℕ) (hk : k < 4) : frame[s + nal.length + k]? = h26xLongStartCode[k]? := by
    rw [Nat.add_assoc, ← List.getElem?_drop, h, List.getElem?_append_right (by omega),
      Nat.add_sub_cancel_left, List.getElem?_append_left hk]
  have hfirst : FirstFrom frame s (s + nal.length + 1) := by
    refine ⟨by omega, ⟨by omega, hcode 1 (by omega), hcode 2 (by omega), hcode 3 (by omega)⟩, ?_⟩
    intro j hsj hj hst
    obtain ⟨m, rfl⟩ := Nat.exists_eq_add_of_le hsj
    refine hnal.append rest (show m ≤ nal.length by omega) ?_
    rw [← h, List.getElem?_drop, List.getElem?_drop, List.getElem?_drop]
    exact hst.2
  have hzero : frame[s + nal.length]? = some 0 := hcode 0 (by omega)
  rw [findNextNalu_eq_some hfirst, naluAt, Nat.add_sub_cancel, if_pos ⟨by omega, hzero⟩]

/-- The last unit of a frame may end with a start code. -/
lemma findNextNalu_of_last (hnal : ∀ j, ¬ StartAt nal j) (h : frame.drop s = nal) :
    findNextNalu frame s = none := by
  refine findNextNalu_eq_none.mpr fun j hj hst => ?_
  obtain ⟨m, rfl⟩ := Nat.exists_eq_add_of_le hj
  refine hnal m ?_
  rwa [← h, startAt_drop]

/-- The units `nals` with a long start code behind each of them, and then the unit `nal`. -/
def unitsBytes (nals : List Bytes) (nal : Bytes) : Bytes :=
  nals.foldr (fun n rest => n ++ (h26xLongStartCode ++ rest)) nal

lemma unitsBytes_ne_nil (h : nal ≠ []) (nals : List Bytes) : unitsBytes nals nal ≠ [] := by
  cases nals with
  | nil => exact h
  | cons n nals => simp [unitsBytes, h26xLongStartCode]

lemma flatMap_eq_unitsBytes (nals : List Bytes) (nal : Bytes) :
    (nals ++ [nal]).flatMap (h26xLongStartCode ++ ·) =
      h26xLongStartCode ++ unitsBytes nals nal := by
  induction nals with
  | nil => simp [unitsBytes]
  | cons n nals ih => simp only [List.cons_append, List.flatMap_cons, ih, unitsBytes,
      List.foldr_cons, List.append_assoc]

/-- The unit behind a start code, if it has bytes, and then the units behind the next one. -/
lemma toList_next (frame : Bytes) (n : H26xNalu) : AnnexBNalus.toList ⟨frame, some n⟩ =
    [slice frame n.start (naluEnd frame (findNextNalu frame n.start))].filter (· ≠ []) ++
      AnnexBNalus.toList ⟨frame, findNextNalu frame n.start⟩ := by
  rw [AnnexBNalus.toList_eq, AnnexBNalus.advance]
  dsimp only
  have hnil := slice_eq_nil_iff (a := n.start) (naluEnd_le frame n.start)
  by_cases hlt : n.start < naluEnd frame (findNextNalu frame n.start)
  · rw [if_pos hlt]
    simp [hnil, hlt]
  · rw [if_neg hlt, ← AnnexBNalus.toList_eq]
    simp [hnil.mpr (not_lt.mp hlt)]

lemma toList_none (frame : Bytes) : AnnexBNalus.toList ⟨frame, none⟩ = [] := by
  simp only [AnnexBNalus.toList_eq ⟨frame, none⟩, AnnexBNalus.advance]

/-- The iterator gives the units from the one at `s` on, but for those without bytes. -/
lemma toList_of_drop {c : ℕ} (hnals : ∀ n ∈ nals, NoStartCode n) (hne : nal ≠ [])
    (hnal : ∀ j, ¬ StartAt nal j) (h : frame.drop s = unitsBytes nals nal) :
    AnnexBNalus.toList ⟨frame, some ⟨s, c⟩⟩ = (nals ++ [nal]).filter (· ≠ []) := by
  induction nals generalizing s c with
  | nil =>
    have hslice : slice frame s frame.length = nal := by
      rw [slice, ← List.length_drop, List.take_length, h]
      rfl
    rw [toList_next, findNextNalu_of_last hnal h, toList_none, List.append_nil]
    exact congrArg (List.filter _ [·]) hslice
  | cons n nals ih =>
    obtain ⟨hn, hnals⟩ := List.forall_mem_cons.mp hnals
    have hnext := findNextNalu_of_unit hn (unitsBytes_ne_nil hne nals) h
    obtain ⟨hslice, hdrop⟩ := slice_of_drop_eq h
    have hrest : frame.drop (s + n.length + 4) = unitsBytes nals nal := (slice_of_drop_eq hdrop).2
    rw [toList_next, hnext, ih hnals hrest, ← List.filter_append]
    simp only [naluEnd, Option.elim_some, Nat.add_sub_cancel, hslice, List.cons_append,
      List.nil_append]

/-- **Units.** A frame that is put together from units gives back those that have bytes, when no
start code begins in a unit that another one follows. -/
theorem toList_nalus_append (hnals : ∀ n ∈ nals, NoStartCode n) (hne : nal ≠ [])
    (hnal : ∀ j, ¬ StartAt nal j) :
    (nalus ((nals ++ [nal]).flatMap (h26xLongStartCode ++ ·))).toList =
      (nals ++ [nal]).filter (· ≠ []) := by
  have hnil : NoStartCode [] := fun j hj => absurd hj.1 (by simp)
  rw [flatMap_eq_unitsBytes, nalus,
    findNextNalu_of_unit hnil (unitsBytes_ne_nil hne nals) (List.nil_append _).symm]
  exact toList_of_drop hnals hne hnal (by simp [h26xLongStartCode])

lemma nalus_nil : (nalus []).toList = [] := by
  simp [nalus, toList_none, findNextNalu, h26xShortStartSequenceBytes]

theorem toList_nalus (hnals : ∀ n ∈ nals, n ≠ [] ∧ NoStartCode n) :
    (nalus (nals.flatMap (h26xLongStartCode ++ ·))).toList = nals := by
  rcases List.eq_nil_or_concat' nals with rfl | ⟨nals, nal, rfl⟩
  · exact nalus_nil
  · obtain ⟨hne, hcode⟩ := hnals nal (by simp)
    rw [toList_nalus_append (fun n hn => (hnals n (by simp [hn])).2) hne
      fun j hj => hcode j hj.2, List.filter_eq_self]
    exact fun n hn => decide_eq_true (hnals n hn).1

end Cacophony.AnnexB
