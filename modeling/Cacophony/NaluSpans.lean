import Cacophony.FrameCodecs
import Cacophony.FrameSafety

/-!
The NAL units that are cut out of a frame, `codec.rs` and `frame.rs`.

A unit ends where the next start code begins, and a start code may have a fourth byte in front of
the three that were searched for. The search goes on behind the start code of the unit, whose last
byte is a one, so the fourth byte is never taken out of it. The two loops over units, the iterator
and `process_h26x_frame`, are written here with their subtractions, indices and slices checked:
`none` is a panic. What they cut is written down beside the result.
-/

namespace Cacophony.NaluSpans

open Interleave AnnexB Cacophony.Frame FrameCodecs
open FrameSafety OutboundFrameProcessor

/-! ### Where a unit ends -/

variable {frame : Bytes} {s start stop : ℕ} {n next : H26xNalu}

/-- The byte before the start of a unit. -/
lemma one_before_start (h : findNextNalu frame s = some n) :
    3 ≤ n.start ∧ frame[n.start - 1]? = some 1 := by
  obtain ⟨i, hi, rfl⟩ := exists_of_findNextNalu h
  exact ⟨Nat.le_add_left 3 i, hi.2.1.2.2.2⟩

/-- The next start code begins behind the start of the unit, its fourth byte included. -/
lemma start_le_sub (h : findNextNalu frame s = some n)
    (hnext : findNextNalu frame n.start = some next) :
    next.startCodeLen ≤ next.start ∧ n.start ≤ next.start - next.startCodeLen := by
  obtain ⟨hstart, hone⟩ := one_before_start h
  obtain ⟨i, ⟨hle, -, -⟩, rfl⟩ := exists_of_findNextNalu hnext
  simp only [naluAt]
  split
  next hzero =>
    have hne : i ≠ n.start := by
      rintro rfl
      exact absurd (hzero.2.symm.trans hone) (by decide)
    omega
  next => omega

/-- `next.start - next.start_code_len`, or the end of the frame. -/
def naluEndAt (frame : Bytes) (next : Option H26xNalu) : Option ℕ :=
  next.elim (some frame.length) fun next => subAt next.start next.startCodeLen

lemma naluEndAt_eq (h : findNextNalu frame s = some n) :
    naluEndAt frame (findNextNalu frame n.start) =
      some (naluEnd frame (findNextNalu frame n.start)) ∧
    n.start ≤ naluEnd frame (findNextNalu frame n.start) ∧
    naluEnd frame (findNextNalu frame n.start) ≤ frame.length := by
  rcases hnext : findNextNalu frame n.start with _ | next
  · exact ⟨rfl, (lt_start_of_findNextNalu h).2.le, le_rfl⟩
  · obtain ⟨hsub, hle⟩ := start_le_sub h hnext
    exact ⟨subAt_eq hsub, hle, hnext ▸ naluEnd_le frame n.start⟩

/-- `start..stop` -/
def span (start stop : ℕ) : Range := ⟨start, stop - start⟩

lemma stop_span (h : start ≤ stop) : (span start stop).stop = stop :=
  Nat.add_sub_cancel' h

lemma fits_span {pos : ℕ} (hpos : pos ≤ start) (h : start ≤ stop) :
    Fits pos [span start stop] stop :=
  ⟨hpos, (stop_span h).le⟩

/-! ### The iterator -/

/-- `AnnexBNalus::next`, with the part of the frame it takes. -/
def advanceAt (it : AnnexBNalus) : Option (Option (Range × Bytes × AnnexBNalus)) :=
  match _h : it.next with
  | none => some none
  | some nalu =>
    let next := findNextNalu it.frame nalu.start
    (naluEndAt it.frame next).bind fun stop =>
      if nalu.start < stop then
        (sliceAt it.frame nalu.start stop).map fun nal =>
          some (span nalu.start stop, nal, { it with next := next })
      else advanceAt { it with next := next }
termination_by it.remaining
decreasing_by exact AnnexBNalus.remaining_lt _h

lemma remaining_advanceAt {it it' : AnnexBNalus} {r : Range} {nal : Bytes}
    (h : advanceAt it = some (some (r, nal, it'))) : it'.remaining < it.remaining := by
  fun_induction advanceAt it with
  | case1 => cases h
  | case2 it nalu hnext next ih =>
    obtain ⟨stop, -, h⟩ := Option.bind_eq_some_iff.mp h
    split at h
    · obtain ⟨nal', -, h⟩ := Option.map_eq_some_iff.mp h
      cases h
      exact AnnexBNalus.remaining_lt hnext
    · exact (ih h).trans (AnnexBNalus.remaining_lt hnext)

/-- The iterator run to its end. -/
def drainAt (it : AnnexBNalus) : Option (List (Range × Bytes)) :=
  match _h : advanceAt it with
  | none => none
  | some none => some []
  | some (some (r, nal, it')) => (drainAt it').map ((r, nal) :: ·)
termination_by it.remaining
decreasing_by exact remaining_advanceAt _h

lemma drainAt_congr {it it' : AnnexBNalus} (h : advanceAt it = advanceAt it') :
    drainAt it = drainAt it' := by
  rw [drainAt, drainAt]
  split <;> split <;> simp_all

lemma drainAt_of_some {it it' : AnnexBNalus} {r : Range} {nal : Bytes}
    (h : advanceAt it = some (some (r, nal, it'))) :
    drainAt it = (drainAt it').map ((r, nal) :: ·) := by
  rw [drainAt]
  split <;> simp_all

lemma drainAt_none (frame : Bytes) : drainAt ⟨frame, none⟩ = some [] := by
  have h : advanceAt ⟨frame, none⟩ = some none := by rw [advanceAt]
  rw [drainAt]
  split <;> simp_all

/-- The unit behind a start code, if it has bytes, and then the ones behind the next one. -/
lemma drainAt_found (h : findNextNalu frame s = some n)
    (hstop : naluEnd frame (findNextNalu frame n.start) = stop) : ∃ first,
    drainAt ⟨frame, some n⟩ =
      (drainAt ⟨frame, findNextNalu frame n.start⟩).map (first ++ ·) ∧
    first.map (·.2) = [slice frame n.start stop].filter (· ≠ []) ∧
    (∀ t ∈ first, t.2 = slice frame t.1.offset t.1.stop) ∧
    Fits n.start (first.map (·.1)) stop := by
  obtain ⟨hend, hle, hlen⟩ := naluEndAt_eq h
  rw [hstop] at hend hle hlen
  have hadvance : advanceAt ⟨frame, some n⟩ = _ := advanceAt.eq_def _
  dsimp only at hadvance
  rw [hend, Option.bind_some] at hadvance
  have hnil := slice_eq_nil_iff (a := n.start) hlen
  by_cases hlt : n.start < stop
  · rw [if_pos hlt, sliceAt_eq hle hlen, Option.map_some] at hadvance
    refine ⟨[(span n.start stop, slice frame n.start stop)], drainAt_of_some hadvance,
      by simp [hnil, hlt], ?_, fits_span le_rfl hle⟩
    intro t ht
    rw [List.mem_singleton.mp ht, stop_span hle]
    rfl
  · rw [if_neg hlt] at hadvance
    refine ⟨[], ?_, by simp [hnil.mpr (not_lt.mp hlt)], by simp, hle⟩
    rw [drainAt_congr hadvance]
    simp

/-- Where the rest of the frame starts. -/
def nextStart (frame : Bytes) (next : Option H26xNalu) : ℕ := next.elim frame.length (·.start)

lemma naluEnd_le_nextStart (frame : Bytes) (next : Option H26xNalu) :
    naluEnd frame next ≤ nextStart frame next := by
  cases next with
  | none => exact le_rfl
  | some next => exact Nat.sub_le _ _

/-- **The iterator** takes its units in order and in bounds. -/
theorem drainAt_spec (frame : Bytes) (s : ℕ) : ∃ taken,
    drainAt ⟨frame, findNextNalu frame s⟩ = some taken ∧
    taken.map (·.2) = AnnexBNalus.toList ⟨frame, findNextNalu frame s⟩ ∧
    (∀ t ∈ taken, t.2 = slice frame t.1.offset t.1.stop) ∧
    Fits (nextStart frame (findNextNalu frame s)) (taken.map (·.1)) frame.length := by
  induction s using scanFrom.induct frame with
  | case1 s hs =>
    rw [hs]
    exact ⟨[], drainAt_none frame, (toList_none frame).symm, by simp, le_rfl⟩
  | case2 s n hs ih =>
    obtain ⟨taken, hdrain, hlist, hslices, hfits⟩ := ih
    obtain ⟨first, hfirst, hunit, hslice, hfits'⟩ := drainAt_found hs rfl
    have hnext : Fits (naluEnd frame (findNextNalu frame n.start)) (taken.map (·.1))
        frame.length := .of_le (naluEnd_le_nextStart frame _) hfits
    rw [hs]
    refine ⟨first ++ taken, by rw [hfirst, hdrain, Option.map_some], ?_, ?_, ?_⟩
    · rw [List.map_append, hunit, hlist, toList_next]
    · exact List.forall_mem_append.mpr ⟨hslice, hslices⟩
    · rw [List.map_append]
      exact hfits'.append hnext

/-! ### Frames that are sent -/

/-- What `process_h26x_frame` takes for one unit: all of it, and the parts it adds. -/
structure Taken where
  unit : Range
  parts : List Range

/-- The body of the loop of `process_h26x_frame`. The inner `none` is the fallback. -/
def processNaluAt (C : H26xFrameCodec) (frame : Bytes) (start nextStart : ℕ)
    (p : OutboundFrameProcessor) : Option (Option OutboundFrameProcessor × Taken) := do
  let header ← frame[start]?
  let p := p.addUnencryptedBytes h26xLongStartCode
  -- both branches take the whole unit
  let nalu ← sliceAt frame start nextStart
  let unit := span start nextStart
  if C.encryptsPayload (C.nalType header) then
    match C.encryptedPayloadUnencryptedPrefix nalu with
    | none => some (none, ⟨unit, []⟩)
    | some unencrypted =>
      if nextStart < start + unencrypted then some (none, ⟨unit, []⟩)
      else
        let clear ← sliceAt frame start (start + unencrypted)
        let hidden ← sliceAt frame (start + unencrypted) nextStart
        some (some ((p.addUnencryptedBytes clear).addEncryptedBytes hidden),
          ⟨unit, [span start (start + unencrypted), span (start + unencrypted) nextStart]⟩)
  else some (some (p.addUnencryptedBytes nalu), ⟨unit, [unit]⟩)

def processNalusAt (C : H26xFrameCodec) (frame : Bytes) (nalu : H26xNalu)
    (p : OutboundFrameProcessor) : Option (Option OutboundFrameProcessor × List Taken) :=
  if nalu.start < frame.length - 1 then
    match _h : findNextNalu frame nalu.start with
    | none =>
      (naluEndAt frame none).bind fun nextStart =>
        (processNaluAt C frame nalu.start nextStart p).map fun r => (r.1, [r.2])
    | some next =>
      (naluEndAt frame (some next)).bind fun nextStart =>
        (processNaluAt C frame nalu.start nextStart p).bind fun r =>
          r.1.elim (some (none, [r.2])) fun p =>
            (processNalusAt C frame next p).map fun r' => (r'.1, r.2 :: r'.2)
  else some (some p, [])
termination_by frame.length - nalu.start
decreasing_by
  have := lt_start_of_findNextNalu _h
  omega

def processH26xFrameAt (C : H26xFrameCodec) (frame : Bytes) (p : OutboundFrameProcessor) :
    Option (Option OutboundFrameProcessor × List Taken) :=
  if frame.length < h26xShortStartSequenceBytes + C.nalHeaderBytes then some (none, [])
  else
    match findNextNalu frame 0 with
    | none => some (none, [])
    | some nalu => processNalusAt C frame nalu p

variable (C : H26xFrameCodec)

lemma processNaluAt_eq {nextStart : ℕ} (hstart : start < frame.length) (hle : start ≤ nextStart)
    (hlen : nextStart ≤ frame.length) (p : OutboundFrameProcessor) :
    ∃ parts, processNaluAt C frame start nextStart p =
      some (processNalu C frame start nextStart p, ⟨span start nextStart, parts⟩) ∧
      Fits start parts nextStart := by
  have hheader : frame[start]? = some (frame.getD start 0) := by
    rw [List.getD_eq_getElem?_getD, List.getElem?_eq_getElem hstart, Option.getD_some]
  unfold processNaluAt processNalu
  rw [hheader, sliceAt_eq hle hlen]
  simp only [Option.bind_eq_bind, Option.bind_some]
  by_cases henc : C.encryptsPayload (C.nalType (frame.getD start 0))
  · rw [if_pos henc, if_pos henc]
    rcases C.encryptedPayloadUnencryptedPrefix (slice frame start nextStart) with _ | unencrypted
    · exact ⟨[], rfl, hle⟩
    · dsimp only
      by_cases hlt : nextStart < start + unencrypted
      · rw [if_pos hlt, if_pos hlt]
        exact ⟨[], rfl, hle⟩
      · rw [if_neg hlt, if_neg hlt, sliceAt_eq (by omega) (by omega),
          sliceAt_eq (by omega) hlen]
        exact ⟨_, rfl, (fits_span le_rfl (by omega)).append (fits_span le_rfl (by omega))⟩
  · rw [if_neg henc, if_neg henc]
    exact ⟨_, rfl, fits_span le_rfl hle⟩

/-- What is taken from position `pos` on, in order and in bounds. -/
def TakenFits (pos : ℕ) (taken : List Taken) (n : ℕ) : Prop :=
  Fits pos (taken.map (·.unit)) n ∧ Fits pos (taken.flatMap (·.parts)) n

lemma TakenFits.cons {pos next n : ℕ} {parts : List Range} {taken : List Taken} (hpos : pos ≤ start)
    (hle : start ≤ stop) (hparts : Fits start parts stop) (hnext : stop ≤ next)
    (h : TakenFits next taken n) : TakenFits pos (⟨span start stop, parts⟩ :: taken) n :=
  ⟨(fits_span hpos hle).append (h.1.of_le hnext),
    (hparts.of_le hpos).append (h.2.of_le hnext)⟩

/-- A round that is not the last. -/
lemma processNalusAt_next (hlt : n.start < frame.length - 1)
    (hnext : findNextNalu frame n.start = some next) (p : OutboundFrameProcessor) :
    processNalusAt C frame n p = (naluEndAt frame (some next)).bind fun nextStart =>
      (processNaluAt C frame n.start nextStart p).bind fun r =>
        r.1.elim (some (none, [r.2])) fun p =>
          (processNalusAt C frame next p).map fun r' => (r'.1, r.2 :: r'.2) := by
  rw [processNalusAt, if_pos hlt]
  split <;> simp_all

lemma processNalusAt_last (hlt : n.start < frame.length - 1)
    (hnext : findNextNalu frame n.start = none) (p : OutboundFrameProcessor) :
    processNalusAt C frame n p = (naluEndAt frame none).bind fun nextStart =>
      (processNaluAt C frame n.start nextStart p).map fun r => (r.1, [r.2]) := by
  rw [processNalusAt, if_pos hlt]
  split <;> simp_all

/-- Unit after unit, until the frame ends or the codec gives up. -/
theorem processNalusAt_eq (h : findNextNalu frame s = some n) (p : OutboundFrameProcessor) :
    ∃ taken, processNalusAt C frame n p = some (processNalus C frame n p, taken) ∧
      TakenFits n.start taken frame.length := by
  have hdone : TakenFits frame.length [] frame.length := ⟨le_rfl, le_rfl⟩
  fun_induction processNalus C frame n p generalizing s with
  | case1 n p hlt hnext =>
    obtain ⟨hend, hle, hlen⟩ := naluEndAt_eq h
    rw [hnext] at hend hle hlen
    obtain ⟨parts, hround, hparts⟩ := processNaluAt_eq C (lt_start_of_findNextNalu h).2 hle hlen p
    rw [processNalusAt_last C hlt hnext, hend, Option.bind_some, hround]
    exact ⟨_, rfl, .cons le_rfl hle hparts hlen hdone⟩
  | case2 n p hlt next hnext ih =>
    obtain ⟨hend, hle, hlen⟩ := naluEndAt_eq h
    rw [hnext] at hend hle hlen
    obtain ⟨parts, hround, hparts⟩ := processNaluAt_eq C (lt_start_of_findNextNalu h).2 hle hlen p
    rw [processNalusAt_next C hlt hnext, hend, Option.bind_some, hround, Option.bind_some]
    rcases processNalu C frame n.start (naluEnd frame (some next)) p with _ | p'
    · exact ⟨_, rfl, .cons le_rfl hle hparts hlen hdone⟩
    · obtain ⟨taken, hrest, htaken⟩ := ih p' hnext
      refine ⟨_, by rw [Option.elim_some, hrest, Option.map_some, Option.bind_some], ?_⟩
      exact .cons le_rfl hle hparts (naluEnd_le_nextStart frame (some next)) htaken
  | case3 n p hlt =>
    have hstart := (lt_start_of_findNextNalu h).2.le
    rw [processNalusAt, if_neg hlt]
    exact ⟨[], rfl, hstart, hstart⟩

theorem processH26xFrameAt_eq (frame : Bytes) (p : OutboundFrameProcessor) :
    ∃ taken, processH26xFrameAt C frame p = some (processH26xFrame C frame p, taken) ∧
      TakenFits 0 taken frame.length := by
  have hnothing : TakenFits 0 [] frame.length := ⟨Nat.zero_le _, Nat.zero_le _⟩
  unfold processH26xFrameAt processH26xFrame
  split
  · exact ⟨[], rfl, hnothing⟩
  · rcases h : findNextNalu frame 0 with _ | n
    · exact ⟨[], rfl, hnothing⟩
    · obtain ⟨taken, hrun, hunits, hparts⟩ := processNalusAt_eq C h p
      exact ⟨taken, hrun, hunits.of_le (Nat.zero_le _), hparts.of_le (Nat.zero_le _)⟩

/-! ### The search and what is cut -/

/-- Ranges of a list of `n` bytes, each behind the one before it. -/
def Ordered (n : ℕ) (rs : List Range) : Prop :=
  (∀ r ∈ rs, r.stop ≤ n) ∧ rs.Pairwise fun r r' => r.stop ≤ r'.offset

lemma ordered_of_fits {pos m : ℕ} {rs : List Range} (h : Fits pos rs m) : Ordered m rs :=
  ⟨fun _ hr => (h.mem hr).2.trans h.lastStop_le.2, h.pairwise⟩

lemma startAt_iff_slice {i : ℕ} :
    StartAt frame i ↔ i + 3 < frame.length ∧ slice frame i (i + 3) = [0, 0, 1] := by
  by_cases h : i + 3 < frame.length
  · have hslice : slice frame i (i + 3) = [frame[i], frame[i + 1], frame[i + 2]] := by
      rw [slice, Nat.add_sub_cancel_left, List.drop_eq_getElem_cons, List.drop_eq_getElem_cons,
        List.drop_eq_getElem_cons]
      rfl
    rw [startAt_iff h, hslice]
    simp [h]
  · simp [StartAt, h]

lemma firstFrom_iff_isLeast {i : ℕ} : FirstFrom frame s i ↔
    IsLeast {i | s ≤ i ∧ i + 3 < frame.length ∧ slice frame i (i + 3) = [0, 0, 1]} i := by
  simp only [← startAt_iff_slice, FirstFrom]
  constructor
  · rintro ⟨hs, hi, hfirst⟩
    exact ⟨⟨hs, hi⟩, fun j hj => not_lt.mp fun hlt => hfirst j hj.1 hlt hj.2⟩
  · rintro ⟨⟨hs, hi⟩, hleast⟩
    exact ⟨hs, hi, fun j hj hlt hst => absurd (hleast ⟨hj, hst⟩) (not_le.mpr hlt)⟩

/-- **NAL units.** The search returns the unit behind the first start code that a byte follows, and
nothing if there is none. A unit that the search finds ends behind its start, so the iterator and
the processing of frames, of any codec, cut without a panic what they cut unchecked, unit behind
unit. -/
theorem nalus_in_order (frame : Bytes) :
    (∀ s n, findNextNalu frame s = some n ↔
      ∃ i, IsLeast {i | s ≤ i ∧ i + 3 < frame.length ∧ slice frame i (i + 3) = [0, 0, 1]} i ∧
        n = naluAt frame i) ∧
    (∀ s, findNextNalu frame s = none ↔
      ∀ i, s ≤ i → i + 3 < frame.length → slice frame i (i + 3) ≠ [0, 0, 1]) ∧
    (∀ s n next, findNextNalu frame s = some n → findNextNalu frame n.start = some next →
      next.startCodeLen ≤ next.start ∧ n.start ≤ next.start - next.startCodeLen) ∧
    (∃ taken, drainAt (nalus frame) = some taken ∧ taken.map (·.2) = (nalus frame).toList ∧
      (∀ t ∈ taken, t.2 = slice frame t.1.offset t.1.stop) ∧
      Ordered frame.length (taken.map (·.1))) ∧
    ∀ C p, ∃ taken, processH26xFrameAt C frame p = some (processH26xFrame C frame p, taken) ∧
      Ordered frame.length (taken.map (·.unit)) ∧
      Ordered frame.length (taken.flatMap (·.parts)) := by
  refine ⟨fun s n => ?_, fun s => ?_, fun s n next => start_le_sub, ?_, fun C p => ?_⟩
  · simp only [← firstFrom_iff_isLeast]
    constructor
    · exact exists_of_findNextNalu
    · rintro ⟨i, hi, rfl⟩
      exact findNextNalu_eq_some hi
  · simp only [findNextNalu_eq_none, startAt_iff_slice, not_and, ne_eq]
  · obtain ⟨taken, hdrain, hlist, hslices, hfits⟩ := drainAt_spec frame 0
    exact ⟨taken, hdrain, hlist, hslices, ordered_of_fits hfits⟩
  · obtain ⟨taken, hrun, hunits, hparts⟩ := processH26xFrameAt_eq C frame p
    exact ⟨taken, hrun, ordered_of_fits hunits, ordered_of_fits hparts⟩

-- the unit behind the first start code is empty, and the second start code has three bytes
example : (drainAt (nalus [0, 0, 1, 0, 0, 1, 9, 0, 0, 0, 1, 7])).map (·.map (·.1)) =
    some [⟨6, 1⟩, ⟨11, 1⟩] := by decide +kernel

end Cacophony.NaluSpans
