import Mathlib.Data.List.Count
import Mathlib.Order.Nat

/-!
Two lists interleaved by a mask, and masks given by ranges.

A mask says for every position which of two lists its element comes from. `merge` puts the two
together and `pick` takes them apart again. A list of ranges describes the mask that is `true`
inside the ranges and `false` between and behind them.
-/

namespace Cacophony.Interleave

variable {α : Type*}

/-- The list with the elements of `as` at the `true` positions of the mask and those of `es`
at the others. -/
def merge : List Bool → List α → List α → List α
  | true :: m, a :: as, es => a :: merge m as es
  | false :: m, as, e :: es => e :: merge m as es
  | _, _, _ => []

/-- The elements at the positions where the mask is `b`. -/
def pick (b : Bool) : List Bool → List α → List α
  | c :: m, x :: xs => if c = b then x :: pick b m xs else pick b m xs
  | _, _ => []

/-- The two lists have exactly the elements that the mask asks for. -/
inductive Matches : List Bool → List α → List α → Prop
  | nil : Matches [] [] []
  | fst {m as es} (a : α) (h : Matches m as es) : Matches (true :: m) (a :: as) es
  | snd {m as es} (e : α) (h : Matches m as es) : Matches (false :: m) as (e :: es)

variable {m m' : List Bool} {as as' es es' xs : List α} {i : ℕ}

lemma matches_append (h : Matches m as es) (h' : Matches m' as' es') :
    Matches (m ++ m') (as ++ as') (es ++ es') := by
  induction h with
  | nil => exact h'
  | fst a _ ih => exact .fst a ih
  | snd e _ ih => exact .snd e ih

lemma matches_replicate_true (as : List α) : Matches (List.replicate as.length true) as [] := by
  induction as with
  | nil => exact .nil
  | cons a as ih => exact .fst a ih

lemma matches_replicate_false (es : List α) : Matches (List.replicate es.length false) [] es := by
  induction es with
  | nil => exact .nil
  | cons e es ih => exact .snd e ih

/-- Only the number of elements of the second list matters. -/
lemma Matches.congr (h : Matches m as es) (hl : es'.length = es.length) : Matches m as es' := by
  induction h generalizing es' with
  | nil => rw [List.length_nil, List.length_eq_zero_iff] at hl; exact hl ▸ .nil
  | fst a _ ih => exact .fst a (ih hl)
  | snd e _ ih =>
    rcases es' with _ | ⟨e', es'⟩
    · simp at hl
    · exact .snd e' (ih (by simpa using hl))

@[simp] lemma merge_nil (as es : List α) : merge [] as es = [] := by
  cases as <;> cases es <;> rfl

lemma merge_append (h : Matches m as es) (m' : List Bool) (as' es' : List α) :
    merge (m ++ m') (as ++ as') (es ++ es') = merge m as es ++ merge m' as' es' := by
  induction h with
  | nil => simp
  | fst a _ ih => simp [merge, ih]
  | snd e _ ih => simp [merge, ih]

lemma length_merge (h : Matches m as es) : (merge m as es).length = m.length := by
  induction h with
  | nil => rfl
  | fst a _ ih => simp [merge, ih]
  | snd e _ ih => simp [merge, ih]

@[simp] lemma merge_replicate_true (as es : List α) :
    merge (List.replicate as.length true) as es = as := by
  induction as with
  | nil => simp
  | cons a as ih => simp [List.replicate_succ, merge, ih]

@[simp] lemma merge_replicate_false (as es : List α) :
    merge (List.replicate es.length false) as es = es := by
  induction es with
  | nil => simp
  | cons e es ih => simp [List.replicate_succ, merge, ih]

/-- Taking apart what was put together. -/
lemma pick_merge (h : Matches m as es) :
    pick true m (merge m as es) = as ∧ pick false m (merge m as es) = es := by
  induction h with
  | nil => simp [pick]
  | fst a _ ih => simpa [merge, pick] using ih
  | snd e _ ih => simpa [merge, pick] using ih

lemma Matches.length_add (h : Matches m as es) : as.length + es.length = m.length := by
  induction h with
  | nil => rfl
  | fst a _ ih =>
    simp only [List.length_cons]
    omega
  | snd e _ ih =>
    simp only [List.length_cons]
    omega

/-- Putting together what was taken apart. -/
lemma merge_pick (h : xs.length = m.length) :
    Matches m (pick true m xs) (pick false m xs) ∧
      merge m (pick true m xs) (pick false m xs) = xs := by
  induction m generalizing xs with
  | nil =>
    rw [List.length_nil, List.length_eq_zero_iff] at h
    subst h
    exact ⟨.nil, rfl⟩
  | cons c m ih =>
    rcases xs with _ | ⟨x, xs⟩
    · simp at h
    · obtain ⟨hmatch, hmerge⟩ := ih (by simpa using h)
      cases c with
      | true => exact ⟨.fst x hmatch, by simp [pick, merge, hmerge]⟩
      | false => exact ⟨.snd x hmatch, by simp [pick, merge, hmerge]⟩

lemma pick_append (b : Bool) {xs' : List α} (h : xs.length = m.length) :
    pick b (m ++ m') (xs ++ xs') = pick b m xs ++ pick b m' xs' := by
  induction m generalizing xs with
  | nil =>
    rw [List.length_nil, List.length_eq_zero_iff] at h
    simp [h, pick]
  | cons c m ih =>
    rcases xs with _ | ⟨x, xs⟩
    · simp at h
    · simp only [List.cons_append, pick, ih (by simpa using h)]
      split <;> rfl

lemma pick_replicate (b c : Bool) {k : ℕ} (h : xs.length = k) :
    pick b (List.replicate k c) xs = if c = b then xs else [] := by
  subst h
  induction xs with
  | nil => simp [pick]
  | cons x xs ih =>
    simp only [List.length_cons, List.replicate_succ, pick, ih]
    split <;> rfl

/-- Where the mask is `true`, the second list has no say. -/
lemma getElem?_merge_congr (h : Matches m as es) (hl : es'.length = es.length)
    (hi : m[i]? = some true) : (merge m as es')[i]? = (merge m as es)[i]? := by
  induction h generalizing es' i with
  | nil => simp at hi
  | fst a _ ih =>
    rcases i with _ | i
    · rfl
    · simpa [merge] using ih hl (by simpa using hi)
  | snd e _ ih =>
    rcases es' with _ | ⟨e', es'⟩
    · simp at hl
    rcases i with _ | i
    · simp at hi
    · simpa [merge] using ih (by simpa using hl) (by simpa using hi)

/-- Where the mask is `false`, an element of the second list stands. -/
lemma getElem?_merge_hidden (h : Matches m as es) {a : α} (ha : ∀ e ∈ es, e = a)
    (hi : m[i]? = some false) : (merge m as es)[i]? = some a := by
  induction h generalizing i with
  | nil => simp at hi
  | fst a' _ ih =>
    rcases i with _ | i
    · simp at hi
    · simpa [merge] using ih ha (by simpa using hi)
  | snd e _ ih =>
    rcases i with _ | i
    · simp [merge, ha e]
    · simpa [merge] using ih (fun e' he' => ha e' (List.mem_cons_of_mem _ he')) (by simpa using hi)

/-! ### Masks of ranges -/

structure Range where
  offset : ℕ
  len : ℕ
  deriving DecidableEq

/-- The position behind the range. -/
def Range.stop (r : Range) : ℕ := r.offset + r.len

/-- Ranges in order, without overlap, from position `pos` on and up to `n`. -/
def Fits : ℕ → List Range → ℕ → Prop
  | pos, [], n => pos ≤ n
  | pos, r :: rs, n => pos ≤ r.offset ∧ Fits r.stop rs n

/-- The mask of the positions from `pos` up to `n`: `true` inside the ranges. -/
def mask : ℕ → List Range → ℕ → List Bool
  | pos, [], n => List.replicate (n - pos) false
  | pos, r :: rs, n =>
    List.replicate (r.offset - pos) false ++ (List.replicate r.len true ++ mask r.stop rs n)

variable {pos n k : ℕ} {rs : List Range}

lemma Fits.le (h : Fits pos rs n) : pos ≤ n := by
  induction rs generalizing pos with
  | nil => exact h
  | cons r rs ih =>
    have h1 := h.1
    have h2 := ih h.2
    simp only [Range.stop] at h2
    omega

lemma length_mask (h : Fits pos rs n) : (mask pos rs n).length = n - pos := by
  induction rs generalizing pos with
  | nil => simp [mask]
  | cons r rs ih =>
    have h1 := h.1
    have h2 := h.2.le
    rw [mask, List.length_append, List.length_append, ih h.2, List.length_replicate,
      List.length_replicate]
    simp only [Range.stop] at h2 ⊢
    omega

/-- More positions behind the ranges. -/
lemma mask_add (h : Fits pos rs n) (k : ℕ) :
    Fits pos rs (n + k) ∧ mask pos rs (n + k) = mask pos rs n ++ List.replicate k false := by
  induction rs generalizing pos with
  | nil =>
    have hle : pos ≤ n := h
    have : n + k - pos = (n - pos) + k := by omega
    exact ⟨by simp only [Fits]; omega, by simp [mask, this, List.replicate_append_replicate]⟩
  | cons r rs ih =>
    obtain ⟨hf, hm⟩ := ih h.2
    exact ⟨⟨h.1, hf⟩, by simp [mask, hm]⟩

/-- A further range at the end. -/
lemma mask_push (h : Fits pos rs n) (k : ℕ) :
    Fits pos (rs ++ [⟨n, k⟩]) (n + k) ∧
      mask pos (rs ++ [⟨n, k⟩]) (n + k) = mask pos rs n ++ List.replicate k true := by
  induction rs generalizing pos with
  | nil => simp [mask, Fits, Range.stop, h.le]
  | cons r rs ih =>
    obtain ⟨hf, hm⟩ := ih h.2
    exact ⟨⟨h.1, hf⟩, by simp [mask, hm]⟩

/-- A longer last range, when nothing stands behind it. -/
lemma mask_extend {r : Range} (h : Fits pos (rs ++ [r]) r.stop) (k : ℕ) :
    Fits pos (rs ++ [{ r with len := r.len + k }]) (r.stop + k) ∧
      mask pos (rs ++ [{ r with len := r.len + k }]) (r.stop + k) =
        mask pos (rs ++ [r]) r.stop ++ List.replicate k true := by
  induction rs generalizing pos with
  | nil =>
    simp only [List.nil_append, Fits, mask, Range.stop] at h ⊢
    refine ⟨⟨h.1, by omega⟩, ?_⟩
    simp [Nat.add_assoc, List.replicate_append_replicate]
  | cons r' rs ih =>
    obtain ⟨hf, hm⟩ := ih h.2
    exact ⟨⟨h.1, hf⟩, by simp [mask, hm]⟩

/-- The end of the last range. -/
def lastStop : ℕ → List Range → ℕ
  | pos, [] => pos
  | _, r :: rs => lastStop r.stop rs

lemma Fits.lastStop_le (h : Fits pos rs n) : pos ≤ lastStop pos rs ∧ lastStop pos rs ≤ n := by
  induction rs generalizing pos with
  | nil => exact ⟨le_rfl, h⟩
  | cons r rs ih =>
    have h1 := h.1
    obtain ⟨h2, h3⟩ := ih h.2
    simp only [Range.stop, lastStop] at h2 h3 ⊢
    omega

lemma Fits.mem (h : Fits pos rs n) {r : Range} (hr : r ∈ rs) :
    pos ≤ r.offset ∧ r.stop ≤ lastStop pos rs := by
  induction rs generalizing pos with
  | nil => simp at hr
  | cons r' rs ih =>
    have h1 := h.1
    rcases List.mem_cons.mp hr with rfl | hr
    · exact ⟨h1, h.2.lastStop_le.1⟩
    · obtain ⟨h2, h3⟩ := ih h.2 hr
      exact ⟨by simp only [Range.stop] at h2; omega, h3⟩

lemma Fits.pairwise (h : Fits pos rs n) : rs.Pairwise fun r r' => r.stop ≤ r'.offset := by
  induction rs generalizing pos with
  | nil => exact .nil
  | cons r rs ih => exact .cons (fun r' hr' => (h.2.mem hr').1) (ih h.2)

lemma Fits.of_le {m : ℕ} (hle : pos ≤ m) (h : Fits m rs n) : Fits pos rs n := by
  cases rs with
  | nil => exact le_trans hle h
  | cons r rs => exact ⟨le_trans hle h.1, h.2⟩

lemma Fits.append {m : ℕ} {rs' : List Range} (h : Fits pos rs m) (h' : Fits m rs' n) :
    Fits pos (rs ++ rs') n := by
  induction rs generalizing pos with
  | nil => exact .of_le h h'
  | cons r rs ih => exact ⟨h.1, ih h.2⟩

/-- A position is in one of the ranges. -/
def Covered (rs : List Range) (i : ℕ) : Prop := ∃ r ∈ rs, r.offset ≤ i ∧ i < r.stop

instance (rs : List Range) (i : ℕ) : Decidable (Covered rs i) :=
  inferInstanceAs (Decidable (∃ r ∈ rs, r.offset ≤ i ∧ i < r.stop))

lemma Fits.lt_lastStop (h : Fits pos rs n) (hi : Covered rs i) : pos ≤ i ∧ i < lastStop pos rs := by
  obtain ⟨r, hr, hle, hlt⟩ := hi
  have := h.mem hr
  omega

/-- The mask at a position. -/
lemma getElem?_mask (h : Fits pos rs n) (i : ℕ) : (mask pos rs n)[i]? =
    if pos + i < n then some (decide (Covered rs (pos + i))) else none := by
  induction rs generalizing pos i with
  | nil => simp [mask, List.getElem?_replicate, Covered, Nat.lt_sub_iff_add_lt']
  | cons r rs ih =>
    have h1 := h.1
    have h2 := h.2.le
    have hstop : r.stop = r.offset + r.len := rfl
    have hcons : Covered (r :: rs) (pos + i) ↔
        (r.offset ≤ pos + i ∧ pos + i < r.stop) ∨ Covered rs (pos + i) := by
      simp [Covered]
    have hlate (hc : Covered rs (pos + i)) : r.stop ≤ pos + i := (h.2.lt_lastStop hc).1
    rw [mask, List.getElem?_append, List.getElem?_append, List.length_replicate,
      List.length_replicate, ih h.2]
    rcases lt_or_ge (pos + i) r.offset with hlt | hge
    · have hno : ¬ Covered (r :: rs) (pos + i) := by
        rw [hcons]
        rintro (hc | hc)
        · omega
        · have := hlate hc
          omega
      rw [if_pos (by omega), List.getElem?_replicate, if_pos (by omega), if_pos (by omega)]
      simp [hno]
    · rw [if_neg (by omega)]
      rcases lt_or_ge (pos + i) r.stop with hlt' | hge'
      · have hyes : Covered (r :: rs) (pos + i) := hcons.mpr (.inl ⟨hge, hlt'⟩)
        rw [if_pos (by omega), List.getElem?_replicate, if_pos (by omega), if_pos (by omega)]
        simp [hyes]
      · have hiff : Covered (r :: rs) (pos + i) ↔ Covered rs (pos + i) := by
          rw [hcons]
          exact or_iff_right fun hc => by omega
        rw [if_neg (by omega), show r.stop + (i - (r.offset - pos) - r.len) = pos + i by omega]
        simp only [hiff]

/-! ### The mask piece by piece -/

lemma Matches.of_replicate_false (h : Matches (List.replicate k false ++ m) as es) :
    ∃ e₁ e₂, es = e₁ ++ e₂ ∧ e₁.length = k ∧ Matches m as e₂ ∧
      merge (List.replicate k false ++ m) as es = e₁ ++ merge m as e₂ := by
  induction k generalizing es with
  | zero => exact ⟨[], es, rfl, rfl, h, rfl⟩
  | succ k ih =>
    rw [List.replicate_succ, List.cons_append] at h
    cases h with
    | snd e h =>
      obtain ⟨e₁, e₂, rfl, hl, h, hm⟩ := ih h
      exact ⟨e :: e₁, e₂, rfl, by simp [hl], h, by simp [List.replicate_succ, merge, hm]⟩

lemma Matches.of_replicate_true (h : Matches (List.replicate k true ++ m) as es) :
    ∃ a₁ a₂, as = a₁ ++ a₂ ∧ a₁.length = k ∧ Matches m a₂ es ∧
      merge (List.replicate k true ++ m) as es = a₁ ++ merge m a₂ es := by
  induction k generalizing as with
  | zero => exact ⟨[], as, rfl, rfl, h, rfl⟩
  | succ k ih =>
    rw [List.replicate_succ, List.cons_append] at h
    cases h with
    | fst a h =>
      obtain ⟨a₁, a₂, rfl, hl, h, hm⟩ := ih h
      exact ⟨a :: a₁, a₂, rfl, by simp [hl], h, by simp [List.replicate_succ, merge, hm]⟩

/-- Behind the last range only the second list is left. -/
lemma Matches.of_mask_nil (h : Matches (mask pos [] n) as es) :
    as = [] ∧ merge (mask pos [] n) as es = es := by
  obtain ⟨e₁, e₂, rfl, hl, h, hm⟩ := of_replicate_false (m := []) (by simpa [mask] using h)
  cases h
  exact ⟨rfl, by simpa [mask] using hm⟩

end Cacophony.Interleave
