import Mathlib.Data.List.Induction
import Cacophony.SortedLists
import Cacophony.Stats

/-!
A window holds the last samples, `stats.rs`.

`Stats` removes the first of several equal samples, and inserts by looking at the samples from the
front on. The source does both by binary search, and which of the equal samples it finds is left
open by the library. Here `observe` is written with any search, and does the same with all of them.
-/

namespace Cacophony.SlidingWindows

open SortedLists Stats

variable {τ : Type} [LinearOrder τ]

/-- Makes room in a full window, with the search `S`. -/
def evictWith (S : Search τ) (s : SlidingStats τ) : SlidingStats τ :=
  if s.order.length = s.capacity then
    match s.order with
    | [] => s
    | removed :: order =>
      match S.binarySearch s.sorted removed with
      | none => { s with order }
      | some index => { s with order, sorted := s.sorted.eraseIdx index }
  else s

/-- `SlidingStats::observe` with the search `S`. -/
def observeWith (S : Search τ) (s : SlidingStats τ) (value : τ) : SlidingStats τ :=
  if s.capacity = 0 then s
  else
    let s := evictWith S s
    let index := S.partitionPoint s.sorted (· ≤ value)
    { s with sorted := s.sorted.insertIdx index value, order := s.order ++ [value] }

/-! ### One sample -/

/-- The samples and their sort. -/
structure Sorts (s : SlidingStats τ) : Prop where
  pairwise : s.sorted.Pairwise (· ≤ ·)
  perm : s.sorted.Perm s.order

variable {s : SlidingStats τ}

lemma Sorts.evict (h : Sorts s) : Sorts s.evict := by
  rcases s with ⟨_ | ⟨removed, order⟩, sorted, capacity⟩
  · exact h
  · simp only [SlidingStats.evict]
    split
    · refine ⟨h.pairwise.sublist List.erase_sublist, ?_⟩
      have hmem : removed ∈ sorted := h.perm.mem_iff.mpr List.mem_cons_self
      exact ((List.perm_cons_erase hmem).symm.trans h.perm).cons_inv
    · exact h

lemma Sorts.observe (h : Sorts s) (value : τ) : Sorts (s.observe value) := by
  unfold SlidingStats.observe
  split
  · exact h
  · obtain ⟨hpairwise, hperm⟩ := h.evict
    refine ⟨?_, ?_⟩
    · dsimp only
      rw [insertIdx_takeWhile]
      exact pairwise_insert hpairwise value
    · refine (List.perm_insertIdx value _ (List.takeWhile_sublist _).length_le).trans ?_
      exact (hperm.cons value).trans (List.perm_append_singleton value _).symm

/-- The choice of the search makes no difference. -/
lemma Sorts.observeWith_eq (h : Sorts s) (S : Search τ) (value : τ) :
    observeWith S s value = s.observe value := by
  have hevict : evictWith S s = s.evict := by
    rcases s with ⟨_ | ⟨removed, order⟩, sorted, capacity⟩
    · simp [evictWith, SlidingStats.evict]
    · simp only [evictWith, SlidingStats.evict]
      split
      · have hmem : removed ∈ sorted := h.perm.mem_iff.mpr List.mem_cons_self
        rcases hsearch : S.binarySearch sorted removed with _ | index
        · exact absurd hmem (S.missing h.pairwise hsearch)
        · dsimp only
          rw [eraseIdx_eq_erase h.pairwise (S.found h.pairwise hsearch)]
      · rfl
  simp only [observeWith, SlidingStats.observe, hevict, S.partitionPoint_le h.evict.pairwise]

/-! ### Many samples -/

section Order

variable {σ : Type}

/-- The last `c` values. -/
def window (c : ℕ) (values : List σ) : List σ := values.drop (values.length - c)

lemma length_window (c : ℕ) (values : List σ) :
    (window c values).length = min values.length c := by
  rw [window, List.length_drop]
  omega

/-- A full window gives up its first value for the next one. -/
lemma window_concat {c : ℕ} (hc : 0 < c) (values : List σ) (value : σ) :
    window c (values ++ [value]) =
      (if (window c values).length = c then (window c values).tail else window c values) ++
        [value] := by
  have hlen := length_window c values
  rw [window, List.length_append, List.length_singleton, List.drop_append_of_le_length (by omega)]
  congr 1
  split
  · rw [window, List.tail_drop]
    congr 1
    omega
  · rw [window]
    congr 1
    omega

end Order

lemma order_observe (hc : 0 < s.capacity) (value : τ) :
    (s.observe value).capacity = s.capacity ∧ (s.observe value).order =
      (if s.order.length = s.capacity then s.order.tail else s.order) ++ [value] := by
  rw [SlidingStats.observe, if_neg hc.ne']
  rcases s with ⟨_ | ⟨removed, order⟩, sorted, capacity⟩
  · simp [SlidingStats.evict]
  · simp only [SlidingStats.evict]
    split <;> exact ⟨rfl, rfl⟩

/-- The state after a run of samples. -/
structure Windowed (c : ℕ) (values : List τ) (s : SlidingStats τ) : Prop extends Sorts s where
  capacity : s.capacity = c
  order : s.order = window c values

lemma Windowed.observe {c : ℕ} {values : List τ} (hc : 0 < c) (h : Windowed c values s)
    (value : τ) : Windowed c (values ++ [value]) (s.observe value) := by
  obtain ⟨hcapacity, horder⟩ := order_observe (h.capacity.symm ▸ hc) value
  refine ⟨h.toSorts.observe value, hcapacity.trans h.capacity, ?_⟩
  rw [horder, h.capacity, h.order, window_concat hc]

/-- The samples one after the other. -/
def observed (S : Search τ) (c : ℕ) (values : List τ) : SlidingStats τ :=
  values.foldl (observeWith S) { capacity := c }

theorem windowed_observed (S : Search τ) {c : ℕ} (hc : 0 < c) (values : List τ) :
    Windowed c values (observed S c values) := by
  induction values using List.reverseRecOn with
  | nil => exact ⟨⟨.nil, .nil⟩, rfl, by simp [observed, window]⟩
  | append_singleton values value ih =>
    rw [observed, List.foldl_concat, ← observed, ih.observeWith_eq]
    exact ih.observe hc value

lemma observed_eq (S : Search τ) {c : ℕ} (hc : 0 < c) (values : List τ) :
    observed S c values = values.foldl SlidingStats.observe { capacity := c } := by
  induction values using List.reverseRecOn with
  | nil => rfl
  | append_singleton values value ih =>
    rw [observed, List.foldl_concat, ← observed, List.foldl_concat, ← ih,
      (windowed_observed S hc values).observeWith_eq]

/-! ### What is read off a window -/

lemma Sorts.sorted_eq (h : Sorts s) : s.sorted = s.order.mergeSort (· ≤ ·) :=
  List.Perm.eq_of_pairwise' h.pairwise (List.pairwise_mergeSort' _ _)
    (h.perm.trans (List.mergeSort_perm _ _).symm)

/-- The greatest sample. -/
lemma Sorts.max (h : Sorts s) (hne : s.order ≠ []) :
    ∃ v ∈ s.order, s.max = some v ∧ ∀ w ∈ s.order, w ≤ v := by
  obtain ⟨hpairwise, hperm⟩ := h
  rcases List.eq_nil_or_concat' s.sorted with hnil | ⟨init, v, hsorted⟩
  · exact absurd (List.nil_perm.mp (hnil ▸ hperm)) hne
  · rw [hsorted] at hpairwise hperm
    refine ⟨v, hperm.mem_iff.mp (by simp), by simp [SlidingStats.max, hsorted], fun w hw => ?_⟩
    rcases List.mem_append.mp (hperm.mem_iff.mpr hw) with hw | hw
    · exact (List.pairwise_append.mp hpairwise).2.2 w hw v (by simp)
    · exact (List.mem_singleton.mp hw).le

/-- The index of a percentile. -/
lemma percentile_index_lt {n p : ℕ} (hn : 0 < n) (hp : p ≤ 100) : (n - 1) * p / 100 < n := by
  have hmul : (n - 1) * p ≤ 100 * (n - 1) := by
    rw [Nat.mul_comm 100]
    exact Nat.mul_le_mul_left _ hp
  have := Nat.div_le_of_le_mul hmul
  omega

/-- The sample of a rank. -/
lemma Sorts.percentile (h : Sorts s) (hne : s.order ≠ []) {p : ℕ} (hp : p ≤ 100) :
    ∃ v ∈ s.order, s.percentile p = some v ∧
      s.order.countP (· < v) ≤ (s.order.length - 1) * p / 100 ∧
      (s.order.length - 1) * p / 100 < s.order.countP (· ≤ v) := by
  have hk := percentile_index_lt (List.length_pos_iff.mpr hne) hp
  rw [← h.perm.length_eq] at hk ⊢
  refine ⟨s.sorted[(s.sorted.length - 1) * p / 100], h.perm.mem_iff.mp (List.getElem_mem hk),
    List.getElem?_eq_getElem hk, ?_⟩
  rw [← h.perm.countP_eq, ← h.perm.countP_eq]
  exact rank_getElem h.pairwise hk

/-- **Windows.** After any samples a window holds the last ones, as many as it has room for, as they
came and sorted, with whatever search. As soon as there is a sample, the greatest one and every
percentile are samples of the window, with the rank that was asked for. -/
theorem sliding_window (S : Search τ) {c : ℕ} (hc : 0 < c) (values : List τ) :
    (observed S c values).order = window c values ∧
    (window c values).length = min values.length c ∧
    (observed S c values).sorted = (window c values).mergeSort (· ≤ ·) ∧
    observed S c values = values.foldl SlidingStats.observe { capacity := c } ∧
    (values ≠ [] →
      (∃ v ∈ window c values, (observed S c values).max = some v ∧
        ∀ w ∈ window c values, w ≤ v) ∧
      ∀ p ≤ 100, ∃ v ∈ window c values, (observed S c values).percentile p = some v ∧
        (window c values).countP (· < v) ≤ ((window c values).length - 1) * p / 100 ∧
        ((window c values).length - 1) * p / 100 < (window c values).countP (· ≤ v)) := by
  have h := windowed_observed S hc values
  have hlen := length_window c values
  rw [← h.order] at hlen ⊢
  refine ⟨rfl, hlen, h.sorted_eq, observed_eq S hc values, fun hne => ?_⟩
  have hpos : (observed S c values).order ≠ [] := by
    have := List.length_pos_iff.mpr hne
    rw [← List.length_pos_iff, hlen]
    omega
  exact ⟨h.max hpos, fun p hp => h.percentile hpos hp⟩

/-- Four samples in a window for three. -/
theorem sliding_window_four :
    0 < 3 ∧ (observed firstSearch 3 [5, 3, 9, 3]).order = window 3 [5, 3, 9, 3] ∧
      (observed firstSearch 3 [5, 3, 9, 3]).sorted = [3, 3, 9] ∧
      (observed firstSearch 3 [5, 3, 9, 3]).percentile 50 = some 3 :=
  ⟨by decide, (sliding_window firstSearch (by decide) [5, 3, 9, 3]).1, by decide +kernel,
    by decide +kernel⟩

end Cacophony.SlidingWindows
