import Mathlib.Data.List.Sort
import Mathlib.Order.Nat

/-!
Lists in the order of a key, with equal keys in the order of arrival.

`Stable key sorted arrived` says that `sorted` is `arrived` in the order of the keys, and that the
elements of each key have kept their order. The rules below are for an element that arrives, for
the first one when it leaves, and for elements that are sorted out.
-/

namespace Cacophony.StableOrder

variable {α : Type*}

/-- In the order of the keys, and for each key in the order of arrival. -/
structure Stable (key : α → ℕ) (sorted arrived : List α) : Prop where
  pairwise : sorted.Pairwise fun x y => key x ≤ key y
  filter_eq : ∀ k, sorted.filter (key · = k) = arrived.filter (key · = k)

variable {key : α → ℕ} {sorted arrived : List α} {x : α}

lemma stable_nil (key : α → ℕ) : Stable key [] [] := ⟨.nil, fun _ => rfl⟩

/-- Both lists have the same elements. -/
lemma Stable.mem_iff (h : Stable key sorted arrived) : x ∈ sorted ↔ x ∈ arrived := by
  have hsorted : x ∈ sorted ↔ x ∈ sorted.filter (key · = key x) := by simp
  rw [hsorted, h.filter_eq]
  simp

/-- Elements that are sorted out of both. -/
lemma Stable.filter (h : Stable key sorted arrived) (p : α → Bool) :
    Stable key (sorted.filter p) (arrived.filter p) where
  pairwise := h.pairwise.sublist List.filter_sublist
  filter_eq k := by
    rw [List.filter_comm, List.filter_comm _ p arrived, h.filter_eq]

/-- The newcomer stands before the first element with a greater key. -/
lemma Stable.insert {front back : List α} (h : Stable key (front ++ back) arrived)
    (hfront : ∀ y ∈ front, key y ≤ key x) (hback : ∀ y ∈ back, key x < key y) :
    Stable key (front ++ x :: back) (arrived ++ [x]) where
  pairwise := by
    obtain ⟨hf, hb, hfb⟩ := List.pairwise_append.mp h.pairwise
    refine List.pairwise_append.mpr ⟨hf, List.pairwise_cons.mpr ⟨fun y hy => ?_, hb⟩, ?_⟩
    · exact (hback y hy).le
    · intro y hy z hz
      rcases List.mem_cons.mp hz with rfl | hz
      · exact hfront y hy
      · exact hfb y hy z hz
  filter_eq k := by
    rw [List.filter_append arrived, ← h.filter_eq, List.filter_append, List.filter_append,
      List.append_assoc]
    by_cases hk : key x = k
    · -- behind the newcomer there is no element of its key
      have hnone : back.filter (key · = k) = [] := by
        refine List.filter_eq_nil_iff.mpr fun y hy => ?_
        have := hback y hy
        simp only [decide_eq_true_eq]
        omega
      simp [hk, hnone]
    · simp [hk]

/-- The first one leaves: it has the least key, and came before all others of its key. -/
lemma Stable.tail (h : Stable key (x :: sorted) arrived) :
    (∀ y ∈ arrived, key x ≤ key y) ∧ ∃ before after, arrived = before ++ x :: after ∧
      (∀ y ∈ before, key y ≠ key x) ∧ Stable key sorted (before ++ after) := by
  obtain ⟨hleast, hsorted⟩ := List.pairwise_cons.mp h.pairwise
  constructor
  · intro y hy
    rcases List.mem_cons.mp (h.mem_iff.mpr hy) with rfl | hy
    · exact le_rfl
    · exact hleast y hy
  · have hx := h.filter_eq (key x)
    rw [List.filter_cons_of_pos (by simp), eq_comm] at hx
    obtain ⟨before, after, rfl, hbefore, -, hafter⟩ := List.filter_eq_cons_iff.mp hx
    have hne : ∀ y ∈ before, key y ≠ key x := fun y hy => by simpa using hbefore y hy
    refine ⟨before, after, rfl, hne, hsorted, fun k => ?_⟩
    by_cases hk : k = key x
    · subst hk
      have hnone : before.filter (key · = key x) = [] :=
        List.filter_eq_nil_iff.mpr (by simpa using hne)
      rw [List.filter_append, hnone, List.nil_append]
      exact hafter.symm
    · have hrest := h.filter_eq k
      rw [List.filter_cons_of_neg (by simpa using Ne.symm hk), List.filter_append,
        List.filter_cons_of_neg (by simpa using Ne.symm hk), ← List.filter_append] at hrest
      exact hrest

/-- What stands before and behind an element that is inserted where `p` first holds. -/
lemma insertIdx_of_findIdx? {p : α → Bool} {l : List α} {i : ℕ} (h : l.findIdx? p = some i)
    (x : α) : ∃ front y back, l = front ++ y :: back ∧ l.insertIdx i x = front ++ x :: y :: back ∧
      (∀ z ∈ front, p z = false) ∧ p y = true := by
  induction l generalizing i with
  | nil => cases h
  | cons a l ih =>
    rw [List.findIdx?_cons] at h
    split at h
    next ha =>
      obtain rfl := Option.some.inj h
      exact ⟨[], a, l, rfl, rfl, List.forall_mem_nil _, ha⟩
    next ha =>
      obtain ⟨j, hj, rfl⟩ := Option.map_eq_some_iff.mp h
      obtain ⟨front, y, back, rfl, hinsert, hfront, hy⟩ := ih hj
      refine ⟨a :: front, y, back, rfl, ?_, List.forall_mem_cons.mpr ⟨?_, hfront⟩, hy⟩
      · rw [List.insertIdx_succ_cons, hinsert]
        rfl
      · exact Bool.eq_false_iff.mpr ha

end Cacophony.StableOrder
