import Mathlib.Data.List.Perm.Basic
import Mathlib.Data.List.Sort
import Mathlib.Data.List.TakeWhile

/-!
Sorted lists with duplicates: searching, removing, inserting, ranks.

A search on a sorted list may return any of several equal elements, and it does not matter which
one is removed then. A list with an element inserted behind the ones up to it is sorted again, and
the element at a position of a sorted list is known by how many elements are smaller, or no larger.
-/

namespace Cacophony.SortedLists

/-- Searches on sorted lists: for an index that holds a value, and for the length of the front part
that has a property. -/
structure Search (α : Type*) [LinearOrder α] where
  binarySearch : List α → α → Option ℕ
  partitionPoint : List α → (α → Bool) → ℕ
  found : ∀ {l x i}, l.Pairwise (· ≤ ·) → binarySearch l x = some i → l[i]? = some x
  missing : ∀ {l x}, l.Pairwise (· ≤ ·) → binarySearch l x = none → x ∉ l
  point : ∀ front back p, (∀ y ∈ front, p y = true) → (∀ y ∈ back, p y = false) →
    partitionPoint (front ++ back) p = front.length

variable {α : Type*} [LinearOrder α] {l : List α} {x : α}

lemma getElem?_of_idxOf? {i : ℕ} (h : l.idxOf? x = some i) : l[i]? = some x := by
  obtain ⟨hlt, hx, -⟩ := List.idxOf?_eq_some_iff.mp h
  rw [List.getElem?_eq_getElem hlt, hx]

lemma length_takeWhile_append {β : Type*} {front back : List β} {p : β → Bool}
    (hfront : ∀ y ∈ front, p y = true) (hback : ∀ y ∈ back, p y = false) :
    ((front ++ back).takeWhile p).length = front.length := by
  have hnil : back.takeWhile p = [] := by
    cases back with
    | nil => rfl
    | cons y back => exact List.takeWhile_cons_of_neg (by simp [hback y])
  rw [List.takeWhile_append_of_pos hfront, hnil, List.append_nil]

/-- The search from the front on. -/
def firstSearch : Search α where
  binarySearch l x := l.idxOf? x
  partitionPoint l p := (l.takeWhile p).length
  found _ h := getElem?_of_idxOf? h
  missing _ h := List.idxOf?_eq_none_iff.mp h
  point _ _ _ hfront hback := length_takeWhile_append hfront hback

/-- Which of several equal elements is removed makes no difference. -/
lemma eraseIdx_eq_erase (h : l.Pairwise (· ≤ ·)) {i : ℕ} (hi : l[i]? = some x) :
    l.eraseIdx i = l.erase x := by
  obtain ⟨hlt, rfl⟩ := List.getElem?_eq_some_iff.mp hi
  refine List.Perm.eq_of_pairwise' (h.sublist (List.eraseIdx_sublist l i))
    (h.sublist List.erase_sublist) ?_
  exact ((List.getElem_cons_eraseIdx_perm hlt).trans
    (List.perm_cons_erase (List.getElem_mem hlt))).cons_inv

lemma le_of_mem_takeWhile {y : α} (hy : y ∈ l.takeWhile (· ≤ x)) : y ≤ x := by
  simpa using List.mem_takeWhile_imp hy

/-- Behind the elements up to `x` all are greater. -/
lemma lt_of_mem_dropWhile (h : l.Pairwise (· ≤ ·)) {y : α} (hy : y ∈ l.dropWhile (· ≤ x)) :
    x < y := by
  induction l with
  | nil => cases hy
  | cons a l ih =>
    obtain ⟨hle, h⟩ := List.pairwise_cons.mp h
    by_cases ha : a ≤ x
    · rw [List.dropWhile_cons_of_pos (by simpa using ha)] at hy
      exact ih h hy
    · rw [List.dropWhile_cons_of_neg (by simpa using ha)] at hy
      rcases List.mem_cons.mp hy with rfl | hy
      · exact not_le.mp ha
      · exact (not_le.mp ha).trans_le (hle y hy)

lemma Search.partitionPoint_le (S : Search α) (h : l.Pairwise (· ≤ ·)) (x : α) :
    S.partitionPoint l (· ≤ x) = (l.takeWhile (· ≤ x)).length := by
  have hpoint := S.point (l.takeWhile (· ≤ x)) (l.dropWhile (· ≤ x)) (· ≤ x)
    (fun y hy => by simpa using le_of_mem_takeWhile hy)
    (fun y hy => by simpa using lt_of_mem_dropWhile h hy)
  rwa [List.takeWhile_append_dropWhile] at hpoint

/-- Inserted behind the elements up to it. -/
lemma insertIdx_takeWhile (x : α) (l : List α) :
    l.insertIdx (l.takeWhile (· ≤ x)).length x =
      l.takeWhile (· ≤ x) ++ x :: l.dropWhile (· ≤ x) := by
  induction l with
  | nil => rfl
  | cons a l ih =>
    by_cases ha : a ≤ x
    · rw [List.takeWhile_cons_of_pos (by simpa using ha),
        List.dropWhile_cons_of_pos (by simpa using ha), List.length_cons,
        List.insertIdx_succ_cons, ih, List.cons_append]
    · rw [List.takeWhile_cons_of_neg (by simpa using ha),
        List.dropWhile_cons_of_neg (by simpa using ha)]
      rfl

lemma pairwise_insert (h : l.Pairwise (· ≤ ·)) (x : α) :
    (l.takeWhile (· ≤ x) ++ x :: l.dropWhile (· ≤ x)).Pairwise (· ≤ ·) := by
  refine List.pairwise_append.mpr ⟨h.sublist (List.takeWhile_sublist _),
    List.pairwise_cons.mpr ⟨fun y hy => (lt_of_mem_dropWhile h hy).le,
      h.sublist (List.dropWhile_sublist _)⟩, fun y hy z hz => (le_of_mem_takeWhile hy).trans ?_⟩
  rcases List.mem_cons.mp hz with rfl | hz
  · exact le_rfl
  · exact (lt_of_mem_dropWhile h hz).le

/-- The element at a position has no more smaller ones than stand before it, and is itself among
those that are no larger. -/
lemma rank_of_append {front back : List α} (h : (front ++ x :: back).Pairwise (· ≤ ·)) :
    (front ++ x :: back).countP (· < x) ≤ front.length ∧
      front.length < (front ++ x :: back).countP (· ≤ x) := by
  obtain ⟨-, hback, hfront⟩ := List.pairwise_append.mp h
  have hnone : (x :: back).countP (· < x) = 0 := by
    refine List.countP_eq_zero.mpr fun y hy => ?_
    rcases List.mem_cons.mp hy with rfl | hy
    · simp
    · simpa using (List.pairwise_cons.mp hback).1 y hy
  have hall : front.countP (· ≤ x) = front.length :=
    List.countP_eq_length.mpr fun y hy => by simpa using hfront y hy x List.mem_cons_self
  have hself : 0 < (x :: back).countP (· ≤ x) := List.countP_pos_iff.mpr ⟨x, by simp⟩
  constructor
  · rw [List.countP_append, hnone]
    exact List.countP_le_length
  · rw [List.countP_append, hall]
    omega

lemma rank_getElem (h : l.Pairwise (· ≤ ·)) {k : ℕ} (hk : k < l.length) :
    l.countP (· < l[k]) ≤ k ∧ k < l.countP (· ≤ l[k]) := by
  have hsplit : l = l.take k ++ l[k] :: l.drop (k + 1) := by
    rw [← List.drop_eq_getElem_cons hk, List.take_append_drop]
  have hrank := rank_of_append (hsplit ▸ h)
  rwa [← hsplit, List.length_take_of_le hk.le] at hrank

end Cacophony.SortedLists
