import Mathlib.Algebra.Group.Nat.Defs
import Mathlib.Data.List.Basic
import Mathlib.Order.Nat

/-!
Byte strings. A slice or vector of bytes of the source is a list; `xs[a..b]` is `slice xs a b`.
-/

namespace Cacophony

abbrev Bytes := List UInt8

/-! Numbers in network order. -/

def u16Be (n : ℕ) : Bytes := [n / 2 ^ 8, n].map UInt8.ofNat
def u32Be (n : ℕ) : Bytes := [n / 2 ^ 24, n / 2 ^ 16, n / 2 ^ 8, n].map UInt8.ofNat
def u64Be (n : ℕ) : Bytes := u32Be (n / 2 ^ 32) ++ u32Be n

/-- The elements from position `start` up to `stop`. -/
def slice {α : Type*} (xs : List α) (start stop : ℕ) : List α := (xs.drop start).take (stop - start)

lemma getElem?_slice {α : Type*} (xs : List α) (a b i : ℕ) :
    (slice xs a b)[i]? = if i < b - a then xs[a + i]? else none := by
  rw [slice, List.getElem?_take]
  split <;> simp [List.getElem?_drop]

variable {α : Type*} {xs ys zs : List α} {a b : ℕ}

lemma length_slice (xs : List α) (a b : ℕ) :
    (slice xs a b).length = min (b - a) (xs.length - a) := by
  rw [slice, List.length_take, List.length_drop]

lemma length_slice_le (xs : List α) (a b : ℕ) : (slice xs a b).length ≤ b - a :=
  List.length_take_le _ _

lemma slice_eq_nil_iff (hb : b ≤ xs.length) : slice xs a b = [] ↔ b ≤ a := by
  rw [← List.length_eq_zero_iff, length_slice]
  omega

lemma drop_eq_slice_append (xs : List α) (h : a ≤ b) :
    xs.drop a = slice xs a b ++ xs.drop b := by
  have hb : xs.drop b = (xs.drop a).drop (b - a) := by
    rw [List.drop_drop, Nat.add_sub_cancel' h]
  rw [hb, slice, List.take_append_drop]

/-- The slice and the rest, when the list is known from `a` on. -/
lemma slice_of_drop_eq (h : xs.drop a = ys ++ zs) :
    slice xs a (a + ys.length) = ys ∧ xs.drop (a + ys.length) = zs := by
  constructor
  · rw [slice, h, Nat.add_sub_cancel_left, List.take_left]
  · rw [← List.drop_drop, h, List.drop_left]

/-- A part of a part. -/
lemma slice_slice (xs : List α) {c d : ℕ} (h : d ≤ b - a) :
    slice (slice xs a b) c d = slice xs (a + c) (a + d) := by
  ext i : 1
  rw [getElem?_slice, getElem?_slice, getElem?_slice, Nat.add_assoc, Nat.add_sub_add_left]
  by_cases hi : i < d - c
  · rw [if_pos hi, if_pos hi, if_pos (by omega)]
  · rw [if_neg hi, if_neg hi]

end Cacophony
