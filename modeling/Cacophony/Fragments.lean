import Cacophony.Basic

/-!
A list cut into fragments of at most a given size.

Each fragment knows whether it is the first and whether it is the last. `Cut` says so of any list
of fragments, and `cut` makes one.
-/

namespace Cacophony.Fragments

variable {α : Type*}

structure Fragment (α : Type*) where
  body : List α
  first : Bool
  last : Bool

/-- The fragments of `body`, the first of them first of all if `first`. -/
def cut (size : ℕ) (first : Bool) (body : List α) : List (Fragment α) :=
  if body.length ≤ size ∨ size = 0 then [⟨body, first, true⟩]
  else ⟨body.take size, first, false⟩ :: cut size false (body.drop size)
termination_by body.length
decreasing_by
  rw [List.length_drop]
  omega

/-- `fs` are the fragments of `body`: none is empty or longer than `size`. -/
inductive Cut (size : ℕ) : Bool → List α → List (Fragment α) → Prop
  | last {first : Bool} {body : List α} (hne : body ≠ []) (hle : body.length ≤ size) :
      Cut size first body [⟨body, first, true⟩]
  | more {first : Bool} {piece rest : List α} {fs : List (Fragment α)} (hne : piece ≠ [])
      (hle : piece.length ≤ size) (hrest : Cut size false rest fs) :
      Cut size first (piece ++ rest) (⟨piece, first, false⟩ :: fs)

variable {size : ℕ} {first : Bool} {body : List α} {fs : List (Fragment α)}

lemma Cut.ne_nil (h : Cut size first body fs) : fs ≠ [] := by
  cases h <;> exact List.cons_ne_nil _ _

lemma cut_of_le (h : body.length ≤ size) : cut size first body = [⟨body, first, true⟩] := by
  rw [cut, if_pos (.inl h)]

lemma cut_of_lt (hsize : 0 < size) (h : size < body.length) :
    cut size first body = ⟨body.take size, first, false⟩ :: cut size false (body.drop size) := by
  rw [cut, if_neg (by omega)]

theorem cut_spec (hsize : 0 < size) (hne : body ≠ []) :
    Cut size first body (cut size first body) := by
  induction hn : body.length using Nat.strongRecOn generalizing body first with
  | _ n ih =>
    by_cases hle : body.length ≤ size
    · rw [cut_of_le hle]
      exact .last hne hle
    · have hlt : size < body.length := Nat.lt_of_not_le hle
      have hrest : body.drop size ≠ [] := by
        rw [ne_eq, List.drop_eq_nil_iff]
        exact hle
      have hpiece : body.take size ≠ [] := by
        rw [ne_eq, List.take_eq_nil_iff]
        exact fun h => h.elim (Nat.ne_of_gt hsize) hne
      have hcut : Cut size first (body.take size ++ body.drop size) _ :=
        .more hpiece (List.length_take_le size body)
          (ih (body.drop size).length (by rw [List.length_drop]; omega) hrest rfl)
      rwa [List.take_append_drop, ← cut_of_lt hsize hlt] at hcut

/-- The fragments of a list from an offset on, one offset after the other. -/
lemma cut_drop (hsize : 0 < size) {offset : ℕ} (h : offset < body.length) :
    cut size first (body.drop offset) =
      ⟨slice body offset (min (offset + size) body.length), first,
        decide (min (offset + size) body.length = body.length)⟩ ::
      if min (offset + size) body.length = body.length then []
      else cut size false (body.drop (min (offset + size) body.length)) := by
  have hlen : (body.drop offset).length = body.length - offset := List.length_drop
  by_cases hle : (body.drop offset).length ≤ size
  · have hstop : min (offset + size) body.length = body.length := by omega
    rw [cut_of_le hle, hstop, slice, ← hlen, List.take_length, if_pos rfl, decide_eq_true rfl]
  · have hstop : min (offset + size) body.length = offset + size := by omega
    have hne : offset + size ≠ body.length := by omega
    rw [cut_of_lt hsize (Nat.lt_of_not_le hle), hstop, slice, Nat.add_sub_cancel_left, if_neg hne,
      decide_eq_false hne, List.drop_drop]

end Cacophony.Fragments
