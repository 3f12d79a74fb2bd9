import Cacophony.Progs

/-!
Computations that may fail, and may panic.

An index out of bounds, a negative difference or a division by zero ends a computation with
`panicked`; the errors that it reports itself are the other failures. `Returns x` says that `x` does
not panic, and follows the sequence of its parts.
-/

namespace Cacophony.Panics

/-- The ways to end without a value. -/
inductive Failure (ε : Type)
  | failed (error : ε)
  | panicked
  deriving DecidableEq, Repr

abbrev Checked (ε : Type) := Except (Failure ε)

variable {ε α β : Type} {p : Prop} [Decidable p] {a b : α}

/-- An operation that panics outside of `p`. -/
def guarded (p : Prop) [Decidable p] (a : α) : Checked ε α := if p then .ok a else .error .panicked

@[simp] lemma guarded_ok_iff : (guarded p a : Checked ε α) = .ok b ↔ p ∧ a = b := by
  rw [guarded]
  split <;> simp [*]

lemma guarded_of (h : p) : (guarded p a : Checked ε α) = .ok a := if_pos h

/-- The computation does not panic. -/
def Returns (x : Checked ε α) : Prop := x ≠ .error .panicked

lemma returns_ok : Returns (.ok a : Checked ε α) := by
  rintro ⟨⟩

lemma returns_failed (e : ε) : Returns (.error (.failed e) : Checked ε α) := by
  rintro ⟨⟩

lemma returns_guarded (h : p) : Returns (guarded p a : Checked ε α) := by
  rw [guarded_of h]
  exact returns_ok

lemma returns_bind {x : Checked ε α} {f : α → Checked ε β} (hx : Returns x)
    (hf : ∀ a, x = .ok a → Returns (f a)) : Returns (x >>= f) := by
  rcases x with e | a
  · rintro ⟨⟩
    exact hx rfl
  · exact hf a rfl

end Cacophony.Panics
