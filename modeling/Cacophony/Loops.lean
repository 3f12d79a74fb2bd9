import Mathlib.Data.Nat.Notation

/-!
Loops that may not end.

A `while` loop is run for at most `fuel` rounds; `none` says that it has not ended by then. The
rule below is the one for total correctness: an invariant, and a measure that the body lowers.
-/

namespace Cacophony.Loops

variable {σ : Type*} (cond : σ → Bool) (body : σ → σ)

def loop : ℕ → σ → Option σ
  | 0, s => if cond s then none else some s
  | fuel + 1, s => if cond s then loop fuel (body s) else some s

variable {cond body} {I : σ → Prop}

/-- A loop whose invariant makes it go on. -/
lemma loop_eq_none (h : ∀ s, I s → cond s = true ∧ I (body s)) (fuel : ℕ) {s : σ} (hs : I s) :
    loop cond body fuel s = none := by
  induction fuel generalizing s with
  | zero => simp [loop, (h s hs).1]
  | succ fuel ih => simp [loop, (h s hs).1, ih (h s hs).2]

/-- The rule for a loop that has ended. -/
theorem loop_inv (hstep : ∀ s, I s → cond s = true → I (body s)) {fuel : ℕ} {s s' : σ}
    (h : loop cond body fuel s = some s') (hs : I s) : I s' := by
  induction fuel generalizing s with
  | zero =>
    simp only [loop] at h
    split at h
    · cases h
    · cases h
      exact hs
  | succ fuel ih =>
    simp only [loop] at h
    split at h
    next hc => exact ih h (hstep s hs hc)
    · cases h
      exact hs

theorem loop_spec (measure : σ → ℕ)
    (hstep : ∀ s, I s → cond s = true → I (body s) ∧ measure (body s) < measure s) {fuel : ℕ}
    {s : σ} (h : I s) (hfuel : measure s ≤ fuel) :
    ∃ s', loop cond body fuel s = some s' ∧ I s' ∧ cond s' = false := by
  induction fuel generalizing s with
  | zero =>
    by_cases hc : cond s = true
    · have := (hstep s h hc).2
      omega
    · exact ⟨s, by simp [loop, hc], h, by simpa using hc⟩
  | succ fuel ih =>
    by_cases hc : cond s = true
    · obtain ⟨hI, hlt⟩ := hstep s h hc
      obtain ⟨s', hs', hrest⟩ := ih hI (by omega)
      exact ⟨s', by simp [loop, hc, hs'], hrest⟩
    · exact ⟨s, by simp [loop, hc], h, by simpa using hc⟩

end Cacophony.Loops
