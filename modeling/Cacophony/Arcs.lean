import Mathlib.Algebra.Group.Nat.Defs
import Mathlib.Data.List.Nodup
import Mathlib.Order.Nat

/-!
Counters that wrap, and the values they have taken.

A counter that starts anywhere and was increased `len` times has taken the values of an arc of
the circle of 32-bit numbers. An arc that does not go all the way round repeats no value.
-/

namespace Cacophony.Arcs

structure Arc where
  start : UInt32
  len : ℕ
  deriving DecidableEq

namespace Arc

/-- The values taken, in order. -/
def values (a : Arc) : List UInt32 := (List.range a.len).map fun i => a.start + UInt32.ofNat i

/-- The value to be taken next. -/
def next (a : Arc) : UInt32 := a.start + UInt32.ofNat a.len

def extend (a : Arc) (k : ℕ) : Arc := { a with len := a.len + k }

@[simp] lemma length_values (a : Arc) : a.values.length = a.len := by simp [values]

lemma mem_values {a : Arc} {v : UInt32} :
    v ∈ a.values ↔ ∃ i < a.len, v = a.start + UInt32.ofNat i := by
  simp [values, eq_comm]

lemma next_extend (a : Arc) (k : ℕ) : (a.extend k).next = a.next + UInt32.ofNat k := by
  simp only [next, extend, UInt32.ofNat_add, UInt32.add_assoc]

lemma values_extend (a : Arc) (k : ℕ) :
    (a.extend k).values = a.values ++ (Arc.mk a.next k).values := by
  simp only [values, extend, next, List.range_add, List.map_append, List.map_map,
    List.append_cancel_left_eq]
  refine List.map_congr_left fun i _ => ?_
  simp only [Function.comp_apply, UInt32.ofNat_add, UInt32.add_assoc]

lemma nodup_values {a : Arc} (h : a.len ≤ 2 ^ 32) : a.values.Nodup := by
  refine List.Nodup.map_on (fun i hi j hj heq => ?_) List.nodup_range
  have hij := congrArg UInt32.toNat (UInt32.add_right_inj a.start |>.mp heq)
  rw [UInt32.toNat_ofNat', UInt32.toNat_ofNat'] at hij
  rw [List.mem_range] at hi hj
  omega

/-- Two arcs without a common value. -/
def Apart (a b : Arc) : Prop :=
  ∀ i < a.len, ∀ j < b.len, a.start + UInt32.ofNat i ≠ b.start + UInt32.ofNat j

instance (a b : Arc) : Decidable (Apart a b) :=
  inferInstanceAs (Decidable (∀ i < a.len, ∀ j < b.len, _))

lemma disjoint_values_iff {a b : Arc} : a.values.Disjoint b.values ↔ a.Apart b := by
  simp only [List.disjoint_left, mem_values, Apart]
  constructor
  · intro h i hi j hj heq
    exact h ⟨i, hi, rfl⟩ ⟨j, hj, heq⟩
  · rintro h v ⟨i, hi, rfl⟩ ⟨j, hj, heq⟩
    exact h i hi j hj heq

end Arc

/-- **Counters.** Several counters that take fewer than `2 ^ 32` values together repeat none
exactly when their arcs are apart. -/
theorem nodup_values_iff {arcs : List Arc} {log : List UInt32}
    (hlog : log.Perm (arcs.flatMap Arc.values)) (hlen : log.length < 2 ^ 32) :
    log.Nodup ↔ arcs.Pairwise Arc.Apart := by
  have hshort (a : Arc) (ha : a ∈ arcs) : a.values.Nodup := by
    have hsub : a.values.length ≤ (arcs.flatMap Arc.values).length := by
      rw [List.flatMap_def]
      exact (List.sublist_flatten_of_mem (List.mem_map_of_mem ha)).length_le
    rw [Arc.length_values, ← hlog.length_eq] at hsub
    exact Arc.nodup_values (by omega)
  rw [hlog.nodup_iff, List.nodup_flatMap]
  constructor
  · rintro ⟨-, h⟩
    exact h.imp Arc.disjoint_values_iff.mp
  · intro h
    exact ⟨hshort, h.imp Arc.disjoint_values_iff.mpr⟩

end Cacophony.Arcs
