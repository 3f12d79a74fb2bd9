import Mathlib.Algebra.Ring.Nat
import Mathlib.Data.List.Basic

/-!
Windows over the last samples of a measurement, `stats.rs`.
-/

namespace Cacophony.Stats

/-- The samples of the window as they came, and in ascending order. -/
structure SlidingStats (τ : Type) where
  order : List τ := []
  sorted : List τ := []
  capacity : ℕ := 512

section SlidingStats

variable {τ : Type} [DecidableEq τ] [LE τ] [DecidableLE τ]

/-- Makes room in a full window. -/
def SlidingStats.evict (s : SlidingStats τ) : SlidingStats τ :=
  match s.order with
  | [] => s
  | removed :: order =>
    if s.order.length = s.capacity then { s with order, sorted := s.sorted.erase removed } else s

def SlidingStats.observe (s : SlidingStats τ) (value : τ) : SlidingStats τ :=
  if s.capacity = 0 then s
  else
    let s := s.evict
    -- `partition_point`: the samples up to the value come first
    let index := (s.sorted.takeWhile (· ≤ value)).length
    { s with sorted := s.sorted.insertIdx index value, order := s.order ++ [value] }

def SlidingStats.percentile (s : SlidingStats τ) (percentile : ℕ) : Option τ :=
  s.sorted[(s.sorted.length - 1) * percentile / 100]?

def SlidingStats.max (s : SlidingStats τ) : Option τ := s.sorted.getLast?

end SlidingStats

/-- Durations are in nanoseconds. -/
structure DurationDistribution where
  count : ℕ := 0
  min : Option ℕ := none
  avg : Option ℕ := none
  p95 : Option ℕ := none
  max : Option ℕ := none
  deriving DecidableEq

structure DurationStats where
  samples : SlidingStats ℕ := {}

def DurationStats.observe (s : DurationStats) (value : ℕ) : DurationStats :=
  ⟨s.samples.observe value⟩

def DurationStats.finish (s : DurationStats) : DurationDistribution :=
  if s.samples.sorted.isEmpty then {}
  else
    { count := s.samples.sorted.length
      min := s.samples.sorted.head?
      avg := some (s.samples.sorted.sum / s.samples.sorted.length)
      p95 := s.samples.percentile 95
      max := s.samples.max }

end Cacophony.Stats
