import Mathlib.Data.List.Basic

/-!
Runs of a deterministic transition system, and what holds along them.

A run is the fold of the step function over its inputs. `Along` says that every step of a
run meets a condition on the state before it and its input; the rules below carry an
invariant, or another condition, through a run whose steps meet one.
-/

namespace Cacophony.Runs

variable {σ ε : Type*} (step : σ → ε → σ)

/-- The state after the inputs `es`. -/
def run (s : σ) (es : List ε) : σ := es.foldl step s

@[simp] lemma run_nil (s : σ) : run step s [] = s := rfl
@[simp] lemma run_cons (s : σ) (e : ε) (es : List ε) :
    run step s (e :: es) = run step (step s e) es := rfl
lemma run_append (s : σ) (es fs : List ε) :
    run step s (es ++ fs) = run step (run step s es) fs := by
  simp [run, List.foldl_append]

/-- Every step of the run meets `P`. -/
def Along (P : σ → ε → Prop) : σ → List ε → Prop
  | _, [] => True
  | s, e :: es => P s e ∧ Along P (step s e) es

variable {step} {P Q : σ → ε → Prop} {I : σ → Prop} {s : σ} {es : List ε}

@[simp] lemma along_nil (s : σ) : Along step P s [] := trivial
@[simp] lemma along_cons (s : σ) (e : ε) (es : List ε) :
    Along step P s (e :: es) ↔ P s e ∧ Along step P (step s e) es := Iff.rfl

/-- A decidable condition is decidable along a run. -/
def decidableAlong [∀ s e, Decidable (P s e)] : ∀ s es, Decidable (Along step P s es)
  | _, [] => isTrue trivial
  | s, e :: es => @instDecidableAnd _ _ _ (decidableAlong (step s e) es)

instance [∀ s e, Decidable (P s e)] (s : σ) (es : List ε) : Decidable (Along step P s es) :=
  decidableAlong s es

lemma along_append {fs : List ε} :
    Along step P s (es ++ fs) ↔ Along step P s es ∧ Along step P (run step s es) fs := by
  induction es generalizing s with
  | nil => simp
  | cons e es ih => rw [List.cons_append, along_cons, along_cons, ih, run_cons, and_assoc]

/-- A condition along a run is one at every way to cut the run at a step. -/
lemma along_iff :
    Along step P s es ↔ ∀ pre e post, es = pre ++ e :: post → P (run step s pre) e := by
  induction es generalizing s with
  | nil => simp
  | cons a es ih =>
    rw [along_cons, ih]
    constructor
    · rintro ⟨ha, h⟩ pre e post heq
      rcases pre with _ | ⟨b, pre⟩
      · simp only [List.nil_append, List.cons.injEq] at heq
        simpa [← heq.1] using ha
      · simp only [List.cons_append, List.cons.injEq] at heq
        obtain ⟨rfl, heq⟩ := heq
        exact h pre e post heq
    · intro h
      refine ⟨h [] a es rfl, fun pre e post heq => ?_⟩
      simpa using h (a :: pre) e post (by rw [heq]; rfl)

/-- The invariant rule: what every step meeting `P` preserves holds at the end of a run
whose steps meet `P`. -/
theorem run_inv (hstep : ∀ s e, I s → P s e → I (step s e)) (h0 : I s) (h : Along step P s es) :
    I (run step s es) := by
  induction es generalizing s with
  | nil => exact h0
  | cons e es ih => exact ih (hstep s e h0 h.1) h.2

/-- The rule for an invariant that every step preserves. -/
theorem run_inv_of_step (hstep : ∀ s e, I s → I (step s e)) (es : List ε) (h0 : I s) :
    I (run step s es) := by
  induction es generalizing s with
  | nil => exact h0
  | cons e es ih => exact ih (hstep s e h0)

/-- Along a run with an invariant, a condition the invariant makes stronger carries over. -/
theorem Along.imp (hstep : ∀ s e, I s → P s e → I (step s e)) (himp : ∀ s e, I s → P s e → Q s e)
    (h0 : I s) (h : Along step P s es) : Along step Q s es := by
  induction es generalizing s with
  | nil => trivial
  | cons e es ih => exact ⟨himp s e h0 h.1, ih (hstep s e h0 h.1) h.2⟩

/-- Two conditions that agree at every step agree along every run. -/
theorem along_congr (h : ∀ s e, P s e ↔ Q s e) (s : σ) (es : List ε) :
    Along step P s es ↔ Along step Q s es := by
  induction es generalizing s with
  | nil => rfl
  | cons e es ih => rw [along_cons, along_cons, h, ih]

/-- Where an invariant is kept by the steps that meet `P`, and one of its consequences `J` is lost
by all others: `J` holds in every state of a run if and only if every step of it meets `P`. -/
theorem always_iff_along_of_inv {J : σ → Prop} (hJ : ∀ s, I s → J s)
    (hkeep : ∀ s e, I s → P s e → I (step s e)) (honly : ∀ s e, I s → J (step s e) → P s e)
    (es : List ε) (h0 : I s) : (∀ pre, pre <+: es → J (run step s pre)) ↔ Along step P s es := by
  induction es generalizing s with
  | nil =>
    refine ⟨fun _ => trivial, fun _ pre hpre => ?_⟩
    rw [List.prefix_nil.mp hpre]
    exact hJ s h0
  | cons e es ih =>
    rw [along_cons]
    constructor
    · intro h
      have hP : P s e := honly s e h0 (h [e] (by simp))
      exact ⟨hP, (ih (hkeep s e h0 hP)).mp fun pre hpre =>
        h (e :: pre) (List.cons_prefix_cons.mpr ⟨rfl, hpre⟩)⟩
    · rintro ⟨hP, hrest⟩ pre hpre
      rcases pre with _ | ⟨a, pre⟩
      · exact hJ s h0
      · obtain ⟨rfl, htail⟩ := List.cons_prefix_cons.mp hpre
        exact (ih (hkeep s a h0 hP)).mpr hrest pre htail

/-- A property of states that, where it holds, the next step keeps exactly under `P`: it holds in
every state of a run if and only if every step of the run meets `P`. -/
theorem always_iff_along (hstep : ∀ s e, I s → (I (step s e) ↔ P s e)) (es : List ε) (h0 : I s) :
    (∀ pre, pre <+: es → I (run step s pre)) ↔ Along step P s es :=
  always_iff_along_of_inv (fun _ h => h) (fun s e h => (hstep s e h).mpr)
    (fun s e h => (hstep s e h).mp) es h0

/-- Some step of the run meets `P`. -/
def Sometime (step : σ → ε → σ) (P : σ → ε → Prop) : σ → List ε → Prop
  | _, [] => False
  | s, e :: es => P s e ∨ Sometime step P (step s e) es

/-- What every step preserves but one that meets `P` holds at the end, or a step met `P`. -/
theorem sometime_or_run (hstep : ∀ s e, I s → P s e ∨ I (step s e)) (es : List ε) (h0 : I s) :
    Sometime step P s es ∨ I (run step s es) := by
  induction es generalizing s with
  | nil => exact .inr h0
  | cons e es ih =>
    rcases hstep s e h0 with hP | hI
    · exact .inl (.inl hP)
    · exact (ih hI).imp_left .inr

end Cacophony.Runs
