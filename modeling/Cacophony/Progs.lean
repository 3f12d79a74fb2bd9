import Mathlib.Data.List.Basic
import Mathlib.Logic.Relation

/-!
Programs that update a state and may fail, and what holds after them.

A failed program keeps its last state, as a mutable value does when `?` leaves a function
early. `Holds P x Q` speaks of the successful outcomes only, `Ends P x Q E` also of the states
that failures leave; the rules below follow the constructs a program is written with.
-/

namespace Cacophony.Progs

/-- A program over a state `ω` with errors `ε`. -/
abbrev Prog (ω ε : Type) := ExceptT ε (StateM ω)

variable {ω ε α β δ : Type}

/-- The outcome of a program, and the state it leaves. -/
def exec (x : Prog ω ε α) (w : ω) : Except ε α × ω := Id.run (x.run.run w)

@[simp] lemma exec_pure (a : α) (w : ω) : exec (pure a : Prog ω ε α) w = (.ok a, w) := rfl
@[simp] lemma exec_throw (e : ε) (w : ω) :
    exec (throw e : Prog ω ε α) w = (.error e, w) := rfl
@[simp] lemma exec_get (w : ω) : exec (get : Prog ω ε ω) w = (.ok w, w) := rfl
@[simp] lemma exec_set (v w : ω) : exec (set v : Prog ω ε PUnit) w = (.ok (), v) := rfl
@[simp] lemma exec_modify (f : ω → ω) (w : ω) :
    exec (modify f : Prog ω ε Unit) w = (.ok (), f w) := rfl
@[simp] lemma exec_modifyGet (f : ω → α × ω) (w : ω) :
    exec (modifyGet f : Prog ω ε α) w = (.ok (f w).1, (f w).2) := rfl

lemma exec_bind (x : Prog ω ε α) (f : α → Prog ω ε β) (w : ω) :
    exec (x >>= f) w = match exec x w with
      | (.ok a, w') => exec (f a) w'
      | (.error e, w') => (.error e, w') := by
  simp only [exec, ExceptT.run_bind, StateT.run_bind, Id.run_bind]
  rcases Id.run (x.run.run w) with ⟨_ | a, w'⟩ <;> rfl

lemma exec_bind_of_ok {x : Prog ω ε α} {a : α} {w w' : ω} (h : exec x w = (.ok a, w'))
    (f : α → Prog ω ε β) : exec (x >>= f) w = exec (f a) w' := by
  rw [exec_bind, h]

lemma exec_get_bind (f : ω → Prog ω ε β) (w : ω) : exec (get >>= f) w = exec (f w) w := rfl

lemma exec_modify_bind (g : ω → ω) (f : Unit → Prog ω ε β) (w : ω) :
    exec (modify g >>= f) w = exec (f ()) (g w) := rfl

/-- The program with its errors wrapped. -/
def adapt {δ : Type} (wrap : δ → ε) (x : Prog ω δ α) : Prog ω ε α := ExceptT.adapt wrap x

lemma exec_adapt (wrap : δ → ε) (x : Prog ω δ α) (w : ω) :
    exec (adapt wrap x) w = ((exec x w).1.mapError wrap, (exec x w).2) := rfl

/-- The program on a part of the state. -/
def within {ω' : Type} (part : ω → ω') (put : ω → ω' → ω) (x : Prog ω' ε α) : Prog ω ε α :=
  ExceptT.mk (modifyGet fun w => ((exec x (part w)).1, put w (exec x (part w)).2))

lemma exec_within {ω' : Type} (part : ω → ω') (put : ω → ω' → ω) (x : Prog ω' ε α) (w : ω) :
    exec (within part put x) w = ((exec x (part w)).1, put w (exec x (part w)).2) := rfl

/-- The value of a result, or its error wrapped. -/
def ofResult {δ : Type} (wrap : δ → ε) : Except δ α → Prog ω ε α
  | .ok a => pure a
  | .error e => throw (wrap e)

/-- From a state in `P`, if `x` succeeds then its value and the state it leaves are in `Q`. -/
def Holds (P : ω → Prop) (x : Prog ω ε α) (Q : α → ω → Prop) : Prop :=
  ∀ w, P w → ∀ a w', exec x w = (.ok a, w') → Q a w'

variable {P P' I : ω → Prop} {Q : α → ω → Prop} {R : β → ω → Prop} {x : Prog ω ε α}
  {f : β → Prog ω ε PUnit}

lemma holds_pure {a : α} (h : ∀ w, P w → Q a w) : Holds P (pure a : Prog ω ε α) Q := by
  intro w hw b w' heq
  simp only [exec_pure, Prod.mk.injEq, Except.ok.injEq] at heq
  obtain ⟨rfl, rfl⟩ := heq
  exact h w hw

lemma holds_throw (e : ε) : Holds P (throw e : Prog ω ε α) Q := by
  intro w _ a w' heq
  simp at heq

lemma holds_modify {Q : Unit → ω → Prop} {f : ω → ω} (h : ∀ w, P w → Q () (f w)) :
    Holds P (modify f : Prog ω ε Unit) Q := by
  intro w hw b w' heq
  simp only [exec_modify, Prod.mk.injEq] at heq
  obtain ⟨-, rfl⟩ := heq
  exact h w hw

lemma holds_modifyGet {f : ω → α × ω} (h : ∀ w, P w → Q (f w).1 (f w).2) :
    Holds P (modifyGet f : Prog ω ε α) Q := by
  intro w hw b w' heq
  simp only [exec_modifyGet, Prod.mk.injEq, Except.ok.injEq] at heq
  obtain ⟨rfl, rfl⟩ := heq
  exact h w hw

lemma holds_bind {f : α → Prog ω ε β} (hx : Holds P x Q)
    (hf : ∀ a, Holds (Q a) (f a) R) : Holds P (x >>= f) R := by
  intro w hw b w' heq
  rw [exec_bind] at heq
  rcases hres : exec x w with ⟨_ | a, w₁⟩
  · simp [hres] at heq
  · rw [hres] at heq
    exact hf a w₁ (hx w hw a w₁ hres) b w' heq

lemma holds_any : Holds P x fun _ _ => True := fun _ _ _ _ _ => trivial

lemma Holds.mono {Q' : α → ω → Prop} (h : Holds P x Q)
    (hP : ∀ w, P' w → P w) (hQ : ∀ a w, Q a w → Q' a w) : Holds P' x Q' :=
  fun w hw a w' heq => hQ a w' (h w (hP w hw) a w' heq)

/-- What a state says before it is read, the value read says too. -/
lemma holds_get : Holds P (get : Prog ω ε ω) fun v w => P w ∧ v = w := by
  intro w hw b w' heq
  simp only [exec_get, Prod.mk.injEq, Except.ok.injEq] at heq
  obtain ⟨rfl, rfl⟩ := heq
  exact ⟨hw, rfl⟩

lemma holds_get_bind {f : ω → Prog ω ε β} (hf : ∀ v, Holds P (f v) R) :
    Holds P (get >>= f) R :=
  holds_bind holds_get fun v => (hf v).mono (fun _ h => h.1) fun _ _ h => h

lemma holds_optionForM (o : Option β) (h : ∀ x, Holds I (f x) fun _ => I) :
    Holds I (o.forM f) fun _ => I := by
  cases o with
  | none => exact holds_pure fun _ hw => hw
  | some x => exact h x

/-- A loop keeps an invariant that its body keeps at every element. -/
lemma holds_forM (xs : List β) (h : ∀ x ∈ xs, Holds I (f x) fun _ => I) :
    Holds I (xs.forM f) fun _ => I := by
  induction xs with
  | nil => exact holds_pure fun _ hw => hw
  | cons x xs ih =>
    refine holds_bind (h x (List.mem_cons_self)) fun _ => ih fun y hy => h y ?_
    exact List.mem_cons_of_mem x hy

/-! ### Failures -/

section Failures

variable {E E' : ω → Prop}

/-- From a state in `P`, a success of `x` ends in `Q`, and a failure in `E`. -/
def Ends (P : ω → Prop) (x : Prog ω ε α) (Q : α → ω → Prop) (E : ω → Prop) : Prop :=
  ∀ w, P w → (∀ a w', exec x w = (.ok a, w') → Q a w') ∧ ∀ e w', exec x w = (.error e, w') → E w'

lemma Ends.mono {Q' : α → ω → Prop} (h : Ends P x Q E) (hP : ∀ w, P' w → P w)
    (hQ : ∀ a w, Q a w → Q' a w) (hE : ∀ w, E w → E' w) : Ends P' x Q' E' :=
  fun w hw => ⟨fun a w' heq => hQ a w' ((h w (hP w hw)).1 a w' heq),
    fun e w' heq => hE w' ((h w (hP w hw)).2 e w' heq)⟩

lemma Ends.mono_pre (h : Ends P x Q E) (hP : ∀ w, P' w → P w) :
    Ends P' x Q E :=
  h.mono hP (fun _ _ h => h) fun _ h => h

lemma Ends.or_left (h : Ends P x Q E) : Ends P x Q fun w => E w ∨ E' w :=
  h.mono (fun _ h => h) (fun _ _ h => h) fun _ => .inl

lemma Ends.or_right (h : Ends P x Q E) : Ends P x Q fun w => E' w ∨ E w :=
  h.mono (fun _ h => h) (fun _ _ h => h) fun _ => .inr

/-- The state that a program leaves, whatever its outcome. -/
lemma Ends.exec (h : Ends P x (fun _ => E) E) {w : ω} (hw : P w) :
    E (exec x w).2 := by
  rcases hres : Progs.exec x w with ⟨e | a, w'⟩
  · exact (h w hw).2 e w' hres
  · exact (h w hw).1 a w' hres

/-- What is known before the run and is not about the state. -/
lemma ends_and_pure {φ : Prop} (h : φ → Ends P x Q E) :
    Ends (fun w => P w ∧ φ) x Q E :=
  fun w hw => h hw.2 w hw.1

lemma ends_pure {a : α} (h : ∀ w, P w → Q a w) : Ends P (pure a : Prog ω ε α) Q E := by
  intro w hw
  refine ⟨holds_pure h w hw, fun e w' heq => ?_⟩
  simp at heq

lemma ends_throw {e : ε} (h : ∀ w, P w → E w) : Ends P (throw e : Prog ω ε α) Q E := by
  intro w hw
  refine ⟨holds_throw e w hw, fun e' w' heq => ?_⟩
  simp only [exec_throw, Prod.mk.injEq] at heq
  rw [← heq.2]
  exact h w hw

lemma ends_ofResult (wrap : δ → ε) (r : Except δ α) (h : ∀ w, P w → E w) :
    Ends P (ofResult wrap r) (fun a w => P w ∧ r = .ok a) E := by
  cases r with
  | ok a => exact ends_pure fun _ hw => ⟨hw, rfl⟩
  | error e => exact ends_throw h

lemma ends_modify {Q : Unit → ω → Prop} {f : ω → ω} (h : ∀ w, P w → Q () (f w)) :
    Ends P (modify f : Prog ω ε Unit) Q E := by
  intro w hw
  refine ⟨holds_modify h w hw, fun e w' heq => ?_⟩
  simp at heq

lemma ends_set {Q : PUnit → ω → Prop} {v : ω} (h : ∀ w, P w → Q ⟨⟩ v) :
    Ends P (set v : Prog ω ε PUnit) Q E := by
  intro w hw
  constructor
  · intro a w' heq
    simp only [exec_set, Prod.mk.injEq] at heq
    rw [← heq.2]
    exact h w hw
  · intro e w' heq
    simp at heq

lemma ends_bind {f : α → Prog ω ε β} (hx : Ends P x Q E)
    (hf : ∀ a, Ends (Q a) (f a) R E) : Ends P (x >>= f) R E := by
  intro w hw
  rw [exec_bind]
  rcases hres : exec x w with ⟨e | a, w₁⟩
  · refine ⟨fun _ _ heq => by simp at heq, fun e' w' heq => ?_⟩
    simp only [Prod.mk.injEq] at heq
    rw [← heq.2]
    exact (hx w hw).2 e w₁ hres
  · exact hf a w₁ ((hx w hw).1 a w₁ hres)

/-- Reading the state first: the rest starts in the state that was read. -/
lemma ends_get_bind {f : ω → Prog ω ε β} (hf : ∀ v, P v → Ends (· = v) (f v) R E) :
    Ends P (get >>= f) R E := by
  intro w hw
  rw [exec_bind]
  exact hf w hw w rfl

lemma ends_adapt {wrap : δ → ε} {x : Prog ω δ α} (h : Ends P x Q E) :
    Ends P (adapt wrap x) Q E := by
  intro w hw
  rw [exec_adapt]
  rcases hres : exec x w with ⟨e | a, w₁⟩
  · refine ⟨fun _ _ heq => by simp [Except.mapError] at heq, fun e' w' heq => ?_⟩
    simp only [Prod.mk.injEq] at heq
    rw [← heq.2]
    exact (h w hw).2 e w₁ hres
  · refine ⟨fun b w' heq => ?_, fun _ _ heq => by simp [Except.mapError] at heq⟩
    simp only [Except.mapError, Prod.mk.injEq, Except.ok.injEq] at heq
    rw [← heq.1, ← heq.2]
    exact (h w hw).1 a w₁ hres

/-- A loop keeps an invariant that its body keeps, in every outcome. -/
lemma ends_foldlM {f : α → β → Prog ω ε α} (h : ∀ a x, Ends I (f a x) (fun _ => I) I) (xs : List β)
    (a : α) : Ends I (xs.foldlM f a) (fun _ => I) I := by
  induction xs generalizing a with
  | nil => exact ends_pure fun _ hw => hw
  | cons x xs ih => exact ends_bind (h a x) fun b => ih b

lemma ends_forM (h : ∀ x, Ends I (f x) (fun _ => I) I) (xs : List β) :
    Ends I (xs.forM f) (fun _ => I) I := by
  induction xs with
  | nil => exact ends_pure fun _ hw => hw
  | cons x xs ih => exact ends_bind (h x) fun _ => ih

/-- `x` keeps `I`, whatever its outcome. -/
abbrev Always (I : ω → Prop) (x : Prog ω ε α) : Prop := Ends I x (fun _ => I) I

section Always

variable {I : ω → Prop}

lemma always_pure (a : α) : Always I (pure a : Prog ω ε α) := ends_pure fun _ h => h

lemma always_throw (e : ε) : Always I (throw e : Prog ω ε α) := ends_throw fun _ h => h

lemma always_modify {f : ω → ω} (h : ∀ w, I w → I (f w)) :
    Always I (modify f : Prog ω ε Unit) :=
  ends_modify h

lemma always_ofResult (wrap : δ → ε) (r : Except δ α) : Always I (ofResult wrap r : Prog ω ε α) :=
  (ends_ofResult wrap r fun _ h => h).mono (fun _ h => h) (fun _ _ h => h.1) fun _ h => h

lemma always_bind {f : α → Prog ω ε β} (hx : Always I x)
    (hf : ∀ a, Always I (f a)) : Always I (x >>= f) :=
  ends_bind hx hf

lemma always_get_bind {f : ω → Prog ω ε β} (hf : ∀ v, Always I (f v)) :
    Always I (get >>= f) :=
  ends_get_bind fun v hv => (hf v).mono (fun _ hw => hw ▸ hv) (fun _ _ h => h) fun _ h => h

lemma always_optionForM (o : Option β) (h : ∀ x, Always I (f x)) : Always I (o.forM f) := by
  cases o with
  | none => exact always_pure _
  | some x => exact h x

end Always

/-! #### Which errors -/

section Throws

variable {T : ε → Prop}

/-- Every error of `x` is in `T`. -/
def Throws (T : ε → Prop) (x : Prog ω ε α) : Prop := ∀ w e w', exec x w = (.error e, w') → T e

lemma throws_pure (a : α) : Throws T (pure a : Prog ω ε α) := by
  intro w e w' heq
  simp at heq

lemma throws_throw {e : ε} (h : T e) : Throws T (throw e : Prog ω ε α) := by
  intro w e' w' heq
  cases heq
  exact h

lemma throws_set (v : ω) : Throws T (set v : Prog ω ε PUnit) := by
  intro w e w' heq
  simp at heq

lemma throws_modify (f : ω → ω) : Throws T (modify f : Prog ω ε Unit) := by
  intro w e w' heq
  simp at heq

lemma throws_ofResult {wrap : δ → ε} (h : ∀ e, T (wrap e)) (r : Except δ α) :
    Throws T (ofResult wrap r : Prog ω ε α) := by
  intro w e w' heq
  cases r with
  | ok a => simp [ofResult] at heq
  | error d =>
    simp only [ofResult, exec_throw, Prod.mk.injEq, Except.error.injEq] at heq
    exact heq.1 ▸ h d

/-- An error of a sequence that its second part does not throw is one of the first part. -/
lemma exec_bind_error {f : α → Prog ω ε β} (hf : ∀ a, Throws T (f a)) {w w' : ω}
    {e : ε} (h : exec (x >>= f) w = (.error e, w')) (he : ¬ T e) : exec x w = (.error e, w') := by
  rw [exec_bind] at h
  rcases hres : exec x w with ⟨d | a, w₁⟩
  · rw [hres] at h
    cases h
    rfl
  · rw [hres] at h
    exact absurd (hf a w₁ e w' h) he

lemma throws_bind {f : α → Prog ω ε β} (hx : Throws T x)
    (hf : ∀ a, Throws T (f a)) : Throws T (x >>= f) := by
  intro w e w' heq
  by_contra he
  exact he (hx w e w' (exec_bind_error hf heq he))

lemma throws_get_bind {f : ω → Prog ω ε β} (hf : ∀ v, Throws T (f v)) :
    Throws T (get >>= f) := by
  intro w e w' heq
  rw [exec_bind] at heq
  exact hf w w e w' heq

lemma throws_forM (h : ∀ x, Throws T (f x)) (xs : List β) : Throws T (xs.forM f) := by
  induction xs with
  | nil => exact throws_pure _
  | cons x xs ih => exact throws_bind (h x) fun _ => ih

lemma throws_foldlM {f : α → β → Prog ω ε α} {xs : List β}
    (h : ∀ a, ∀ x ∈ xs, Throws T (f a x)) (a : α) : Throws T (xs.foldlM f a) := by
  induction xs generalizing a with
  | nil => exact throws_pure a
  | cons x xs ih =>
    refine throws_bind (h a x List.mem_cons_self) fun b => ?_
    exact ih (fun a y hy => h a y (List.mem_cons_of_mem x hy)) b

end Throws

end Failures

/-! ### A view of the state -/

section Views

variable {υ : Type} {view : ω → υ} {R T U : υ → υ → Prop}

/-- Whenever `x` succeeds, `R` relates the view of the state before to the one after. -/
def Moves (view : ω → υ) (x : Prog ω ε α) (R : υ → υ → Prop) : Prop :=
  ∀ w a w', exec x w = (.ok a, w') → R (view w) (view w')

/-- A success of `x` does not change the view. -/
def Keeps (view : ω → υ) (x : Prog ω ε α) : Prop := Moves view x fun v v' => v' = v

lemma keeps_pure (a : α) : Keeps view (pure a : Prog ω ε α) := by
  intro w b w' heq
  simp only [exec_pure, Prod.mk.injEq] at heq
  rw [heq.2]

lemma moves_throw (e : ε) : Moves view (throw e : Prog ω ε α) R := by
  intro w a w' heq
  simp at heq

lemma moves_modify {f : ω → ω} (h : ∀ w, R (view w) (view (f w))) :
    Moves view (modify f : Prog ω ε Unit) R := by
  intro w b w' heq
  simp only [exec_modify, Prod.mk.injEq] at heq
  rw [← heq.2]
  exact h w

lemma moves_modifyGet {f : ω → α × ω} (h : ∀ w, R (view w) (view (f w).2)) :
    Moves view (modifyGet f : Prog ω ε α) R := by
  intro w b w' heq
  simp only [exec_modifyGet, Prod.mk.injEq] at heq
  rw [← heq.2]
  exact h w

lemma moves_any : Moves view x fun _ _ => True := fun _ _ _ _ => trivial

lemma Moves.mono (h : Moves view x T) (hR : ∀ v v', T v v' → R v v') :
    Moves view x R :=
  fun w a w' heq => hR _ _ (h w a w' heq)

/-- What is seen of a view. -/
lemma Moves.of_view {υ' : Type} {R' : υ' → υ' → Prop} (h : Moves view x T)
    (f : υ → υ') (hR : ∀ v v', T v v' → R' (f v) (f v')) : Moves (fun w => f (view w)) x R' :=
  fun w a w' heq => hR _ _ (h w a w' heq)

/-- The rule of sequence. -/
lemma Moves.bind {f : α → Prog ω ε β} (hx : Moves view x T)
    (hf : ∀ a, Moves view (f a) U) (hR : ∀ u v v', T u v → U v v' → R u v') :
    Moves view (x >>= f) R := by
  intro w b w' heq
  rw [exec_bind] at heq
  rcases hres : exec x w with ⟨_ | a, w₁⟩
  · simp [hres] at heq
  · rw [hres] at heq
    exact hR _ _ _ (hx w a w₁ hres) (hf a w₁ b w' heq)

lemma Keeps.bind {f : α → Prog ω ε β} (hx : Keeps view x)
    (hf : ∀ a, Moves view (f a) R) : Moves view (x >>= f) R := by
  refine Moves.bind hx hf fun u v v' hv hR => ?_
  rw [← hv]
  exact hR

/-- Reading the state first: the program may use that it starts in what it has read. -/
lemma moves_get_bind {f : ω → Prog ω ε β}
    (hf : ∀ w, Moves view (f w) fun v v' => v = view w → R v v') : Moves view (get >>= f) R := by
  intro w b w' heq
  rw [exec_bind] at heq
  exact hf w w b w' heq rfl

/-- A program on a part of the state moves what is seen of that part. -/
lemma moves_within {ω' : Type} {part : ω → ω'} {put : ω → ω' → ω} {view' : ω' → υ}
    {x : Prog ω' ε α} (h : Moves view' x R) (hpart : ∀ w, view w = view' (part w))
    (hput : ∀ w v, view (put w v) = view' v) : Moves view (within part put x) R := by
  intro w a w' heq
  rw [exec_within, Prod.mk.injEq] at heq
  rw [hpart, ← heq.2, hput]
  exact h _ a _ (Prod.ext heq.1 rfl)

lemma Keeps.optionForM (o : Option β) (h : ∀ x, Keeps view (f x)) : Keeps view (o.forM f) := by
  cases o with
  | none => exact keeps_pure _
  | some x => exact h x

/-- A loop whose body maps the view by `g` folds `g` over it. -/
lemma moves_forM {g : υ → β → υ} (h : ∀ x, Moves view (f x) fun v v' => v' = g v x) (xs : List β) :
    Moves view (xs.forM f) fun v v' => v' = xs.foldl g v := by
  induction xs with
  | nil => exact keeps_pure _
  | cons x xs ih =>
    refine (h x).bind (fun _ => ih) fun u v v' hv hv' => ?_
    rw [hv', hv]
    rfl

end Views

/-! ### Steps of a relation -/

section Steps

variable {T : ω → ω → Prop}

/-- Every success of `x` is made of steps in `T`. -/
def Makes (T : ω → ω → Prop) (x : Prog ω ε α) : Prop :=
  ∀ w₀, Holds (Relation.ReflTransGen T w₀) x fun _ => Relation.ReflTransGen T w₀

/-- What every step keeps, the program keeps. -/
lemma Makes.holds (h : Makes T x) (hI : ∀ w w', T w w' → I w → I w') : Holds I x fun _ => I := by
  intro w hw a w' heq
  have hsteps := h w w .refl a w' heq
  clear heq
  induction hsteps with
  | refl => exact hw
  | tail _ hstep ih => exact hI _ _ hstep ih

lemma Makes.keeps {υ : Type} {view : ω → υ} (h : Makes T x)
    (hview : ∀ w w', T w w' → view w' = view w) : Keeps view x :=
  fun w a w' heq => h.holds (I := fun w' => view w' = view w)
    (fun _ _ hstep hw => (hview _ _ hstep).trans hw) w rfl a w' heq

end Steps

/-! ### Results -/

section Results

variable {δ : Type}

/-- A sequence succeeds when both of its parts do. -/
lemma bind_ok_iff (r : Except ε α) (k : α → Except ε β) (b : β) :
    r >>= k = .ok b ↔ ∃ a, r = .ok a ∧ k a = .ok b := by
  rcases r with e | a
  · constructor
    · intro h
      cases h
    · rintro ⟨_, h, -⟩
      cases h
  · refine ⟨fun h => ⟨a, rfl, h⟩, fun ⟨_, h, hk⟩ => ?_⟩
    cases h
    exact hk

lemma mapError_ok_iff (wrap : δ → ε) (r : Except δ α) (a : α) :
    r.mapError wrap = .ok a ↔ r = .ok a := by
  rcases r with e | b
  · simp [Except.mapError]
  · rw [Except.mapError, Except.ok.injEq, Except.ok.injEq]

lemma mapM_eq_ok {f : α → Except ε β} {xs : List α} {ys : List β} :
    xs.mapM f = .ok ys ↔ xs.map f = ys.map .ok := by
  induction xs generalizing ys with
  | nil => cases ys <;> simp [pure, Except.pure]
  | cons x xs ih =>
    rw [List.mapM_cons]
    simp only [bind_ok_iff, ih]
    constructor
    · rintro ⟨y, hy, zs, hzs, heq⟩
      cases heq
      simp [hy, hzs]
    · intro h
      rcases ys with _ | ⟨y, ys⟩
      · simp at h
      · simp only [List.map_cons, List.cons.injEq] at h
        exact ⟨y, h.1, ys, h.2, rfl⟩

/-- Where `f` succeeds everywhere, so does what agrees with it there. -/
lemma map_eq_map_ok {f : α → Except ε β} {g : α → Except δ β}
    (hfg : ∀ x y, f x = .ok y → g x = .ok y) {xs : List α} {ys : List β}
    (h : xs.map f = ys.map .ok) : xs.map g = ys.map .ok := by
  induction xs generalizing ys with
  | nil =>
    rw [List.map_nil, eq_comm, List.map_eq_nil_iff] at h
    rw [h]
    rfl
  | cons x xs ih =>
    rcases ys with _ | ⟨y, ys⟩
    · cases h
    · simp only [List.map_cons, List.cons.injEq] at h ⊢
      exact ⟨hfg x y h.1, ih h.2⟩

end Results

end Cacophony.Progs
