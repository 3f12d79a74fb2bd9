import Cacophony.KeyLifetime
import Cacophony.UserDecryptor

/-!
How long a superseded ratchet is consulted.

A transition gives every manager that is still there the same expiry, and puts the manager of the
new ratchet behind them. So the superseded managers expire together, and a later transition puts
their end off: the window of ten seconds is kept by the calls that do not do so.
-/

namespace Cacophony.RatchetRetention

open Gcm Cacophony.Frame Runs Ratchet Receiver
open UserDecryptor KeyLifetime SenderNonces Decryptor

/-! ### The calls -/

/-- How many managers the loop of `decrypt` asks. -/
def asked (A : Aead) (K : Kdf) (parsed : ParsedFrame) (now : Readings) :
    List ManagedRatchet → ℕ
  | [] => 0
  | m :: ms =>
    match (m.manager.decrypt A K parsed now).1 with
    | some (.error _) => asked A K parsed now ms + 1
    | _ => 1

/-- How many managers a call of `decrypt` consults, from the newest on. -/
def consulted (A : Aead) (K : Kdf) (d : Decryptor) (mediaType : MediaType) (frame : Bytes)
    (now : ℕ) : ℕ :=
  let d := d.cleanupExpiredManagers now
  let elapsed := d.elapsed now
  if mediaType = .audio ∧ frame = opusSilenceFrame then 0
  else
    match parse frame with
    | .error _ => 0
    | .ok parsed =>
      if parsed.encrypted then
        asked A K parsed ⟨elapsed, elapsed, elapsed, elapsed⟩ d.managers.reverse
      else 0

inductive Call
  | transitionToRatchet (secret : Bytes)
  | decrypt (mediaType : MediaType) (frame : Bytes) (capacity : ℕ)

/-- A call, and the instant it reads from the clock. -/
structure Event where
  call : Call
  now : ℕ

structure Transition where
  now : ℕ
  secret : Bytes
  deriving DecidableEq

/-- A decryptor, its transitions so far and the last reading of the clock. Ratchet `i` was added
by transition `i` and superseded by transition `i + 1`. -/
structure Log where
  decryptor : Decryptor
  transitions : List Transition := []
  last : ℕ

def start (passthrough : PlaintextPassthrough) (now : ℕ) : Log :=
  { decryptor := .withPlaintextPassthrough passthrough now, last := now }

variable (A : Aead) (K : Kdf)

/-- Ratchets come as `HashRatchet::new` makes them. -/
def step (s : Log) (e : Event) : Log :=
  match e.call with
  | .transitionToRatchet secret =>
    { decryptor := s.decryptor.transitionToRatchet (.new secret) e.now
      transitions := s.transitions ++ [⟨e.now, secret⟩]
      last := e.now }
  | .decrypt mediaType frame capacity =>
    { s with
      decryptor := (s.decryptor.decrypt A K mediaType frame capacity e.now).2
      last := e.now }

/-- Ratchet `i` is consulted by a call of `decrypt`: it is one of the newest that are. -/
def Consults (s : Log) (mediaType : MediaType) (frame : Bytes) (now i : ℕ) : Prop :=
  i < s.transitions.length ∧
    s.transitions.length ≤ i + consulted A K s.decryptor mediaType frame now

instance (s : Log) (mediaType : MediaType) (frame : Bytes) (now i : ℕ) :
    Decidable (Consults A K s mediaType frame now i) := inferInstanceAs (Decidable (_ ∧ _))

/-- The clock does not go back. -/
def Later (s : Log) (e : Event) : Prop := s.last ≤ e.now

instance (s : Log) (e : Event) : Decidable (Later s e) := inferInstanceAs (Decidable (_ ≤ _))

/-- A transition does not put off the expiry of a manager that has one already. -/
def Unextended (s : Log) (e : Event) : Prop :=
  match e.call with
  | .transitionToRatchet _ => ∀ m ∈ s.decryptor.managers, ∀ expiry ∈ m.ratchetExpiry,
      s.decryptor.elapsed e.now + ratchetExpiry ≤ expiry
  | .decrypt _ _ _ => True

instance (s : Log) : ∀ e, Decidable (Unextended s e)
  | ⟨.transitionToRatchet _, now⟩ => inferInstanceAs (Decidable
      (∀ m ∈ s.decryptor.managers, ∀ expiry ∈ m.ratchetExpiry,
        s.decryptor.elapsed now + ratchetExpiry ≤ expiry))
  | ⟨.decrypt _ _ _, _⟩ => inferInstanceAs (Decidable True)

variable {A K} {d : Decryptor} {now : ℕ} {parsed : ParsedFrame} {readings : Readings}

lemma asked_le (ms : List ManagedRatchet) : asked A K parsed readings ms ≤ ms.length := by
  induction ms with
  | nil => exact le_rfl
  | cons m ms ih =>
    unfold asked
    split
    · simpa using ih
    · simp

lemma consulted_le (d : Decryptor) (mediaType : MediaType) (frame : Bytes) (now : ℕ) :
    consulted A K d mediaType frame now ≤ (d.cleanupExpiredManagers now).managers.length := by
  unfold consulted
  dsimp only
  split
  · exact Nat.zero_le _
  split
  · exact Nat.zero_le _
  split
  · simpa using asked_le (A := A) (K := K) (d.cleanupExpiredManagers now).managers.reverse
  · exact Nat.zero_le _

/-! ### What `decrypt` does to the managers -/

/-- A manager has the keys of the ratchet of a transition. -/
def Belongs (K : Kdf) (m : ManagedRatchet) (x : Transition) : Prop :=
  ∃ k, Keeps K x.secret k m.manager

def Evolves (K : Kdf) (m m' : ManagedRatchet) : Prop :=
  m'.ratchetExpiry = m.ratchetExpiry ∧ ∀ x, Belongs K m x → Belongs K m' x

lemma Evolves.refl (m : ManagedRatchet) : Evolves K m m := ⟨rfl, fun _ h => h⟩

lemma evolves_decrypt (A : Aead) (parsed : ParsedFrame) (readings : Readings)
    (m : ManagedRatchet) :
    Evolves K m { m with manager := (m.manager.decrypt A K parsed readings).2 } :=
  ⟨rfl, fun _ ⟨_, hk⟩ => hk.decrypt A parsed readings⟩

lemma evolves_tryManagers (A : Aead) (parsed : ParsedFrame) (readings : Readings)
    (ms : List ManagedRatchet) (lastError : Option FrameDecryptError) :
    List.Forall₂ (Evolves K) ms (tryManagers A K parsed readings ms lastError).2 := by
  induction ms generalizing lastError with
  | nil => exact .nil
  | cons m ms ih =>
    have hm := evolves_decrypt (K := K) A parsed readings m
    have hrest : List.Forall₂ (Evolves K) ms ms := List.forall₂_same.mpr fun m _ => .refl m
    unfold tryManagers
    generalize m.manager.decrypt A K parsed readings = result at hm
    obtain ⟨_ | error | output, manager⟩ := result
    · exact .cons hm hrest
    · exact .cons hm (ih (some error))
    · exact .cons hm hrest

lemma evolves_managers (d : Decryptor) (mediaType : MediaType) (frame : Bytes)
    (capacity now : ℕ) :
    List.Forall₂ (Evolves K) (d.cleanupExpiredManagers now).managers
        (d.decrypt A K mediaType frame capacity now).2.managers ∧
      (d.decrypt A K mediaType frame capacity now).2.clock = d.clock := by
  have hsame : List.Forall₂ (Evolves K) (d.cleanupExpiredManagers now).managers
      (d.cleanupExpiredManagers now).managers := List.forall₂_same.mpr fun m _ => .refl m
  unfold Decryptor.decrypt
  dsimp only
  split
  · exact ⟨hsame, rfl⟩
  split
  · exact ⟨hsame, rfl⟩
  next parsed _ =>
    split
    · exact ⟨hsame, rfl⟩
    · let elapsed := (d.cleanupExpiredManagers now).elapsed now
      have htry := evolves_tryManagers (K := K) A parsed ⟨elapsed, elapsed, elapsed, elapsed⟩
        (d.cleanupExpiredManagers now).managers.reverse none
      rw [← List.forall₂_reverse_iff, List.reverse_reverse] at htry
      split <;> exact ⟨htry, rfl⟩

/-! ### The managers of a log -/

/-- The managers of the last transitions are there: `m` is the one of the newest ratchet, and the
others expire together at `expiry`. When `p` holds, this is in time for each of them. -/
structure Retains (K : Kdf) (p : Prop) (d : Decryptor) (transitions gone kept : List Transition)
    (x : Transition) (old : List ManagedRatchet) (m : ManagedRatchet) (expiry : ℕ) : Prop where
  managers_eq : d.managers = old ++ [m]
  transitions_eq : transitions = gone ++ (kept ++ [x])
  old_belongs : List.Forall₂ (Belongs K) old kept
  belongs : Belongs K m x
  old_expiry : ∀ o ∈ old, o.ratchetExpiry = some expiry
  newest_expiry : m.ratchetExpiry = none
  in_time : p → ∀ y ∈ (kept ++ [x]).tail, expiry ≤ y.now - d.clock + ratchetExpiry

/-- No ratchet yet, or the newest one is there. -/
def Retaining (K : Kdf) (p : Prop) (d : Decryptor) (transitions : List Transition) : Prop :=
  (transitions = [] ∧ d.managers = []) ∨
    ∃ gone kept x old m expiry, Retains K p d transitions gone kept x old m expiry

variable {p : Prop} {transitions gone kept : List Transition} {x : Transition}
  {old : List ManagedRatchet} {m : ManagedRatchet} {expiry : ℕ} {s : Log}

lemma Retaining.transition (h : Retaining K p d transitions) (secret : Bytes)
    (hunext : p → ∀ m ∈ d.managers, ∀ expiry ∈ m.ratchetExpiry,
      d.elapsed now + ratchetExpiry ≤ expiry) :
    Retaining K p (d.transitionToRatchet (.new secret) now)
      (transitions ++ [⟨now, secret⟩]) := by
  let superseded (m : ManagedRatchet) : ManagedRatchet :=
    { m with ratchetExpiry := some (d.elapsed now + ratchetExpiry) }
  let new : ManagedRatchet := { manager := .new (d.elapsed now) (.new secret) }
  have hnew : Belongs K new ⟨now, secret⟩ := ⟨0, keeps_new _⟩
  have hmanagers : (d.transitionToRatchet (.new secret) now).managers =
      d.managers.map superseded ++ [new] := rfl
  rcases h with ⟨rfl, hempty⟩ | ⟨gone, kept, x, old, m, expiry, h⟩
  · refine .inr ⟨[], [], ⟨now, secret⟩, [], new, 0, ?_, rfl, .nil, hnew, by simp, rfl, by simp⟩
    rw [hmanagers, hempty]
    rfl
  · refine .inr ⟨gone, kept ++ [x], ⟨now, secret⟩, (old ++ [m]).map superseded, new,
      d.elapsed now + ratchetExpiry, ?_, ?_, ?_, hnew, ?_, rfl, fun hp => ?_⟩
    · rw [hmanagers, h.managers_eq]
    · rw [h.transitions_eq, List.append_assoc]
    · rw [List.forall₂_map_left_iff]
      exact List.rel_append h.old_belongs (.cons h.belongs .nil)
    · intro o ho
      obtain ⟨o, -, rfl⟩ := List.mem_map.mp ho
      rfl
    · intro y hy
      rw [List.tail_append_of_ne_nil (by simp)] at hy
      rcases List.mem_append.mp hy with hy | hy
      · -- one of them was superseded before, so its expiry was not put off
        obtain ⟨o, ho⟩ : ∃ o, o ∈ old := by
          rcases h.old_belongs with _ | ⟨-, -⟩
          · simp at hy
          · exact ⟨_, List.mem_cons_self⟩
        have hold := hunext hp o (by simp [h.managers_eq, ho]) expiry (h.old_expiry o ho)
        exact hold.trans (h.in_time hp y hy)
      · rw [List.mem_singleton.mp hy]
        exact le_rfl

/-- The cleanup drops all superseded managers or none. -/
lemma Retains.cleanup (h : Retains K p d transitions gone kept x old m expiry) (now : ℕ) :
    (d.elapsed now ≤ expiry ∧
      Retains K p (d.cleanupExpiredManagers now) transitions gone kept x old m expiry) ∨
    Retains K p (d.cleanupExpiredManagers now) transitions (gone ++ kept) [] x [] m expiry := by
  have hm : m.expired (d.elapsed now) = false := by simp [ManagedRatchet.expired, h.newest_expiry]
  have hold : ∀ o ∈ old, o.expired (d.elapsed now) = decide (expiry < d.elapsed now) := by
    intro o ho
    simp [ManagedRatchet.expired, h.old_expiry o ho]
  have hcleanup : (d.cleanupExpiredManagers now).managers =
      (old ++ [m]).dropWhile fun m => m.expired (d.elapsed now) := by
    rw [← h.managers_eq]
    rfl
  by_cases hexp : expiry < d.elapsed now
  · refine .inr ⟨?_, ?_, .nil, h.belongs, by simp, h.newest_expiry, by simp⟩
    · rw [hcleanup, List.dropWhile_append_of_pos fun o ho => by simp [hold o ho, hexp]]
      simp [hm]
    · rw [h.transitions_eq]
      simp
  · refine .inl ⟨not_lt.mp hexp, ?_, h.transitions_eq, h.old_belongs, h.belongs, h.old_expiry,
      h.newest_expiry, h.in_time⟩
    rw [hcleanup]
    rcases old with _ | ⟨o, old⟩
    · simp [hm]
    · have := hold o List.mem_cons_self
      simp [this, hexp]

/-- Managers that have evolved have what they had. -/
lemma forall₂_of_evolves {old' : List ManagedRatchet} (h : List.Forall₂ (Evolves K) old old')
    (hold : List.Forall₂ (fun o y => o.ratchetExpiry = some expiry ∧ Belongs K o y) old kept) :
    List.Forall₂ (fun o y => o.ratchetExpiry = some expiry ∧ Belongs K o y) old' kept := by
  induction h generalizing kept with
  | nil => exact hold
  | cons hstep _ ih =>
    obtain ⟨y, kept, ⟨he, hb⟩, hrest, rfl⟩ := List.forall₂_cons_left_iff.mp hold
    exact .cons ⟨hstep.1.trans he, hstep.2 y hb⟩ (ih hrest)

lemma Retains.evolves {d' : Decryptor}
    (h : Retains K p d transitions gone kept x old m expiry)
    (hmanagers : List.Forall₂ (Evolves K) d.managers d'.managers) (hclock : d'.clock = d.clock) :
    ∃ old' m', Retains K p d' transitions gone kept x old' m' expiry := by
  rw [h.managers_eq, ← List.forall₂_reverse_iff, List.reverse_append, List.reverse_singleton,
    List.singleton_append] at hmanagers
  obtain ⟨m', old', hm, hold, heq⟩ := List.forall₂_cons_left_iff.mp hmanagers
  rw [← List.forall₂_reverse_iff, List.reverse_reverse] at hold
  have hmanagers' : d'.managers = old'.reverse ++ [m'] := by
    rw [← List.reverse_cons, ← heq, List.reverse_reverse]
  obtain ⟨hexpiry, hbelongs⟩ := (List.forall₂_and_left _ _).mp
    (forall₂_of_evolves hold ((List.forall₂_and_left _ _).mpr ⟨h.old_expiry, h.old_belongs⟩))
  exact ⟨old'.reverse, m', hmanagers', h.transitions_eq, hbelongs, hm.2 x h.belongs, hexpiry,
    hm.1.trans h.newest_expiry, by rw [hclock]; exact h.in_time⟩

lemma Retaining.cleanup (h : Retaining K p d transitions) (now : ℕ) :
    Retaining K p (d.cleanupExpiredManagers now) transitions := by
  rcases h with ⟨ht, hempty⟩ | ⟨gone, kept, x, old, m, expiry, h⟩
  · exact .inl ⟨ht, by simp [cleanupExpiredManagers, hempty]⟩
  · rcases h.cleanup now with ⟨-, h⟩ | h
    · exact .inr ⟨_, _, _, _, _, _, h⟩
    · exact .inr ⟨_, _, _, _, _, _, h⟩

lemma Retaining.decrypt (h : Retaining K p d transitions) (mediaType : MediaType) (frame : Bytes)
    (capacity now : ℕ) :
    Retaining K p (d.decrypt A K mediaType frame capacity now).2 transitions := by
  obtain ⟨hevolves, hclock⟩ :=
    evolves_managers (A := A) (K := K) d mediaType frame capacity now
  rcases h.cleanup now with ⟨ht, hempty⟩ | ⟨gone, kept, x, old, m, expiry, h⟩
  · rw [hempty, List.forall₂_nil_left_iff] at hevolves
    exact .inl ⟨ht, hevolves⟩
  · obtain ⟨old', m', h'⟩ := h.evolves hevolves hclock
    exact .inr ⟨_, _, _, _, _, _, h'⟩

lemma Retaining.step {e : Event} (h : Retaining K p s.decryptor s.transitions)
    (hunext : p → Unextended s e) :
    Retaining K p (step A K s e).decryptor (step A K s e).transitions := by
  obtain ⟨call, now⟩ := e
  cases call with
  | transitionToRatchet secret =>
    exact h.transition secret hunext
  | decrypt mediaType frame capacity =>
    exact h.decrypt mediaType frame capacity now

/-- The clock has been read behind its start. -/
structure Timely (s : Log) : Prop where
  last : s.decryptor.clock ≤ s.last
  transitions : ∀ x ∈ s.transitions, s.decryptor.clock ≤ x.now

lemma Timely.step {e : Event} (h : Timely s) (hlater : Later s e) : Timely (step A K s e) := by
  obtain ⟨call, now⟩ := e
  cases call with
  | transitionToRatchet secret =>
    refine ⟨h.last.trans hlater, fun x hx => ?_⟩
    rcases List.mem_append.mp hx with hx | hx
    · exact h.transitions x hx
    · rw [List.mem_singleton.mp hx]
      exact h.last.trans hlater
  | decrypt mediaType frame capacity =>
    have hclock := (evolves_managers (A := A) (K := K) s.decryptor mediaType frame capacity now).2
    refine ⟨?_, ?_⟩
    · exact hclock.trans_le (h.last.trans hlater)
    · exact fun x hx => hclock.trans_le (h.transitions x hx)

/-! ### Runs -/

lemma retaining_run (passthrough : PlaintextPassthrough) (createdAt : ℕ) (events : List Event)
    (h : p → Along (step A K) Unextended (start passthrough createdAt) events) :
    Retaining K p (run (step A K) (start passthrough createdAt) events).decryptor
      (run (step A K) (start passthrough createdAt) events).transitions := by
  by_cases hp : p
  · exact run_inv (I := fun s : Log => Retaining K p s.decryptor s.transitions)
      (fun s e hs he => hs.step fun _ => he) (.inl ⟨rfl, rfl⟩) (h hp)
  · exact run_inv_of_step (I := fun s : Log => Retaining K p s.decryptor s.transitions)
      (fun s e hs => hs.step fun hp' => absurd hp' hp) events (.inl ⟨rfl, rfl⟩)

lemma timely_run {passthrough : PlaintextPassthrough} {createdAt : ℕ} {events : List Event}
    (h : Along (step A K) Later (start passthrough createdAt) events) :
    Timely (run (step A K) (start passthrough createdAt) events) :=
  run_inv (fun _ _ hs he => hs.step he) ⟨le_rfl, by simp [start]⟩ h

/-- A ratchet that is consulted is superseded for ten seconds at most. -/
lemma Retaining.consults_le (h : Retaining K True s.decryptor s.transitions) (ht : Timely s)
    {mediaType : MediaType} {frame : Bytes} {i : ℕ} {y : Transition}
    (hi : Consults A K s mediaType frame now i) (hy : s.transitions[i + 1]? = some y) :
    now ≤ y.now + ratchetExpiry := by
  obtain ⟨-, hlen⟩ := hi
  have hy' := (List.getElem?_eq_some_iff.mp hy).1
  have hcons := consulted_le (A := A) (K := K) s.decryptor mediaType frame now
  rcases h with ⟨hnone, -⟩ | ⟨gone, kept, x, old, m, expiry, h⟩
  · simp [hnone] at hy'
  rcases h.cleanup now with ⟨hexp, h'⟩ | h'
  · have hlen' : s.transitions.length ≤ i + (old.length + 1) := by
      rw [h'.managers_eq, List.length_append, List.length_singleton] at hcons
      omega
    -- transition `i + 1` is behind the first one whose manager is there
    have hmem : y ∈ (kept ++ [x]).tail := by
      have heq := h.transitions_eq
      have hkept := h.old_belongs.length_eq
      rw [heq, List.length_append, List.length_append, List.length_singleton] at hlen'
      rw [heq, List.getElem?_append_right (by omega)] at hy
      have htail : (kept ++ [x]).tail[i + 1 - gone.length - 1]? = some y := by
        rw [List.getElem?_tail, Nat.sub_add_cancel (by omega)]
        exact hy
      exact List.mem_of_getElem? htail
    have htime := h.in_time trivial y hmem
    have hclock := ht.transitions y (List.mem_of_getElem? hy)
    simp only [elapsed] at hexp
    omega
  · -- only the newest is left, and it is not superseded
    rw [h'.managers_eq, List.nil_append, List.length_singleton] at hcons
    omega

/-- **Retention.** The newest ratchet is always there, with its keys, and the others that are
there are the ones before it. In a run that never puts an expiry off, a ratchet that a later one
has superseded is consulted for ten seconds at most. -/
theorem superseded_not_consulted (A : Aead) (K : Kdf) (passthrough : PlaintextPassthrough)
    (createdAt : ℕ) (events : List Event)
    (hlater : Along (step A K) Later (start passthrough createdAt) events) :
    (∃ gone kept, (run (step A K) (start passthrough createdAt) events).transitions =
        gone ++ kept ∧
      List.Forall₂ (Belongs K)
        (run (step A K) (start passthrough createdAt) events).decryptor.managers kept ∧
      ((run (step A K) (start passthrough createdAt) events).transitions ≠ [] → kept ≠ [])) ∧
    (Along (step A K) Unextended (start passthrough createdAt) events →
      ∀ mediaType frame now i y,
        (run (step A K) (start passthrough createdAt) events).transitions[i + 1]? = some y →
        Consults A K (run (step A K) (start passthrough createdAt) events) mediaType frame now i →
        now ≤ y.now + ratchetExpiry) := by
  constructor
  · rcases retaining_run (p := False) (A := A) (K := K) passthrough createdAt events
      (fun h => h.elim) with
      ⟨hnone, hempty⟩ | ⟨gone, kept, x, old, m, expiry, h⟩
    · exact ⟨[], [], hnone, by rw [hempty]; exact .nil, fun h => absurd hnone h⟩
    · refine ⟨gone, kept ++ [x], h.transitions_eq, ?_, by simp⟩
      rw [h.managers_eq]
      exact List.rel_append h.old_belongs (.cons h.belongs .nil)
  · intro hunext mediaType frame now i y hy hi
    exact (retaining_run (p := True) _ _ _ fun _ => hunext).consults_le (timely_run hlater) hi hy

def second : ℕ := 10 ^ 9

/-- The first ratchet is gone when the third one comes. -/
def apart : List Event :=
  [⟨.transitionToRatchet [1], 0⟩, ⟨.transitionToRatchet [2], second⟩,
    ⟨.decrypt .video [0] 0, 12 * second⟩, ⟨.transitionToRatchet [3], 13 * second⟩]

/-- A frame of the ratchet `[1]`: its tag is the key. -/
def frameOfFirst : Bytes := 9 :: List.replicate 8 1 ++ [1, 12, 0xFA, 0xFA]

theorem superseded_not_consulted_apart :
    Along (step toyAead toyKdf) Later (start (.disabled 0) 0) apart ∧
    Along (step toyAead toyKdf) Unextended (start (.disabled 0) 0) apart ∧
    Consults toyAead toyKdf (run (step toyAead toyKdf) (start (.disabled 0) 0) apart) .audio
      frameOfFirst (20 * second) 1 ∧
    20 * second ≤ 13 * second + ratchetExpiry := by
  have hlater : Along (step toyAead toyKdf) Later (start (.disabled 0) 0) apart := by
    decide +kernel
  have hunext : Along (step toyAead toyKdf) Unextended (start (.disabled 0) 0) apart := by
    decide +kernel
  have hconsults : Consults toyAead toyKdf
      (run (step toyAead toyKdf) (start (.disabled 0) 0) apart) .audio frameOfFirst
      (20 * second) 1 := by
    decide +kernel
  exact ⟨hlater, hunext, hconsults,
    (superseded_not_consulted toyAead toyKdf (.disabled 0) 0 apart hlater).2 hunext .audio
      frameOfFirst (20 * second) 1 ⟨13 * second, [3]⟩ (by decide +kernel) hconsults⟩

/-- A toy AEAD whose tag is the key. -/
def keyedAead : Aead where
  encrypt k _ _ b := if tagBytes ≤ k.length then some (b, k.take tagBytes) else none
  decrypt k _ _ b t := if t = k.take tagBytes then some b else none
  length_encrypt := by
    intro k n a b c t h
    split at h
    next hk =>
      obtain ⟨rfl, rfl⟩ := Prod.mk.inj (Option.some.inj h)
      exact ⟨rfl, by simpa using hk⟩
    next => exact absurd h (by simp)
  decrypt_encrypt := by
    intro k n a b c t h
    split at h
    next hk =>
      obtain ⟨rfl, rfl⟩ := Prod.mk.inj (Option.some.inj h)
      simp
    next => exact absurd h (by simp)

/-- The third ratchet comes eight seconds behind the second one. -/
def close : List Event :=
  [⟨.transitionToRatchet [1], 0⟩, ⟨.transitionToRatchet [2], second⟩,
    ⟨.transitionToRatchet [3], 9 * second⟩]

/-- The first ratchet decrypts a frame fourteen seconds after the second one superseded it. -/
theorem superseded_ratchet_decrypts :
    Along (step keyedAead toyKdf) Later (start (.disabled 0) 0) close ∧
    (run (step keyedAead toyKdf) (start (.disabled 0) 0) close).transitions[1]? =
      some ⟨second, [2]⟩ ∧
    Consults keyedAead toyKdf (run (step keyedAead toyKdf) (start (.disabled 0) 0) close) .audio
      frameOfFirst (15 * second) 0 ∧
    ((run (step keyedAead toyKdf) (start (.disabled 0) 0) close).decryptor.decrypt keyedAead
      toyKdf .audio frameOfFirst 0 (15 * second)).1 = some (.ok [9]) ∧
    ¬ 15 * second ≤ second + ratchetExpiry := by
  decide +kernel

end Cacophony.RatchetRetention
