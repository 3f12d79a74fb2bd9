import Cacophony.PlayoutRuns

/-!
A playout that waits for DAVE.

While DAVE is required and not ready no frame is sent, so `next_send_at` stays where it was. The
time the loop over stale frames has made up for is kept in a local variable: the next call, at the
same instant too, finds the playout as late as before and drops as many frames again. Over a wait
in which only one call finds stale frames, no more are dropped than the wait is long.
-/

namespace Cacophony.Playout

open Runs

variable {ε π : Type}

/-- A call of `resolve_active_playout` while DAVE is required and not ready. -/
structure Wakeup (ε π : Type) where
  delay : ℕ
  env : Surroundings ε π
  waits : (env.requiresDave && !env.mediaReady) = true

def wake (h : History ε π) (w : Wakeup ε π) : History ε π := step h ⟨w.delay, .resolve w.env⟩

/-- The first of several frames is three frame durations late or more. -/
def Stale (p : ActiveOpusPlayout π) (now : ℕ) : Prop :=
  1 < p.frames.length ∧ ∃ due, p.nextSendAt = some due ∧ due + 3 * blockDuration ≤ now

/-- How many frames have become due since `next_send_at`. -/
def backlog (p : ActiveOpusPlayout π) (now : ℕ) : ℕ :=
  p.nextSendAt.elim 0 fun due => (now - due) / blockDuration

lemma backlog_mono (p : ActiveOpusPlayout π) {now later : ℕ} (h : now ≤ later) :
    backlog p now ≤ backlog p later := by
  unfold backlog
  cases p.nextSendAt with
  | none => exact le_rfl
  | some due => exact Nat.div_le_div_right (Nat.sub_le_sub_right h due)

/-- No frame has been dropped in this wait yet, or the call finds none to drop. -/
def DropsOnce (h : History ε π) (w : Wakeup ε π) : Prop :=
  staleCount h.events = 0 ∨ ∀ p, h.playout = some p → ¬ Stale p (h.now + w.delay)

variable {env : Surroundings ε π} {now : ℕ} {p : ActiveOpusPlayout π}

/-! ### One call -/

lemma staleCount_end (answer : Except (Error ε) (OpusPlayoutStats π)) :
    staleCount (endPlayout env p answer).events = 0 := by
  obtain ⟨error, heq⟩ | ⟨es, hes, heq⟩ := endPlayout_cases env p answer
  · cases h : p.finishResponse <;> simp [heq, Outcome.abort, h, Event.isStale]
  · rcases hes with rfl | rfl <;> cases h : p.finishResponse <;> simp [heq, h, Event.isStale]

lemma wait_spec (env : Surroundings ε π) (now : ℕ) (p : ActiveOpusPlayout π) :
    staleCount (waitForDave env now p).events = 0 ∧ ∀ q, (waitForDave env now p).active = some q →
      q.nextSendAt = p.nextSendAt ∧ q.frames = p.frames := by
  dsimp only [waitForDave]
  split
  · refine ⟨staleCount_end _, fun q hq => ?_⟩
    rw [failPlayout, active_end] at hq
    cases hq
  · refine ⟨rfl, fun q hq => ?_⟩
    cases hq
    exact ⟨rfl, rfl⟩

/-- A call drops frames if the first is stale, not more than have become due, and moves nothing
else. -/
structure Waited (now : ℕ) (p : ActiveOpusPlayout π) (o : Outcome ε π) : Prop where
  count_le : staleCount o.events ≤ backlog p now
  count_ne_zero_iff : staleCount o.events ≠ 0 ↔ Stale p now
  nextSendAt_eq : ∀ q, o.active = some q → q.nextSendAt = p.nextSendAt
  frames_eq : ∀ q, o.active = some q → staleCount o.events = 0 → q.frames = p.frames

lemma waited_of_fresh {o : Outcome ε π} (hcount : staleCount o.events = 0) (h : ¬ Stale p now)
    (hactive : ∀ q, o.active = some q → q = p) : Waited now p o where
  count_le := by omega
  count_ne_zero_iff := iff_of_false (by simp [hcount]) h
  nextSendAt_eq := fun q hq => by rw [hactive q hq]
  frames_eq := fun q hq _ => by rw [hactive q hq]

lemma stale_iff : Stale p now ↔ 3 * blockDuration ≤ now - p.dueAt now ∧ 1 < p.frames.length := by
  have hd := blockDuration_pos
  unfold Stale ActiveOpusPlayout.dueAt
  cases p.nextSendAt with
  | none => simp; omega
  | some due => simp; omega

lemma waited (now : ℕ) (p : ActiveOpusPlayout π)
    (hwait : (env.requiresDave && !env.mediaReady) = true) :
    Waited now p (resolvePlayout env now p) := by
  have hres := resolves env now p
  generalize resolvePlayout env now p = o at hres ⊢
  cases hres with
  | completes hready =>
    refine waited_of_fresh (staleCount_end _) ?_ fun q hq => ?_
    · rintro ⟨hlen, -⟩
      simp [frames_of_ready hready] at hlen
    · rw [completePlayout, active_end] at hq
      cases hq
  | idle h =>
    refine waited_of_fresh rfl ?_ fun q hq => by cases hq; rfl
    rw [stale_iff]
    rintro ⟨hlate, hlen⟩
    have hd := blockDuration_pos
    rcases h with h | h
    · simp [h] at hlen
    · omega
  | @waits q dropped due hwait hframes h =>
    obtain ⟨hzero, hkeeps⟩ := wait_spec env now q
    have hcount : staleCount (Outcome.prepend (dropped.map .stale) (waitForDave env now q)).events =
        dropped.length := by
      simp [Outcome.prepend, hzero]
    refine ⟨?_, ?_, fun r hr => ?_, fun r hr hnone => ?_⟩
    · rw [hcount, backlog]
      have hspent := (Nat.le_div_iff_mul_le blockDuration_pos).mpr h.spent
      rw [ActiveOpusPlayout.dueAt] at hspent
      cases hnext : p.nextSendAt with
      | none => simpa [hnext] using hspent
      | some due => simpa [hnext] using hspent
    · rw [hcount, stale_iff, ← h.dropped_iff, ne_eq, List.length_eq_zero_iff]
    · rw [(hkeeps r hr).1, h.nextSendAt_eq]
    · rw [hcount, List.length_eq_zero_iff] at hnone
      rw [(hkeeps r hr).2, h.frames_eq, hnone, List.nil_append]
  | sends hsend => rw [hwait] at hsend; cases hsend

/-! ### A wait -/

/-- What a wait keeps: `next_send_at`, and the bound. -/
def Bounded (p : ActiveOpusPlayout π) (h : History ε π) : Prop :=
  (∀ q, h.playout = some q → q.nextSendAt = p.nextSendAt) ∧ staleCount h.events ≤ backlog p h.now

section Step

variable {h : History ε π} (w v : Wakeup ε π)

lemma wake_none (hp : h.playout = none) : wake h w = { h with now := h.now + w.delay } :=
  step_none _ hp

lemma wake_some (hp : h.playout = some p) : wake h w =
    { now := h.now + w.delay
      playout := (resolvePlayout w.env (h.now + w.delay) p).active
      pushed := h.pushed
      events := h.events ++ (resolvePlayout w.env (h.now + w.delay) p).events } := by
  rw [wake, step_some _ hp]
  simp [Op.pushed]

/-- Where no frame is stale, none is dropped. -/
lemma staleCount_wake (hfresh : ∀ p, h.playout = some p → ¬ Stale p (h.now + w.delay)) :
    staleCount (wake h w).events = staleCount h.events := by
  rcases hp : h.playout with _ | p
  · rw [wake_none w hp]
  · rw [wake_some w hp, staleCount_append]
    have hzero : staleCount (resolvePlayout w.env (h.now + w.delay) p).events = 0 := by
      by_contra hne
      exact hfresh p hp ((waited _ p w.waits).count_ne_zero_iff.mp hne)
    rw [hzero, Nat.add_zero]

lemma Bounded.wake (hb : Bounded p h) (honce : DropsOnce h w) : Bounded p (wake h w) := by
  obtain ⟨hnext, hcount⟩ := hb
  have hmono := backlog_mono p (Nat.le_add_right h.now w.delay)
  rcases hp : h.playout with _ | q
  · rw [wake_none w hp]
    exact ⟨hnext, hcount.trans hmono⟩
  · have hw := waited (h.now + w.delay) q w.waits
    have hq : backlog q = backlog p := by
      unfold backlog
      rw [hnext q hp]
    refine ⟨fun r hr => ?_, ?_⟩
    · rw [wake_some w hp] at hr
      exact (hw.nextSendAt_eq r hr).trans (hnext q hp)
    · rcases honce with hzero | hfresh
      · rw [wake_some w hp, staleCount_append, hzero, Nat.zero_add, ← hq]
        exact hw.count_le
      · rw [staleCount_wake w hfresh, wake_some w hp]
        exact hcount.trans hmono

/-- A call that has dropped no frame leaves none that is stale at its instant. -/
lemma not_stale_of_wake {r : ActiveOpusPlayout π} (hr : (wake h w).playout = some r)
    (hcount : staleCount (wake h w).events = 0) : ¬ Stale r (h.now + w.delay) := by
  rcases hp : h.playout with _ | q
  · rw [wake_none w hp, hp] at hr
    cases hr
  · rw [wake_some w hp] at hr hcount
    have hw := waited (h.now + w.delay) q w.waits
    have hzero : staleCount (resolvePlayout w.env (h.now + w.delay) q).events = 0 := by
      rw [staleCount_append] at hcount
      omega
    have hsame : Stale r (h.now + w.delay) ↔ Stale q (h.now + w.delay) := by
      rw [Stale, hw.frames_eq r hr hzero, hw.nextSendAt_eq r hr, Stale]
    rw [hsame, ← hw.count_ne_zero_iff]
    exact fun hne => hne hzero

/-- A second call at the same instant. -/
lemma staleCount_again (hv : v.delay = 0) (honce : DropsOnce (wake h w) v) :
    staleCount (wake (wake h w) v).events = staleCount (wake h w).events := by
  refine staleCount_wake v fun r hr => ?_
  rcases honce with hzero | hfresh
  · have hnow : (Playout.wake h w).now = h.now + w.delay := step_now _
    rw [hnow, hv, Nat.add_zero]
    exact not_stale_of_wake w hr hzero
  · exact hfresh r hr

end Step

/-- In a wait in which one call at most finds stale frames, no more frames are dropped than have
become due since `next_send_at`, and a second call at the same instant drops none. -/
theorem staleCount_le_backlog (p : ActiveOpusPlayout π) (now : ℕ) (wakeups : List (Wakeup ε π))
    (honce : Along wake DropsOnce (begin p now) wakeups) :
    staleCount (run wake (begin p now) wakeups).events ≤
        backlog p (run wake (begin p now) wakeups).now ∧
      ∀ pre w v post, wakeups = pre ++ w :: v :: post → v.delay = 0 →
        staleCount (run wake (begin p now) (pre ++ [w, v])).events =
          staleCount (run wake (begin p now) (pre ++ [w])).events := by
  constructor
  · have hstart : Bounded p (begin p now : History ε π) := by
      refine ⟨fun q hq => ?_, Nat.zero_le _⟩
      cases hq
      rfl
    exact (run_inv (fun h w hb => hb.wake w) hstart honce).2
  · rintro pre w v post rfl hv
    have hv' := along_iff.mp honce (pre ++ [w]) v post (by simp)
    simp only [run_append, run_cons, run_nil] at hv' ⊢
    exact staleCount_again w v hv hv'

/-! A playout of `n` frames, the first of which was due at the start of the clock. -/

def latePlayout (n : ℕ) : ActiveOpusPlayout Unit where
  id := 1
  startedAt := 0
  frames := List.replicate n (.packet ⟨[0xf8, 0xff, 0xfe]⟩)
  nextSendAt := some 0
  mediaReadyDeadline := none
  finishResponse := none
  speaking := true
  stats := {}

/-- A call at the same instant as the one before. -/
def wakeAgain : Wakeup Unit Unit where
  delay := 0
  env :=
    { requiresDave := true
      mediaReady := false
      mediaReadyTimeout := 10000000000
      sendSpeaking := fun _ => .ok ()
      sendReadyOpusPacket := fun _ _ => .ok ()
      sendElapsed := 0 }
  waits := rfl

/-- With two frames the first call drops one, the second finds the last. -/
theorem staleCount_two_frames :
    staleCount (run wake (begin (latePlayout 2) 60000000) [wakeAgain, wakeAgain]).events = 1 ∧
      staleCount (run wake (begin (latePlayout 2) 60000000) [wakeAgain, wakeAgain]).events ≤ 3 := by
  have honce : Along wake DropsOnce (begin (latePlayout 2) 60000000) [wakeAgain, wakeAgain] := by
    refine ⟨.inl rfl, .inr fun p hp ⟨hlen, _⟩ => ?_, trivial⟩
    have hone : (wake (begin (latePlayout 2) 60000000) wakeAgain).playout.map (·.frames.length) =
        some 1 := by decide +kernel
    rw [hp, Option.map_some, Option.some.injEq] at hone
    omega
  exact ⟨by decide +kernel, (staleCount_le_backlog _ _ _ honce).1.trans (by decide +kernel)⟩

/-- Three frames have become due after 60 ms, and every call drops one: four calls at that instant
drop four. -/
theorem wait_drops_again :
    staleCount (run wake (begin (latePlayout 7) 60000000)
        [wakeAgain, wakeAgain, wakeAgain, wakeAgain]).events = 4 ∧
      backlog (latePlayout 7) 60000000 = 3 ∧
      staleCount (run wake (begin (latePlayout 7) 60000000) [wakeAgain]).events = 1 ∧
      staleCount (run wake (begin (latePlayout 7) 60000000) [wakeAgain, wakeAgain]).events = 2 := by
  decide +kernel

end Cacophony.Playout
