import Cacophony.Playout
import Cacophony.Runs
import Mathlib.Tactic.Linarith

/-!
What becomes of the frames of a playout, and when they are sent.

Every frame that is pushed is sent, dropped as stale, discarded with its playout, or waits. A frame
is sent less than three frame durations after it was due, and the next one is due a frame duration
later or more; so however late the driver wakes, it never sends three frames more than real time
has room for.
-/

namespace Cacophony.Playout

open Runs

variable {ε π : Type}

/-! ### Frames in events -/

/-- The frames that an event takes out of a playout. -/
def Event.frames : Event ε π → List PlayoutFrame
  | .sent frame _ => [frame]
  | .stale frame => [frame]
  | .discarded frames => frames
  | _ => []

def Event.sent? : Event ε π → Option (PlayoutFrame × ℕ)
  | .sent frame now => some (frame, now)
  | _ => none

def Event.discards : Event ε π → List PlayoutFrame
  | .discarded frames => frames
  | _ => []

def Event.isStale : Event ε π → Bool
  | .stale _ => true
  | _ => false

/-- The events hand out these statistics. -/
def Reports (events : List (Event ε π)) (stats : OpusPlayoutStats π) : Prop :=
  ∃ response, Event.finished response (.ok stats) ∈ events

/-- The frames that are sent, with the times. -/
def sends (events : List (Event ε π)) : List (PlayoutFrame × ℕ) := events.filterMap Event.sent?

def staleCount (events : List (Event ε π)) : ℕ := events.countP Event.isStale

def taken (events : List (Event ε π)) : List PlayoutFrame := events.flatMap Event.frames

/-- The frames that go with their playout. -/
def lost (events : List (Event ε π)) : List PlayoutFrame := events.flatMap Event.discards

def queued (active : Option (ActiveOpusPlayout π)) : List PlayoutFrame :=
  active.elim [] ActiveOpusPlayout.frames

section Events

variable {e : Event ε π} {es fs : List (Event ε π)} {stats : OpusPlayoutStats π}

@[simp] lemma sends_nil : sends ([] : List (Event ε π)) = [] := rfl
@[simp] lemma staleCount_nil : staleCount ([] : List (Event ε π)) = 0 := rfl
@[simp] lemma taken_nil : taken ([] : List (Event ε π)) = [] := rfl
@[simp] lemma lost_nil : lost ([] : List (Event ε π)) = [] := rfl
@[simp] lemma not_reports_nil : ¬ Reports ([] : List (Event ε π)) stats := by simp [Reports]

@[simp] lemma sends_cons : sends (e :: es) = e.sent?.toList ++ sends es := by
  rw [sends, List.filterMap_cons]
  cases e.sent? <;> rfl

@[simp] lemma staleCount_cons : staleCount (e :: es) = staleCount es + e.isStale.toNat := by
  rw [staleCount, List.countP_cons, staleCount]
  cases e.isStale <;> rfl

@[simp] lemma taken_cons : taken (e :: es) = e.frames ++ taken es := rfl
@[simp] lemma lost_cons : lost (e :: es) = e.discards ++ lost es := rfl

@[simp] lemma reports_cons : Reports (e :: es) stats ↔
    (∃ response, e = .finished response (.ok stats)) ∨ Reports es stats := by
  simp [Reports, exists_or, eq_comm]

@[simp] lemma sends_append : sends (es ++ fs) = sends es ++ sends fs := List.filterMap_append
@[simp] lemma staleCount_append : staleCount (es ++ fs) = staleCount es + staleCount fs :=
  List.countP_append
@[simp] lemma taken_append : taken (es ++ fs) = taken es ++ taken fs := List.flatMap_append
@[simp] lemma lost_append : lost (es ++ fs) = lost es ++ lost fs := List.flatMap_append
@[simp] lemma reports_append : Reports (es ++ fs) stats ↔ Reports es stats ∨ Reports fs stats := by
  simp [Reports, exists_or]

variable (frames : List PlayoutFrame)

@[simp] lemma sends_stale : sends (frames.map (Event.stale : _ → Event ε π)) = [] := by
  simp [sends, Function.comp_def, Event.sent?]

@[simp] lemma staleCount_stale :
    staleCount (frames.map (Event.stale : _ → Event ε π)) = frames.length := by
  simp [staleCount, Function.comp_def, Event.isStale]

@[simp] lemma taken_stale : taken (frames.map (Event.stale : _ → Event ε π)) = frames := by
  simp [taken, List.flatMap_map, Event.frames]

@[simp] lemma lost_stale : lost (frames.map (Event.stale : _ → Event ε π)) = [] := by
  simp [lost, List.flatMap_map, Event.discards]

@[simp] lemma not_reports_stale :
    ¬ Reports (frames.map (Event.stale : _ → Event ε π)) stats := by
  simp [Reports]

/-- The frames that are sent are among those taken, in their order. -/
lemma sends_sublist_taken (es : List (Event ε π)) :
    ((sends es).map Prod.fst).Sublist (taken es) := by
  induction es with
  | nil => exact List.Sublist.refl _
  | cons e es ih =>
    have hcons : taken (e :: es) = e.frames ++ taken es := rfl
    rw [hcons]
    cases e with
    | sent frame now => exact ih.cons_cons frame
    | stale frame => exact ih.cons frame
    | discarded frames => exact ih.trans (List.sublist_append_right _ _)
    | speaking _ => exact ih
    | started _ _ => exact ih
    | finished _ _ => exact ih
    | hungUp _ => exact ih

end Events

/-! ### The books of one call -/

/-- Every frame there was is taken by an event or waits after the call, and the counter of stale
frames, which the statistics report at the end, counts those taken as stale. Neither a playout that
goes on nor one that completes loses a frame. -/
structure Balanced (frames : List PlayoutFrame) (dropped : ℕ) (o : Outcome ε π) : Prop where
  frames_eq : frames = taken o.events ++ queued o.active
  goes_on : ∀ p, o.active = some p →
    p.stats.droppedStaleFrames = dropped + staleCount o.events ∧ lost o.events = []
  reported : ∀ stats, Reports o.events stats → o.active = none ∧
    stats.droppedStaleFrames = dropped + staleCount o.events ∧ lost o.events = []

variable {frames : List PlayoutFrame} {dropped : ℕ} {o : Outcome ε π}

/-- What comes before a call with its own events. -/
lemma Balanced.prepend (es : List (Event ε π)) (h : Balanced frames (dropped + staleCount es) o)
    (hlost : lost es = []) (hes : ∀ stats, ¬ Reports es stats) :
    Balanced (taken es ++ frames) dropped (o.prepend es) where
  frames_eq := by
    rw [h.frames_eq]
    simp [Outcome.prepend]
  goes_on := fun q hq => by
    obtain ⟨hdropped, hnone⟩ := h.goes_on q hq
    rw [hdropped]
    simp [Outcome.prepend, Nat.add_assoc, hlost, hnone]
  reported := fun stats hr => by
    have hr : Reports o.events stats := by simpa [Outcome.prepend, hes] using hr
    obtain ⟨hnone, hstats, hnothing⟩ := h.reported stats hr
    rw [hstats]
    simp [Outcome.prepend, Nat.add_assoc, hlost, hnone, hnothing]

/-- A playout that fails or is cancelled. -/
lemma balanced_of_ends (hactive : o.active = none) (htaken : taken o.events = frames)
    (hreports : ∀ stats, ¬ Reports o.events stats) : Balanced frames dropped o where
  frames_eq := by simp [htaken, hactive, queued]
  goes_on := fun q hq => by simp [hactive] at hq
  reported := fun stats hr => absurd hr (hreports stats)

variable (env : Surroundings ε π) (now : ℕ) (p : ActiveOpusPlayout π) {due start : ℕ}

lemma balanced_keep : Balanced p.frames p.stats.droppedStaleFrames (.keep p [] : Outcome ε π) where
  frames_eq := rfl
  goes_on := fun q hq => by
    obtain rfl : p = q := by simpa [Outcome.keep] using hq
    exact ⟨rfl, rfl⟩
  reported := fun stats hr => absurd hr not_reports_nil

lemma taken_abort (error : Error ε) (flags : SpeakingFlags) :
    taken (Outcome.abort error p [.speaking flags]).events = p.frames ∧
      ∀ stats, ¬ Reports (Outcome.abort error p [.speaking flags]).events stats := by
  cases h : p.finishResponse <;> simp [Outcome.abort, h, Event.frames]

/-- The two ways a playout ends: the driver fails to say that it is silent, or the caller of
`finish` gets the answer. -/
lemma endPlayout_cases (answer : Except (Error ε) (OpusPlayoutStats π)) :
    (∃ error, endPlayout env p answer = .abort error p [.speaking .none]) ∨
      ∃ es, (es = [] ∨ es = [.speaking .none]) ∧ endPlayout env p answer =
        ⟨.ok (), none,
          es ++ .discarded p.frames :: (p.finishResponse.map (.finished · answer)).toList⟩ := by
  unfold endPlayout
  by_cases hp : p.speaking = true
  · rcases env.sendSpeaking .none with error | _
    · exact .inl ⟨error, by simp [hp]⟩
    · exact .inr ⟨_, .inr rfl, by simp [hp]⟩
  · exact .inr ⟨_, .inl rfl, by simp [hp]⟩

lemma active_end (answer : Except (Error ε) (OpusPlayoutStats π)) :
    (endPlayout env p answer).active = none := by
  obtain ⟨error, heq⟩ | ⟨es, -, heq⟩ := endPlayout_cases env p answer
  · rw [heq, Outcome.abort]
  · rw [heq]

/-- A playout that fails or is cancelled takes its frames along and reports nothing. -/
lemma taken_fail (error : Error ε) : taken (failPlayout env p error).events = p.frames ∧
    ∀ stats, ¬ Reports (failPlayout env p error).events stats := by
  unfold failPlayout
  obtain ⟨error', heq⟩ | ⟨es, hes, heq⟩ := endPlayout_cases env p (.error error)
  · rw [heq]
    exact taken_abort p error' _
  · rw [heq]
    rcases hes with rfl | rfl <;> cases h : p.finishResponse <;> simp [Event.frames]

lemma balanced_fail (error : Error ε) :
    Balanced p.frames dropped (failPlayout env p error) :=
  balanced_of_ends (active_end env p _) (taken_fail env p error).1 (taken_fail env p error).2

variable {now p} in
lemma frames_of_ready (hready : p.readyToComplete now = true) : p.frames = [] := by
  by_contra hne
  simp [ActiveOpusPlayout.readyToComplete, hne] at hready

lemma balanced_complete (hready : p.readyToComplete now = true) :
    Balanced p.frames p.stats.droppedStaleFrames (completePlayout env now p) := by
  have hframes := frames_of_ready hready
  unfold completePlayout
  obtain ⟨error, heq⟩ | ⟨es, hes, heq⟩ := endPlayout_cases env p
    (.ok (p.stats.finish (now - p.startedAt)))
  · rw [heq]
    exact balanced_of_ends rfl (taken_abort p error _).1 (taken_abort p error _).2
  · rw [heq]
    have hes : taken es = [] ∧ staleCount es = 0 ∧ lost es = [] ∧ ∀ stats, ¬ Reports es stats := by
      rcases hes with rfl | rfl <;> simp [Event.frames, Event.isStale, Event.discards]
    refine ⟨?_, fun q hq => by simp at hq, fun stats hr => ⟨rfl, ?_⟩⟩
    · cases hf : p.finishResponse <;> simp [hes, Event.frames, queued]
    · cases hf : p.finishResponse with
      | none => simp [hes, hf] at hr
      | some response =>
        have hstats : p.stats.finish (now - p.startedAt) = stats := by simpa [hes, hf] using hr
        rw [← hstats]
        simp [hes, Event.isStale, Event.discards, hframes, ActiveOpusPlayoutStats.finish]

/-! ### Stale frames -/

/-- The loop drops frames from the front; each moves the time the next one is due. -/
lemma dropStale_spec (d m : ℕ) (hd : d ≤ m) (frames : List PlayoutFrame) (hdue : due ≤ now) :
    let s := dropStale now d m frames due (now - due)
    frames = s.dropped ++ s.frames ∧ s.dueAt = due + s.dropped.length * d ∧ s.dueAt ≤ now ∧
      s.lateness = now - s.dueAt ∧ (s.dropped ≠ [] ↔ m ≤ now - due ∧ 1 < frames.length) := by
  generalize hl : now - due = lateness
  fun_induction dropStale now d m frames due lateness with
  | case1 frame next rest due lateness hm due' s ih =>
    obtain ⟨hframes, hat, hle, hlate, -⟩ := ih (by omega) rfl
    refine ⟨by rw [List.cons_append, ← hframes], ?_, hle, hlate, by simp [hm]⟩
    change s.dueAt = due + (s.dropped.length + 1) * d
    have hat : s.dueAt = due + d + s.dropped.length * d := hat
    rw [hat, Nat.add_one_mul]
    omega
  | case2 frame next rest due lateness hm =>
    exact ⟨rfl, by simp, hdue, hl.symm, by simp [hm]⟩
  | case3 frames due lateness hne =>
    refine ⟨rfl, by simp, hdue, hl.symm, ?_⟩
    rcases frames with _ | ⟨a, _ | ⟨b, rest⟩⟩
    · simp
    · simp
    · exact absurd rfl (hne a b rest)

lemma blockDuration_pos : 0 < blockDuration := by decide

/-- What `catchUp` leaves alone, and where the next frame is due after it. -/
structure CaughtUp (now : ℕ) (p : ActiveOpusPlayout π) (due : ℕ) (q : ActiveOpusPlayout π)
    (dropped : List PlayoutFrame) (dueAt : ℕ) : Prop where
  frames_eq : p.frames = dropped ++ q.frames
  count_eq : q.stats.droppedStaleFrames = p.stats.droppedStaleFrames + dropped.length
  id_eq : q.id = p.id
  finishResponse_eq : q.finishResponse = p.finishResponse
  nextSendAt_eq : q.nextSendAt = p.nextSendAt
  le_dueAt : due ≤ dueAt
  dueAt_le : dueAt ≤ now
  lt_late : now < dueAt + 3 * blockDuration
  spent : dropped.length * blockDuration ≤ now - due
  dropped_iff : dropped ≠ [] ↔ 3 * blockDuration ≤ now - due ∧ 1 < p.frames.length

lemma caughtUp (hdue : due ≤ now) :
    CaughtUp now p due (catchUp now p blockDuration due).1
    (catchUp now p blockDuration due).2.1 (catchUp now p blockDuration due).2.2 := by
  have hd := blockDuration_pos
  obtain ⟨hframes, hat, hle, hlate, hiff⟩ :=
    dropStale_spec now blockDuration (blockDuration * 3) (by omega) p.frames hdue
  rw [Nat.mul_comm blockDuration 3] at *
  dsimp only [catchUp]
  rw [Nat.mul_comm blockDuration 3]
  generalize dropStale now blockDuration (3 * blockDuration) p.frames due (now - due) = s at *
  by_cases hre : 3 * blockDuration ≤ s.lateness
  · simp only [hre, decide_true, if_true]
    refine ⟨hframes, ?_, rfl, rfl, rfl, hdue, le_rfl, by omega, by omega, hiff⟩
    split <;> rfl
  · simp only [hre, decide_false, Bool.false_eq_true, if_false]
    refine ⟨hframes, ?_, rfl, rfl, rfl, by omega, hle, by omega, by omega, hiff⟩
    split <;> rfl

/-! ### One call of `resolve_active_playout` -/

/-- When the next frame is due, for a call at `now`. -/
def ActiveOpusPlayout.dueAt (p : ActiveOpusPlayout π) (now : ℕ) : ℕ := p.nextSendAt.getD now

/-- All that a call can do. -/
inductive Resolves (env : Surroundings ε π) (now : ℕ) (p : ActiveOpusPlayout π) :
    Outcome ε π → Prop
  | completes (hready : p.readyToComplete now = true) :
      Resolves env now p (completePlayout env now p)
  | idle (h : p.frames = [] ∨ now < p.dueAt now) : Resolves env now p (.keep p [])
  | waits {q : ActiveOpusPlayout π} {dropped : List PlayoutFrame} {due : ℕ}
      (hwait : (env.requiresDave && !env.mediaReady) = true)
      (hframes : p.frames ≠ []) (h : CaughtUp now p (p.dueAt now) q dropped due) :
      Resolves env now p (.prepend (dropped.map .stale) (waitForDave env now q))
  | sends {q : ActiveOpusPlayout π} {dropped : List PlayoutFrame} {due : ℕ}
      (hwait : (env.requiresDave && !env.mediaReady) = false)
      (hframes : p.frames ≠ []) (h : CaughtUp now p (p.dueAt now) q dropped due) :
      Resolves env now p (.prepend (dropped.map .stale)
        (speakAndSend env now { q with mediaReadyDeadline := none } blockDuration due))

lemma resolves : Resolves env now p (resolvePlayout env now p) := by
  unfold resolvePlayout
  split
  · exact .completes ‹_›
  · rcases hframes : p.frames with _ | ⟨front, rest⟩
    · exact .idle (.inl hframes)
    · have hne : p.frames ≠ [] := by simp [hframes]
      simp only [List.head?_cons, PlayoutFrame.duration_eq]
      split
      next hlt => exact .idle (.inr hlt)
      next hge =>
        have h := caughtUp now p (Nat.le_of_not_lt hge)
        split
        next hwait => exact .waits hwait hne h
        next hwait => exact .sends (Bool.eq_false_of_not_eq_true hwait) hne h

lemma balanced_wait : Balanced p.frames p.stats.droppedStaleFrames (waitForDave env now p) := by
  dsimp only [waitForDave]
  split
  · exact balanced_fail env _ _
  · exact balanced_keep { p with mediaReadyDeadline := some _ }

lemma balanced_sendFrame (d due : ℕ) :
    Balanced p.frames p.stats.droppedStaleFrames (sendFrame env now p d due) := by
  unfold sendFrame
  split
  next => exact balanced_keep p
  next frame rest hframes =>
    dsimp only
    rw [hframes]
    split
    next error _ =>
      obtain ⟨htaken, hreports⟩ := taken_fail env
        { p with frames := rest, stats := p.stats.recordSendStarted now } error
      refine balanced_of_ends (active_end env _ _) ?_ fun stats hr => ?_
      · simp [Outcome.prepend, htaken, Event.frames]
      · exact hreports stats (by simpa [Outcome.prepend] using hr)
    next packet _ =>
      refine ⟨rfl, fun q hq => ?_, fun stats hr => by simp [Outcome.keep] at hr⟩
      cases hq
      exact ⟨rfl, rfl⟩

lemma balanced_speakAndSend (d due : ℕ) :
    Balanced p.frames p.stats.droppedStaleFrames (speakAndSend env now p d due) := by
  unfold speakAndSend
  split
  · exact balanced_sendFrame env now p d due
  · split
    next => exact balanced_of_ends rfl (taken_abort p _ _).1 (taken_abort p _ _).2
    next =>
      exact Balanced.prepend [.speaking .microphone]
        (balanced_sendFrame env now { p with speaking := true } d due) rfl (by simp)

variable {now p} in
/-- Stale frames come before what the rest of a call does. -/
lemma CaughtUp.balanced {dueAt : ℕ} {q : ActiveOpusPlayout π} {dropped : List PlayoutFrame}
    (h : CaughtUp now p due q dropped dueAt) (hq : Balanced q.frames q.stats.droppedStaleFrames o) :
    Balanced p.frames p.stats.droppedStaleFrames (o.prepend (dropped.map .stale)) := by
  rw [h.count_eq, ← staleCount_stale (ε := ε) (π := π)] at hq
  simpa [h.frames_eq] using hq.prepend _ (lost_stale dropped) fun _ => not_reports_stale dropped

/-- A call keeps the books. -/
lemma balanced_resolve :
    Balanced p.frames p.stats.droppedStaleFrames (resolvePlayout env now p) := by
  have hres := resolves env now p
  generalize resolvePlayout env now p = o at hres ⊢
  cases hres with
  | completes hready => exact balanced_complete env now p hready
  | idle h => exact balanced_keep p
  | waits hwait hframes h => exact h.balanced (balanced_wait env now _)
  | @sends q dropped due hwait hframes h =>
    exact h.balanced (balanced_speakAndSend env now { q with mediaReadyDeadline := none } _ _)

/-! ### When frames are sent -/

/-- The pace of a call at `now`, when the next frame is not due before `start`. -/
inductive Pace (now start : ℕ) (o : Outcome ε π) : Prop
  | ends (hactive : o.active = none) (hsends : sends o.events = [])
  | keeps (q : ActiveOpusPlayout π) (hactive : o.active = some q) (hsends : sends o.events = [])
      (hnext : ∀ later, now ≤ later → start ≤ q.dueAt later)
  | sends (q : ActiveOpusPlayout π) (frame : PlayoutFrame) (due : ℕ) (hactive : o.active = some q)
      (hsends : sends o.events = [(frame, now)]) (hle : start ≤ due) (hdue : due ≤ now)
      (hlate : now < due + 3 * blockDuration) (hnext : q.nextSendAt = some (due + blockDuration))

lemma Pace.prepend {now : ℕ} (es : List (Event ε π)) (h : Pace now start o)
    (hes : Playout.sends es = []) : Pace now start (o.prepend es) := by
  have heq : Playout.sends (o.prepend es).events = Playout.sends o.events := by
    simp [Outcome.prepend, hes]
  cases h with
  | ends hactive hsends => exact .ends hactive (heq.trans hsends)
  | keeps q hactive hsends hnext => exact .keeps q hactive (heq.trans hsends) hnext
  | sends q frame due hactive hsends hle hdue hlate hnext =>
    exact .sends q frame due hactive (heq.trans hsends) hle hdue hlate hnext

lemma pace_abort (start : ℕ) (error : Error ε) (flags : SpeakingFlags) :
    Pace now start (.abort error p [.speaking flags]) := by
  refine .ends rfl ?_
  cases h : p.finishResponse <;> simp [Outcome.abort, h, Event.sent?]

lemma pace_end (start : ℕ) (answer : Except (Error ε) (OpusPlayoutStats π)) :
    Pace now start (endPlayout env p answer) := by
  obtain ⟨error, heq⟩ | ⟨es, hes, heq⟩ := endPlayout_cases env p answer
  · rw [heq]
    exact pace_abort now p start error _
  · rw [heq]
    refine .ends rfl ?_
    rcases hes with rfl | rfl <;> cases h : p.finishResponse <;> simp [Event.sent?]

/-- The next frame of a playout is due at the same time or, if it has none, at the call. -/
lemma dueAt_mono {now later : ℕ} (h : now ≤ later) : p.dueAt now ≤ p.dueAt later := by
  unfold ActiveOpusPlayout.dueAt
  cases p.nextSendAt with
  | none => exact h
  | some due => exact le_rfl

lemma pace_keep (h : start ≤ p.dueAt now) : Pace now start (.keep p [] : Outcome ε π) :=
  .keeps p rfl rfl fun _ hlater => h.trans (dueAt_mono p hlater)

lemma pace_wait (h : start ≤ p.dueAt now) : Pace now start (waitForDave env now p) := by
  dsimp only [waitForDave]
  split
  · exact pace_end env now _ start _
  · exact pace_keep now { p with mediaReadyDeadline := some _ } h

lemma pace_sendFrame (h : start ≤ p.dueAt now) (hle : start ≤ due) (hdue : due ≤ now)
    (hlate : now < due + 3 * blockDuration) :
    Pace now start (sendFrame env now p blockDuration due) := by
  unfold sendFrame
  split
  next => exact pace_keep now p h
  next frame rest hframes =>
    dsimp only
    split
    next => exact (pace_end env now _ start _).prepend [.discarded [frame]] rfl
    next => exact .sends _ frame due rfl rfl hle hdue hlate rfl

lemma pace_speakAndSend (h : start ≤ p.dueAt now) (hle : start ≤ due) (hdue : due ≤ now)
    (hlate : now < due + 3 * blockDuration) :
    Pace now start (speakAndSend env now p blockDuration due) := by
  unfold speakAndSend
  split
  · exact pace_sendFrame env now p h hle hdue hlate
  · split
    next => exact pace_abort now p start _ _
    next =>
      exact (pace_sendFrame env now { p with speaking := true } h hle hdue hlate).prepend
        [.speaking .microphone] rfl

lemma pace_resolve : Pace now (p.dueAt now) (resolvePlayout env now p) := by
  have hres := resolves env now p
  generalize resolvePlayout env now p = o at hres ⊢
  cases hres with
  | completes hready => exact pace_end env now p _ _
  | idle h => exact pace_keep now p le_rfl
  | @waits q dropped due hwait hframes h =>
    have hq : q.dueAt now = p.dueAt now := by rw [ActiveOpusPlayout.dueAt, h.nextSendAt_eq]; rfl
    exact (pace_wait env now q hq.ge).prepend _ (sends_stale dropped)
  | @sends q dropped due hwait hframes h =>
    have hq : q.dueAt now = p.dueAt now := by rw [ActiveOpusPlayout.dueAt, h.nextSendAt_eq]; rfl
    exact (pace_speakAndSend env now { q with mediaReadyDeadline := none } hq.ge h.le_dueAt
      h.dueAt_le h.lt_late).prepend _ (sends_stale dropped)

/-! ### Runs of one playout -/

inductive Op (ε π : Type)
  | push (frame : PlayoutFrame)
  | pushMany (frames : List PlayoutFrame)
  | finish (response : Reply)
  | cancel (env : Surroundings ε π)
  | resolve (env : Surroundings ε π)

/-- An operation, some time after the one before. -/
structure Call (ε π : Type) where
  delay : ℕ
  op : Op ε π

/-- A playout with what it was given and what it has done, at the time of the last call. -/
structure History (ε π : Type) where
  now : ℕ
  playout : Option (ActiveOpusPlayout π)
  pushed : List PlayoutFrame := []
  events : List (Event ε π) := []

def Op.apply (p : ActiveOpusPlayout π) (now : ℕ) : Op ε π → Outcome ε π
  | .push frame => .keep (p.push frame now) []
  | .pushMany frames => .keep (p.pushMany frames now) []
  | .finish response => .keep (p.finish response) (p.finishResponse.map Event.hungUp).toList
  | .cancel env => cancelPlayout env p
  | .resolve env => resolvePlayout env now p

@[simp] lemma apply_resolve (env : Surroundings ε π) (now : ℕ) (p : ActiveOpusPlayout π) :
    (Op.resolve env).apply p now = resolvePlayout env now p := rfl

def Op.pushed : Op ε π → List PlayoutFrame
  | .push frame => [frame]
  | .pushMany frames => frames
  | _ => []

def step (h : History ε π) (c : Call ε π) : History ε π :=
  let now := h.now + c.delay
  match h.playout with
  | none => { h with now }
  | some p =>
    let o := c.op.apply p now
    { now, playout := o.active, pushed := h.pushed ++ c.op.pushed, events := h.events ++ o.events }

/-- An underflow only forgets when the next frame was due, which has passed. -/
lemma recordUnderflow_spec :
    (p.recordUnderflowIfNeeded now).frames = p.frames ∧
      (p.recordUnderflowIfNeeded now).stats.droppedStaleFrames = p.stats.droppedStaleFrames ∧
      p.dueAt now ≤ (p.recordUnderflowIfNeeded now).dueAt now := by
  unfold ActiveOpusPlayout.recordUnderflowIfNeeded
  split
  · split
    next due hdue =>
      split
      next hlt => exact ⟨rfl, rfl, by simpa [ActiveOpusPlayout.dueAt, hdue] using hlt.le⟩
      next => exact ⟨rfl, rfl, le_rfl⟩
    next => exact ⟨rfl, rfl, le_rfl⟩
  · exact ⟨rfl, rfl, le_rfl⟩

lemma balanced_pushMany (frames : List PlayoutFrame) :
    Balanced (p.frames ++ frames) p.stats.droppedStaleFrames
      (.keep (p.pushMany frames now) [] : Outcome ε π) := by
  obtain ⟨hframes, hdropped, -⟩ := recordUnderflow_spec now p
  rw [← hframes, ← hdropped]
  exact balanced_keep (p.pushMany frames now)

lemma pace_pushMany (frames : List PlayoutFrame) :
    Pace now (p.dueAt now) (.keep (p.pushMany frames now) [] : Outcome ε π) :=
  pace_keep now _ (recordUnderflow_spec now p).2.2

lemma balanced_apply (op : Op ε π) :
    Balanced (p.frames ++ op.pushed) p.stats.droppedStaleFrames (op.apply p now) := by
  cases op with
  | push frame => exact balanced_pushMany now p [frame]
  | pushMany frames => exact balanced_pushMany now p frames
  | finish response =>
    simp only [Op.apply, Op.pushed, List.append_nil]
    cases p.finishResponse with
    | none => exact balanced_keep (p.finish response)
    | some earlier =>
      exact Balanced.prepend [.hungUp earlier] (balanced_keep (p.finish response)) rfl (by simp)
  | cancel env =>
    simp only [Op.pushed, List.append_nil]
    exact balanced_fail env p .closed
  | resolve env =>
    simp only [Op.pushed, List.append_nil]
    exact balanced_resolve env now p

lemma pace_apply (op : Op ε π) : Pace now (p.dueAt now) (op.apply p now) := by
  cases op with
  | push frame => exact pace_pushMany now p [frame]
  | pushMany frames => exact pace_pushMany now p frames
  | finish response =>
    have h : Pace now (p.dueAt now) (.keep (p.finish response) [] : Outcome ε π) :=
      pace_keep now (p.finish response) le_rfl
    simp only [Op.apply]
    cases p.finishResponse with
    | none => exact h
    | some earlier => exact h.prepend [.hungUp earlier] rfl
  | cancel env => exact pace_end env now p _ _
  | resolve env => exact pace_resolve env now p

/-- The books of a whole run. -/
structure Books (h : History ε π) : Prop where
  pushed_eq : h.pushed = taken h.events ++ queued h.playout
  goes_on : ∀ p, h.playout = some p →
    p.stats.droppedStaleFrames = staleCount h.events ∧ lost h.events = []
  reported : ∀ stats, Reports h.events stats → h.playout = none ∧
    stats.droppedStaleFrames = staleCount h.events ∧ lost h.events = []

section Step

variable {h : History ε π} {p} (c : Call ε π) {times : List (PlayoutFrame × ℕ)}

lemma step_none (hp : h.playout = none) : step h c = { h with now := h.now + c.delay } := by
  simp only [step, hp]

lemma step_some (hp : h.playout = some p) : step h c =
    { now := h.now + c.delay
      playout := (c.op.apply p (h.now + c.delay)).active
      pushed := h.pushed ++ c.op.pushed
      events := h.events ++ (c.op.apply p (h.now + c.delay)).events } := by
  simp only [step, hp]

@[simp] lemma step_now : (step h c).now = h.now + c.delay := by
  unfold step
  split <;> rfl

lemma Books.step (hb : Books h) : Books (step h c) := by
  rcases hp : h.playout with _ | p
  · rw [step_none c hp]
    exact ⟨hb.pushed_eq, hb.goes_on, hb.reported⟩
  · have ho := balanced_apply (h.now + c.delay) p c.op
    rw [step_some c hp]
    generalize c.op.apply p (h.now + c.delay) = o at ho
    obtain ⟨hdropped, hlost⟩ := hb.goes_on p hp
    refine ⟨?_, fun q hq => ?_, fun stats hr => ?_⟩
    · have hpushed := hb.pushed_eq
      rw [hp] at hpushed
      dsimp only [queued, Option.elim_some] at hpushed
      rw [hpushed, List.append_assoc, ho.frames_eq]
      simp
    · obtain ⟨hcount, hnothing⟩ := ho.goes_on q hq
      exact ⟨by rw [hcount, hdropped, staleCount_append], by simp [hlost, hnothing]⟩
    · rcases reports_append.mp hr with hold | hnew
      · rw [(hb.reported stats hold).1] at hp
        cases hp
      · obtain ⟨hnone, hstats, hnothing⟩ := ho.reported stats hnew
        exact ⟨hnone, by rw [hstats, hdropped, staleCount_append], by simp [hlost, hnothing]⟩

/-- From the frame at `i` to the one at `j`, real time falls behind by less than three frames. -/
def Paced (times : List (PlayoutFrame × ℕ)) : Prop :=
  ∀ i j a b, i < j → times[i]? = some a → times[j]? = some b →
    (j - i) * blockDuration + a.2 < b.2 + 3 * blockDuration

/-- The same from a frame that was sent to the next one that will be due at `due`. -/
def Ahead (times : List (PlayoutFrame × ℕ)) (due : ℕ) : Prop :=
  ∀ i a, times[i]? = some a →
    (times.length - i) * blockDuration + a.2 < due + 3 * blockDuration

lemma Ahead.mono {later : ℕ} (h : Ahead times due) (hle : due ≤ later) : Ahead times later :=
  fun i a hi => (h i a hi).trans_le (by omega)

/-- An entry of a list with a new last one. -/
lemma getElem?_concat {α : Type*} {xs : List α} {x a : α} {i : ℕ} (h : (xs ++ [x])[i]? = some a) :
    xs[i]? = some a ∧ i < xs.length ∨ i = xs.length ∧ a = x := by
  rw [List.getElem?_append] at h
  split at h
  next hlt => exact .inl ⟨h, hlt⟩
  next hge =>
    obtain ⟨hi, ha⟩ := List.getElem?_eq_some_iff.mp h
    simp only [List.length_singleton, Nat.lt_one_iff, List.getElem_singleton] at hi ha
    exact .inr ⟨by omega, ha.symm⟩

/-- The next frame goes out, when it is due or less than three frames late. -/
lemma Ahead.send {now : ℕ} (h : Ahead times start) (hpaced : Paced times) (hle : start ≤ due)
    (hdue : due ≤ now) (hlate : now < due + 3 * blockDuration) (frame : PlayoutFrame) :
    Paced (times ++ [(frame, now)]) ∧ Ahead (times ++ [(frame, now)]) (due + blockDuration) := by
  constructor
  · intro i j a b hij hi hj
    obtain ⟨hi, -⟩ | ⟨rfl, -⟩ := getElem?_concat hi
    · obtain ⟨hj, -⟩ | ⟨rfl, rfl⟩ := getElem?_concat hj
      · exact hpaced i j a b hij hi hj
      · have := h i a hi
        dsimp only
        omega
    · obtain ⟨-, hlt⟩ | ⟨rfl, -⟩ := getElem?_concat hj <;> omega
  · intro i a hi
    rw [List.length_append, List.length_singleton]
    obtain ⟨hi, hlt⟩ | ⟨rfl, rfl⟩ := getElem?_concat hi
    · have := h i a hi
      rw [show times.length + 1 - i = times.length - i + 1 by omega, Nat.add_one_mul]
      omega
    · rw [Nat.add_sub_cancel_left]
      dsimp only
      omega

/-- What a run keeps: its pace so far, and that the next frame is not due too early. -/
structure OnTime (h : History ε π) : Prop where
  paced : Paced (sends h.events)
  ahead : ∀ p later, h.playout = some p → h.now ≤ later → Ahead (sends h.events) (p.dueAt later)

lemma OnTime.step (ho : OnTime h) : OnTime (step h c) := by
  rcases hp : h.playout with _ | p
  · rw [step_none c hp]
    exact ⟨ho.paced, fun q later hq => by simp [hp] at hq⟩
  · have hahead := ho.ahead p (h.now + c.delay) hp (Nat.le_add_right _ _)
    have hpace := pace_apply (h.now + c.delay) p c.op
    rw [step_some c hp]
    generalize c.op.apply p (h.now + c.delay) = o at hpace
    cases hpace with
    | ends hactive hsends =>
      refine ⟨by simpa [hsends] using ho.paced, fun q later hq => ?_⟩
      rw [hactive] at hq
      cases hq
    | keeps q hactive hsends hnext =>
      refine ⟨by simpa [hsends] using ho.paced, fun q' later hq hlater => ?_⟩
      cases hactive.symm.trans hq
      simpa [hsends] using hahead.mono (hnext later hlater)
    | sends q frame due hactive hsends hle hdue hlate hnext =>
      obtain ⟨hpaced, hnew⟩ := hahead.send ho.paced hle hdue hlate frame
      refine ⟨by simpa [hsends] using hpaced, fun q' later hq hlater => ?_⟩
      cases hactive.symm.trans hq
      simpa [hsends, ActiveOpusPlayout.dueAt, hnext] using hnew

end Step

/-- The start of a playout. -/
def begin (p : ActiveOpusPlayout π) (now : ℕ) : History ε π := { now, playout := some p }

/-! ### The driver -/

/-- What a command does to the active playout with the number `id`. -/
@[simp]
def PlayoutCommand.ops (env : Surroundings ε π) (id : UInt64) : PlayoutCommand → List (Op ε π)
  | .start _ => []
  | .frame i f => if id = i then [.push f, .resolve env] else [.resolve env]
  | .frames i fs => if id = i then [.pushMany fs, .resolve env] else [.resolve env]
  | .finish i response => if id = i then [.finish response, .resolve env] else [.resolve env]
  | .cancel i => if id = i then [.cancel env, .resolve env] else [.resolve env]

/-- The answer to a command that is not for the active playout. -/
@[simp]
def PlayoutCommand.refusal (id : UInt64) : PlayoutCommand → List (Event ε π)
  | .start response => [.started response (.error (.backpressure .activeOpusPlayout))]
  | .finish i response => if id = i then [] else [.finished response (.error .closed)]
  | .frame .. | .frames .. | .cancel _ => []

/-- The operations of one call, at the time of the last one. -/
def atOnce (h : History ε π) (ops : List (Op ε π)) : History ε π := run step h (ops.map (⟨0, ·⟩))

/-- The frames of a command that is for the active playout. -/
@[simp]
def PlayoutCommand.accepted (send : SendPipeline π) : PlayoutCommand → List PlayoutFrame
  | .frame id f => if (send.active? id).isSome then [f] else []
  | .frames id fs => if (send.active? id).isSome then fs else []
  | .start _ | .finish .. | .cancel _ => []

/-- The log of a playout behind a call of its driver, which took `frames` for it. -/
def History.logged (h : History ε π) (frames : List PlayoutFrame) (s : Step ε π) : History ε π :=
  ⟨h.now, s.send.activePlayout, h.pushed ++ frames, h.events ++ s.events⟩

section Calls

variable {p} (h : History ε π) {send : SendPipeline π}

/-- The rest of a call that keeps the playout. -/
lemma logged_keep (send : SendPipeline π) (hh : h.playout = some p) (op : Op ε π)
    {q : ActiveOpusPlayout π} {es : List (Event ε π)} (hop : op.apply p h.now = .keep q es) :
    h.logged op.pushed (Step.andResolve env h.now
      ⟨.ok (), { send with activePlayout := some q }, es⟩) = atOnce h [op, .resolve env] := by
  simp only [Outcome.keep] at hop
  simp [History.logged, Step.andResolve, resolveActivePlayout, atOnce, step, hh, hop, Op.pushed]

/-- The rest of a call that leaves everything alone. -/
lemma logged_same (hh : h.playout = some p) (hp : send.activePlayout = some p)
    (es : List (Event ε π)) :
    h.logged [] (Step.andResolve env h.now ⟨.ok (), send, es⟩) =
      atOnce { h with events := h.events ++ es } [.resolve env] := by
  simp [History.logged, Step.andResolve, resolveActivePlayout, atOnce, step, hh, hp, Op.pushed]

/-- A command to a driver with an active playout is a run of that playout. -/
theorem logged_handle (hh : h.playout = some p) (hp : send.activePlayout = some p)
    (command : PlayoutCommand) :
    h.logged (command.accepted send) (handlePlayoutCommand env h.now send command) =
      atOnce { h with events := h.events ++ command.refusal p.id } (command.ops env p.id) := by
  have hself : send.active? p.id = some p := by simp [SendPipeline.active?, hp]
  have hother : ∀ i, p.id ≠ i → send.active? i = none := fun i hi => by
    simp [SendPipeline.active?, hp, hi]
  cases command with
  | start response =>
    simp [History.logged, handlePlayoutCommand, hp, hh, atOnce]
  | frame i f =>
    by_cases hi : p.id = i
    · subst hi
      simpa [handlePlayoutCommand, applyCommand, hself, Op.pushed] using
        logged_keep env h send hh (.push f) rfl
    · simpa [handlePlayoutCommand, applyCommand, hother i hi, hi] using logged_same env h hh hp []
  | frames i fs =>
    by_cases hi : p.id = i
    · subst hi
      simpa [handlePlayoutCommand, applyCommand, hself, Op.pushed] using
        logged_keep env h send hh (.pushMany fs) rfl
    · simpa [handlePlayoutCommand, applyCommand, hother i hi, hi] using logged_same env h hh hp []
  | finish i response =>
    by_cases hi : p.id = i
    · subst hi
      simpa [handlePlayoutCommand, applyCommand, hself, Op.pushed] using
        logged_keep env h send hh (.finish response) rfl
    · simpa [handlePlayoutCommand, applyCommand, hother i hi, hi] using
        logged_same env h hh hp [.finished response (.error .closed)]
  | cancel i =>
    by_cases hi : p.id = i
    · subst hi
      have hnone : (cancelPlayout env p).active = none := active_end env p _
      rcases hresult : (cancelPlayout env p).result with error | _ <;>
        simp [History.logged, handlePlayoutCommand, applyCommand, hself, Step.andResolve, hresult,
          resolveActivePlayout, atOnce, step, hh, Op.apply, Op.pushed, hnone]
    · simpa [handlePlayoutCommand, applyCommand, hother i hi, hi] using logged_same env h hh hp []

end Calls

/-- Whatever is pushed and whenever the driver wakes: the sent frames are some of those pushed, in
their order; every frame that was pushed is sent, counted as stale, discarded or waits, and only a
playout that failed or was cancelled has discarded any; and between any two frames that are sent,
real time falls behind by less than three frames. -/
theorem conserved_and_paced (id : UInt64) (daveEnabled : Bool) (now : ℕ) (calls : List (Call ε π)) :
    let h := run step (begin (.new id daveEnabled now) now) calls
    ((sends h.events).map Prod.fst).Sublist h.pushed ∧
      h.pushed = taken h.events ++ queued h.playout ∧
      (∀ p, h.playout = some p →
        p.stats.droppedStaleFrames = staleCount h.events ∧ lost h.events = []) ∧
      (∀ stats, Reports h.events stats →
        stats.droppedStaleFrames = staleCount h.events ∧ lost h.events = []) ∧
      Paced (sends h.events) := by
  intro h
  have hbooks : Books h := by
    refine run_inv_of_step (fun s c hs => hs.step c) calls ⟨rfl, fun p hp => ?_, fun stats hr => ?_⟩
    · cases hp
      exact ⟨rfl, rfl⟩
    · exact absurd hr not_reports_nil
  have htime : OnTime h :=
    run_inv_of_step (fun s c hs => hs.step c) calls
      ⟨fun i j a b _ hi => by simp [begin] at hi, fun p later _ _ i a hi => by simp [begin] at hi⟩
  refine ⟨?_, hbooks.pushed_eq, hbooks.goes_on, fun stats hr => (hbooks.reported stats hr).2,
    htime.paced⟩
  rw [hbooks.pushed_eq]
  exact (sends_sublist_taken h.events).trans (List.sublist_append_left _ _)

/-! ### Runs of the driver -/

/-- Some time after the last call, the driver wakes or takes a command. -/
structure DriverCall (ε π : Type) where
  delay : ℕ
  env : Surroundings ε π
  command : Option PlayoutCommand

/-- A driver, the log of the playout that it started last, and the logs of the earlier ones. -/
structure DriverLog (ε π : Type) where
  send : SendPipeline π := {}
  log : History ε π
  ended : List (History ε π) := []

def DriverLog.step (s : DriverLog ε π) (c : DriverCall ε π) : DriverLog ε π :=
  let log := { s.log with now := s.log.now + c.delay }
  match c.command with
  | none =>
    let o := resolveActivePlayout c.env log.now s.send
    { s with send := o.send, log := log.logged [] o }
  | some command =>
    let o := handlePlayoutCommand c.env log.now s.send command
    match command, s.send.activePlayout with
    | .start _, none => ⟨o.send, History.logged ⟨log.now, none, [], []⟩ [] o, s.ended ++ [s.log]⟩
    | command, _ => { s with send := o.send, log := log.logged (command.accepted s.send) o }

/-- Events that neither take a frame nor hand out statistics. -/
structure Quiet (es : List (Event ε π)) : Prop where
  sends_eq : sends es = []
  taken_eq : taken es = []
  stale_eq : staleCount es = 0
  lost_eq : lost es = []
  reports : ∀ stats, ¬ Reports es stats

lemma quiet_nil : Quiet ([] : List (Event ε π)) := ⟨rfl, rfl, rfl, rfl, fun _ => not_reports_nil⟩
lemma quiet_started (r : Reply) (a : Except (Error ε) UInt64) :
    Quiet [(Event.started r a : Event ε π)] := ⟨rfl, rfl, rfl, rfl, by simp⟩
lemma quiet_closed (r : Reply) : Quiet [(Event.finished r (.error .closed) : Event ε π)] :=
  ⟨rfl, rfl, rfl, rfl, by simp⟩

lemma quiet_refusal (id : UInt64) (command : PlayoutCommand) :
    Quiet (command.refusal id : List (Event ε π)) := by
  cases command with
  | start response => exact quiet_started _ _
  | finish i response =>
    dsimp only [PlayoutCommand.refusal]
    split
    · exact quiet_nil
    · exact quiet_closed _
  | frame | frames | cancel => exact quiet_nil

/-- What a log keeps. -/
structure Kept (h : History ε π) : Prop where
  books : Books h
  onTime : OnTime h

section Kept

variable {h : History ε π}

lemma kept_new (now : ℕ) (playout : Option (ActiveOpusPlayout π)) (hempty : queued playout = [])
    (hfresh : ∀ p ∈ playout, p.stats.droppedStaleFrames = 0) :
    Kept (⟨now, playout, [], []⟩ : History ε π) :=
  ⟨⟨hempty.symm, fun p hp => ⟨hfresh p hp, rfl⟩, fun _ hr => absurd hr not_reports_nil⟩,
    fun i j a b _ hi => by simp at hi, fun p later _ _ i a hi => by simp at hi⟩

lemma Kept.atOnce (hk : Kept h) (ops : List (Op ε π)) : Kept (atOnce h ops) :=
  run_inv_of_step (fun _ c hs => ⟨hs.books.step c, hs.onTime.step c⟩) _ hk

lemma Kept.quiet (hk : Kept h) {es : List (Event ε π)} (hes : Quiet es) (delay : ℕ) :
    Kept { h with now := h.now + delay, events := h.events ++ es } := by
  obtain ⟨⟨hpushed, hgoes, hreported⟩, hpaced, hahead⟩ := hk
  obtain ⟨hsends, htaken, hstale, hlost, hno⟩ := hes
  refine ⟨⟨?_, ?_, ?_⟩, ?_, ?_⟩
  · simpa [htaken] using hpushed
  · simpa [hstale, hlost] using hgoes
  · simpa [hstale, hlost, hno] using hreported
  · simpa [hsends] using hpaced
  · intro p later hp hle
    simpa [hsends] using hahead p later hp ((Nat.le_add_right _ _).trans hle)

/-- The start of a playout, which is resolved at once. -/
lemma kept_start (env : Surroundings ε π) (now : ℕ) {send : SendPipeline π}
    (hp : send.activePlayout = none) (response : Reply) :
    Kept (History.logged ⟨now, none, [], []⟩ []
      (handlePlayoutCommand env now send (.start response))) := by
  have hnew : Kept (begin (.new send.nextPlayoutId env.requiresDave now) now : History ε π) :=
    kept_new now _ rfl (by rintro p ⟨⟩; rfl)
  have hstarted := hnew.quiet (quiet_started response (.ok send.nextPlayoutId)) 0
  simpa [History.logged, handlePlayoutCommand, hp, applyCommand, Step.andResolve,
    resolveActivePlayout, Playout.atOnce, begin, Playout.step, Op.pushed] using
      hstarted.atOnce [.resolve env]

end Kept

/-- The logs are those of the driver's playouts, and each is kept. -/
structure Logs (s : DriverLog ε π) : Prop where
  active : s.log.playout = s.send.activePlayout
  ended : ∀ h ∈ s.ended, h.playout = none
  kept : ∀ h ∈ s.ended ++ [s.log], Kept h

/-- The log of the last playout goes on. -/
lemma Logs.goes_on {s : DriverLog ε π} (hs : Logs s) {send : SendPipeline π} {log : History ε π}
    (hactive : log.playout = send.activePlayout) (hlog : Kept log) :
    Logs { s with send, log } := by
  refine ⟨hactive, hs.ended, List.forall_mem_append.mpr ⟨fun h hh => ?_, ?_⟩⟩
  · exact hs.kept h (List.mem_append_left _ hh)
  · exact List.forall_mem_singleton.mpr hlog

lemma Logs.step {s : DriverLog ε π} (hs : Logs s) (c : DriverCall ε π) : Logs (s.step c) := by
  have hlog : Kept s.log := hs.kept _ (by simp)
  have hidle {es : List (Event ε π)} (hes : Quiet es) := hlog.quiet hes c.delay
  have hlater := hidle quiet_nil
  rw [List.append_nil] at hlater
  unfold DriverLog.step
  rcases hcommand : c.command with _ | command
  · refine hs.goes_on rfl ?_
    rcases hp : s.send.activePlayout with _ | p
    · simpa [History.logged, resolveActivePlayout, hp, hs.active] using hlater
    · have hsame := logged_same c.env { s.log with now := s.log.now + c.delay }
        (hs.active.trans hp) hp []
      simp only [Step.andResolve, List.nil_append, List.append_nil] at hsame
      rw [hsame]
      exact hlater.atOnce _
  · rcases hp : s.send.activePlayout with _ | p
    · have hnone : ∀ i, s.send.active? i = none := fun i => by simp [SendPipeline.active?, hp]
      cases command with
      | start response =>
        -- the log so far is closed, and the new playout gets one of its own
        refine ⟨rfl, List.forall_mem_append.mpr ⟨hs.ended, ?_⟩,
          List.forall_mem_append.mpr ⟨hs.kept, ?_⟩⟩
        · exact List.forall_mem_singleton.mpr (hs.active.trans hp)
        · exact List.forall_mem_singleton.mpr (kept_start c.env _ hp response)
      | finish i response =>
        refine hs.goes_on rfl ?_
        simpa [History.logged, handlePlayoutCommand, hp, applyCommand, hnone, Step.andResolve,
          resolveActivePlayout, hs.active] using
            hidle (quiet_closed response)
      | frame i f | frames i f | cancel i =>
        refine hs.goes_on rfl ?_
        simpa [History.logged, handlePlayoutCommand, hp, applyCommand, hnone, Step.andResolve,
          resolveActivePlayout, hs.active] using hlater
    · have hhandle := logged_handle c.env { s.log with now := s.log.now + c.delay }
        (hs.active.trans hp) hp command
      have hkept := (hidle (quiet_refusal p.id command)).atOnce (command.ops c.env p.id)
      rw [← hhandle] at hkept
      cases command <;> exact hs.goes_on rfl hkept

/-- **Every playout of a connection.** Whatever commands the driver takes and whenever it wakes: in
the log of each playout that it started, the sent frames are some of those taken for it, in their
order; every frame that was taken is sent, counted as stale, discarded or waits, and none waits
once the playout has ended; and the frames are paced as those of a single playout. -/
theorem driver_conserves_and_paces (now : ℕ) (calls : List (DriverCall ε π)) :
    let s := run DriverLog.step { log := ⟨now, none, [], []⟩ } calls
    s.log.playout = s.send.activePlayout ∧ (∀ h ∈ s.ended, h.playout = none) ∧
      ∀ h ∈ s.ended ++ [s.log],
        ((sends h.events).map Prod.fst).Sublist h.pushed ∧
        h.pushed = taken h.events ++ queued h.playout ∧
        (∀ p, h.playout = some p →
          p.stats.droppedStaleFrames = staleCount h.events ∧ lost h.events = []) ∧
        (∀ stats, Reports h.events stats →
          stats.droppedStaleFrames = staleCount h.events ∧ lost h.events = []) ∧
        Paced (sends h.events) := by
  intro s
  have hlogs : Logs s := by
    refine run_inv_of_step (fun s c hs => hs.step c) calls ⟨rfl, by simp, fun h hh => ?_⟩
    obtain rfl : h = ⟨now, none, [], []⟩ := by simpa using hh
    exact kept_new now none rfl (by simp)
  refine ⟨hlogs.active, hlogs.ended, fun h hh => ?_⟩
  obtain ⟨hbooks, htime⟩ := hlogs.kept h hh
  refine ⟨?_, hbooks.pushed_eq, hbooks.goes_on, fun stats hr => (hbooks.reported stats hr).2,
    htime.paced⟩
  rw [hbooks.pushed_eq]
  exact (sends_sublist_taken h.events).trans (List.sublist_append_left _ _)

end Cacophony.Playout
