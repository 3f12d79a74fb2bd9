import Cacophony.PlayoutRuns

/-!
What the driver does to the number and to the finish request of its playout.

A playout that is active after a call of the driver was active before, unless the call was a `Start`
that has been answered with its number. It is asked to finish once it has been asked, and a `Cancel`
with its number ends it.
-/

namespace Cacophony.Playout

variable {ε π : Type}

def Event.isStarted : Event ε π → Bool
  | .started .. => true
  | _ => false

/-- No reply to a `Start`, and a playout that goes on is the same one. -/
structure Same (p : ActiveOpusPlayout π) (o : Outcome ε π) : Prop where
  events : ∀ e ∈ o.events, e.isStarted = false
  active : ∀ q, o.active = some q → q.id = p.id ∧ q.finishResponse = p.finishResponse

variable {p q : ActiveOpusPlayout π} {o : Outcome ε π} {env : Surroundings ε π} {now : ℕ}
  {send : SendPipeline π} {id : UInt64}

lemma Same.prepend {es : List (Event ε π)} (h : Same p o) (hes : ∀ e ∈ es, e.isStarted = false) :
    Same p (o.prepend es) where
  events := by
    intro e he
    rcases List.mem_append.mp he with he | he
    · exact hes e he
    · exact h.events e he
  active := h.active

lemma same_keep (hid : q.id = p.id) (hfinish : q.finishResponse = p.finishResponse) :
    Same p (.keep q [] : Outcome ε π) where
  events := fun e he => by simp [Outcome.keep] at he
  active := fun r hr => by
    cases hr
    exact ⟨hid, hfinish⟩

lemma same_of_ends (hactive : o.active = none) (h : ∀ e ∈ o.events, e.isStarted = false) :
    Same p o where
  events := h
  active := fun r hr => by simp [hactive] at hr

lemma same_abort (error : Error ε) (flags : SpeakingFlags) :
    Same p (.abort error q [.speaking flags]) := by
  refine same_of_ends rfl ?_
  cases h : q.finishResponse <;> simp [Outcome.abort, h, Event.isStarted]

lemma same_end (answer : Except (Error ε) (OpusPlayoutStats π)) :
    Same p (endPlayout env q answer) := by
  obtain ⟨error, heq⟩ | ⟨es, hes, heq⟩ := endPlayout_cases env q answer
  · rw [heq]
    exact same_abort error _
  · refine same_of_ends (active_end env q answer) ?_
    rw [heq]
    rcases hes with rfl | rfl <;> cases h : q.finishResponse <;> simp [Event.isStarted]

lemma same_wait (hid : q.id = p.id) (hfinish : q.finishResponse = p.finishResponse) :
    Same p (waitForDave env now q) := by
  dsimp only [waitForDave]
  split
  · exact same_end _
  · exact same_keep hid hfinish

lemma same_sendFrame (d due : ℕ) (hid : q.id = p.id)
    (hfinish : q.finishResponse = p.finishResponse) : Same p (sendFrame env now q d due) := by
  unfold sendFrame
  split
  next => exact same_keep hid hfinish
  next frame rest _ =>
    dsimp only
    split
    next => exact (same_end _).prepend (by simp [Event.isStarted])
    next =>
      refine ⟨by simp [Outcome.keep, Event.isStarted], fun r hr => ?_⟩
      cases hr
      exact ⟨hid, hfinish⟩

lemma same_speakAndSend (d due : ℕ) (hid : q.id = p.id)
    (hfinish : q.finishResponse = p.finishResponse) : Same p (speakAndSend env now q d due) := by
  unfold speakAndSend
  split
  · exact same_sendFrame d due hid hfinish
  · split
    next => exact same_abort _ _
    next =>
      refine Same.prepend (same_sendFrame d due ?_ ?_) (by simp [Event.isStarted])
      · exact hid
      · exact hfinish

lemma same_resolve (env : Surroundings ε π) (now : ℕ) (p : ActiveOpusPlayout π) :
    Same p (resolvePlayout env now p) := by
  have hres := resolves env now p
  generalize resolvePlayout env now p = o at hres ⊢
  cases hres with
  | completes hready => exact same_end _
  | idle h => exact same_keep rfl rfl
  | waits hwait hframes h =>
    exact (same_wait h.id_eq h.finishResponse_eq).prepend (by simp [Event.isStarted])
  | @sends q dropped due hwait hframes h =>
    refine Same.prepend (same_speakAndSend (q := { q with mediaReadyDeadline := none }) _ _ ?_ ?_)
      (by simp [Event.isStarted])
    · exact h.id_eq
    · exact h.finishResponse_eq

/-- A playout that is active after a call of `resolve_active_playout` was active before. -/
lemma resolve_spec (env : Surroundings ε π) (now : ℕ) (send : SendPipeline π) :
    (∀ e ∈ (resolveActivePlayout env now send).events, e.isStarted = false) ∧
      ∀ q, (resolveActivePlayout env now send).send.activePlayout = some q →
        ∃ p, send.activePlayout = some p ∧ q.id = p.id ∧ q.finishResponse = p.finishResponse := by
  unfold resolveActivePlayout
  split
  next hnone => exact ⟨by simp, fun q hq => by simp [hnone] at hq⟩
  next p hp =>
    have h := same_resolve env now p
    exact ⟨h.events, fun q hq => ⟨p, hp, h.active q hq⟩⟩

lemma andResolve_spec (env : Surroundings ε π) (now : ℕ) (first : Step ε π) :
    ∃ es, (first.andResolve env now).events = first.events ++ es ∧
      (∀ e ∈ es, e.isStarted = false) ∧
      ∀ q, (first.andResolve env now).send.activePlayout = some q →
        ∃ p, first.send.activePlayout = some p ∧ q.id = p.id ∧
          q.finishResponse = p.finishResponse := by
  unfold Step.andResolve
  split
  · exact ⟨[], by simp, by simp, fun q hq => ⟨q, hq, rfl, rfl⟩⟩
  · obtain ⟨hes, hactive⟩ := resolve_spec env now first.send
    exact ⟨_, rfl, hes, hactive⟩

/-- The playout goes on, and is asked to finish if the command says so. -/
def GoesOn (send : SendPipeline π) (command : PlayoutCommand)
    (active : Option (ActiveOpusPlayout π)) : Prop :=
  ∀ q, active = some q → ∃ p, send.activePlayout = some p ∧ q.id = p.id ∧ command ≠ .cancel p.id ∧
    (p.finishResponse.isSome ∨ (∃ response, command = .finish p.id response) →
      q.finishResponse.isSome)

/-- All that a command can do to the active playout. -/
inductive Handled (send : SendPipeline π) (command : PlayoutCommand) (st : Step ε π) : Prop
  | refused (response : Reply) (error : Error ε) (hcommand : command = .start response)
      (heq : st = ⟨.ok (), send, [.started response (.error error)]⟩)
  | starts (response : Reply) (id : UInt64) (es : List (Event ε π))
      (hcommand : command = .start response)
      (hevents : st.events = .started response (.ok id) :: es)
      (hes : ∀ e ∈ es, e.isStarted = false)
      (hactive : ∀ q, st.send.activePlayout = some q → q.id = id)
  | other (hcommand : ∀ response, command ≠ .start response)
      (hes : ∀ e ∈ st.events, e.isStarted = false)
      (hactive : GoesOn send command st.send.activePlayout)

lemma active?_eq_some : send.active? id = some p ↔ send.activePlayout = some p ∧ p.id = id := by
  simp [SendPipeline.active?, Option.filter_eq_some_iff]

lemma ne_of_active?_none (h : send.active? id = none) (hp : send.activePlayout = some p) :
    p.id ≠ id := by
  intro hid
  rw [active?_eq_some.mpr ⟨hp, hid⟩] at h
  cases h

lemma pushMany_spec (now : ℕ) (p : ActiveOpusPlayout π) (frames : List PlayoutFrame) :
    (p.pushMany frames now).id = p.id ∧
      (p.pushMany frames now).finishResponse = p.finishResponse := by
  unfold ActiveOpusPlayout.pushMany ActiveOpusPlayout.recordUnderflowIfNeeded
  split
  · split
    · split <;> exact ⟨rfl, rfl⟩
    · exact ⟨rfl, rfl⟩
  · exact ⟨rfl, rfl⟩

/-- A command for another playout, or for none. -/
lemma goesOn_self {send : SendPipeline π} {command : PlayoutCommand}
    (h : ∀ p, send.activePlayout = some p →
      command ≠ .cancel p.id ∧ ∀ response, command ≠ .finish p.id response) :
    GoesOn send command send.activePlayout := by
  intro q hq
  obtain ⟨hcancel, hfinish⟩ := h q hq
  refine ⟨q, hq, rfl, hcancel, ?_⟩
  rintro (hsome | ⟨response, hresponse⟩)
  · exact hsome
  · exact absurd hresponse (hfinish response)

/-- Frames for the active playout. -/
lemma goesOn_pushMany {command : PlayoutCommand} (hp : send.active? id = some p)
    (frames : List PlayoutFrame) (hcancel : command ≠ .cancel p.id)
    (hfinish : ∀ response, command ≠ .finish p.id response) :
    GoesOn send command (some (p.pushMany frames now)) := by
  intro q hq
  cases hq
  obtain ⟨hid, hresponse⟩ := pushMany_spec now p frames
  refine ⟨p, (active?_eq_some.mp hp).1, hid, hcancel, ?_⟩
  rintro (hsome | ⟨response, heq⟩)
  · rwa [hresponse]
  · exact absurd heq (hfinish response)

/-- What a command does before the playout is resolved. -/
lemma applyCommand_spec (env : Surroundings ε π) (now : ℕ) (send : SendPipeline π)
    (command : PlayoutCommand) (hcommand : ∀ response, command ≠ .start response) :
    (∀ e ∈ (applyCommand env now send command).events, e.isStarted = false) ∧
      GoesOn send command (applyCommand env now send command).send.activePlayout := by
  cases command with
  | start response => exact absurd rfl (hcommand response)
  | frame id f =>
    dsimp only [applyCommand]
    split
    next hp => exact ⟨by simp, goesOn_pushMany hp [f] (by simp) (by simp)⟩
    next => exact ⟨by simp, goesOn_self (by simp)⟩
  | frames id fs =>
    dsimp only [applyCommand]
    split
    next hp => exact ⟨by simp, goesOn_pushMany hp fs (by simp) (by simp)⟩
    next => exact ⟨by simp, goesOn_self (by simp)⟩
  | finish id response =>
    dsimp only [applyCommand]
    split
    next p hp =>
      obtain ⟨hactive, rfl⟩ := active?_eq_some.mp hp
      refine ⟨?_, fun q hq => ⟨p, hactive, ?_⟩⟩
      · cases h : p.finishResponse <;> simp [Event.isStarted]
      · cases hq
        exact ⟨rfl, by simp, fun _ => rfl⟩
    next hnone =>
      refine ⟨by simp [Event.isStarted], goesOn_self fun p hp => ⟨by simp, fun response heq => ?_⟩⟩
      cases heq
      exact ne_of_active?_none hnone hp rfl
  | cancel id =>
    dsimp only [applyCommand]
    split
    next p hp =>
      have h : Same p (cancelPlayout env p) := same_end _
      refine ⟨h.events, fun q hq => ?_⟩
      rw [cancelPlayout, active_end] at hq
      cases hq
    next hnone =>
      refine ⟨by simp, goesOn_self fun p hp => ⟨fun heq => ?_, by simp⟩⟩
      cases heq
      exact ne_of_active?_none hnone hp rfl

lemma handled (env : Surroundings ε π) (now : ℕ) (send : SendPipeline π)
    (command : PlayoutCommand) :
    Handled send command (handlePlayoutCommand env now send command) := by
  obtain ⟨es, hevents, hes, hactive⟩ := andResolve_spec env now (applyCommand env now send command)
  by_cases hstart : ∃ response, command = .start response
  · obtain ⟨response, rfl⟩ := hstart
    unfold handlePlayoutCommand
    split
    next heq _ =>
      cases heq
      exact .refused response _ rfl rfl
    next =>
      refine .starts response send.nextPlayoutId es rfl hevents hes fun q hq => ?_
      obtain ⟨p, hp, hid, -⟩ := hactive q hq
      cases hp
      exact hid
  · simp only [not_exists] at hstart
    have heq : handlePlayoutCommand env now send command =
        (applyCommand env now send command).andResolve env now := by
      cases command with
      | start response => exact absurd rfl (hstart response)
      | _ => rfl
    obtain ⟨hfirst, hgoes⟩ := applyCommand_spec env now send command hstart
    rw [heq]
    refine .other hstart ?_ fun q hq => ?_
    · rw [hevents]
      intro e he
      rcases List.mem_append.mp he with he | he
      · exact hfirst e he
      · exact hes e he
    · obtain ⟨r, hr, hid, hfinish⟩ := hactive q hq
      obtain ⟨p, hp, hrid, hcancel, hsome⟩ := hgoes r hr
      exact ⟨p, hp, hid.trans hrid, hcancel, fun h => by rw [hfinish]; exact hsome h⟩

end Cacophony.Playout
