import Cacophony.Pipeline
import Cacophony.ReorderRuns

/-!
What is left to wake for.

The arm that wakes for a deadline takes media from the streams while the queue of ready frames has
a free place. When the queue is full first, a stream may be left with a deadline that has passed,
and the driver wakes for it again at once. Media that has to wait for keys takes no place; a frame
that was completed long ago then waits with a deadline that has passed already. Neither happens
when nothing is overdue, or the free places are more than the media due, and no frame in an
assembler is too old.
-/

namespace Cacophony.Pipeline

open Transport RtpPayload Assembler Reorder
open Deadlines Streams BucketQueue PendingMedia
open Runs

variable {σ ρ : Type} {tuning : ConnectionRuntimeTuning} {now : ℕ}

/-! ### Gaps -/

/-- No deadline has passed, and no packet that is missing is overdue. -/
structure OnTime (tuning : ConnectionRuntimeTuning) (now : ℕ) (r : ReceiveState ρ) : Prop where
  later : ∀ deadline, r.pendingRtpReorderDeadline = some deadline → now < deadline
  marks : ∀ x s n mark, r.ssrc.lookup x = some s → s.missing.lookup n = some mark →
    ¬ Overdue tuning now false mark

lemma deadline_of_marks {s : ReceiveSsrcState ρ} {deadline : ℕ}
    (h : ∀ n mark, s.missing.lookup n = some mark → ¬ Overdue tuning now false mark)
    (hdeadline : s.pendingReorderDeadline tuning = some deadline) : now < deadline := by
  simp only [ReceiveSsrcState.pendingReorderDeadline, bind, Option.bind_eq_some_iff, pure,
    Option.some.injEq] at hdeadline
  obtain ⟨n, -, mark, hmark, rfl⟩ := hdeadline
  exact not_le.mp fun hle => h n mark hmark (.inr hle)

/-- Handing out marks nothing. -/
lemma lookup_missing_pop {s : ReceiveSsrcState ρ} {n : UInt16} {mark : MissingRtpPacket}
    (h : s.popReadyBufferedFrame.2.missing.lookup n = some mark) :
    s.missing.lookup n = some mark := by
  have hfinish (outlet : Outlet ρ) : (s.takeReady.2.finish outlet).2.missing =
      s.takeReady.2.missing := by
    cases outlet <;> rfl
  rw [ReceiveSsrcState.popReadyBufferedFrame, hfinish] at h
  unfold ReceiveSsrcState.takeReady at h
  split at h
  · exact h
  · split at h
    · exact h
    next k _ =>
      split at h
      · exact h
      · exact (lookup_of_lookup_erase h).2

lemma OnTime.round {r : ReceiveState ρ} (h : OnTime tuning now r) :
    OnTime tuning now (r.drainRound tuning now).state := by
  have hround : Rounds tuning now r (r.drainRound tuning now) := drainRound_rounds r now
  generalize r.drainRound tuning now = round at hround ⊢
  have hlater := r.rtpReorderDeadlines.nextDeadline_later.mp h.later
  cases hround with
  | @pop ssrc s ready queued _ hs =>
    have hmarks n mark (hmark : s.popReadyBufferedFrame.2.missing.lookup n = some mark) :=
      h.marks ssrc s n mark hs (lookup_missing_pop hmark)
    rw [state_ofResult]
    refine ⟨(DeadlineSet.nextDeadline_later _).mpr fun x deadline hx => ?_, ?_⟩
    · rw [ReceiveState.update, lookup_deadlines_refresh (AList.lookup_insert _)] at hx
      split at hx
      · exact deadline_of_marks hmarks hx
      · exact hlater x deadline hx
    · intro x s' n mark hs' hmark
      rw [ssrc_update] at hs'
      by_cases hx : x = ssrc
      · rw [hx, AList.lookup_insert, Option.some.injEq] at hs'
        exact hmarks n mark (hs' ▸ hmark)
      · exact h.marks x s' n mark (by rwa [AList.lookup_insert_ne hx] at hs') hmark
  | expire _ _ hs hdeadline hle =>
    exact absurd (deadline_of_marks (fun n mark => h.marks _ _ n mark hs) hdeadline)
      (not_lt.mpr hle)
  | idle _ hexpired =>
    exact ⟨(DeadlineSet.nextDeadline_later _).mpr (expiredMissing_none hexpired), h.marks⟩

/-! ### Frames in the assemblers -/

/-- The frame with the time it was completed. -/
def stamped (frame : PendingMediaFrame ρ) (time : ℕ) : Media ρ := { frame with enqueuedAt := time }

/-- The frames of a stream that were completed before this instant, and wait in its assembler. -/
def waiting (t : TimedState ρ) (x : UInt32) : List (Media ρ) :=
  (t.state.ssrc.lookup x).elim [] fun s =>
    List.zipWith stamped s.assembler.completed (t.completedAt x)

/-- A stream with such a frame hands out the first. -/
lemma pop_stamped (s : ReceiveSsrcState ρ) {times : List ℕ}
    (h : times.length ≤ s.assembler.completed.length) : times = [] ∨
      ∃ frame time, s.popReadyBufferedFrame.1 = .ok (some frame) ∧ times.head? = some time ∧
        List.zipWith stamped s.assembler.completed times = stamped frame time ::
          List.zipWith stamped s.popReadyBufferedFrame.2.assembler.completed times.tail := by
  obtain ⟨nextSeq, missing, pendingMedia, ⟨partialFrame, completed⟩⟩ := s
  rcases times with _ | ⟨time, times⟩
  · exact .inl rfl
  rcases completed with _ | ⟨frame, completed⟩
  · exact absurd h (by simp)
  · exact .inr ⟨frame, time, rfl, rfl, rfl⟩

/-- A round takes the first of these frames from a stream, or it hands out nothing, and loses none
if the streams with something to hand out are queued. -/
inductive Releases (tuning : ConnectionRuntimeTuning) (now : ℕ) (t : TimedState ρ) : Prop
  | pop (ssrc : UInt32)
      (hnext : ∀ x, waiting (t.next tuning now) x =
        if x = ssrc then (waiting t ssrc).tail else waiting t x)
      (hround : ∀ r, t.state.drainRound tuning now ≠ .returns none r)
      (hframe : (waiting t ssrc = [] ∧ completionTime now t.state t.completedAt = now) ∨
        ∃ frame r, t.state.drainRound tuning now = .returns (some (.ok frame)) r ∧
          (waiting t ssrc).head? = some (stamped frame (completionTime now t.state t.completedAt)))
  | other (hnext : ∀ x, waiting (t.next tuning now) x = waiting t x ∨
        waiting (t.next tuning now) x = [])
      (hround : ∀ x r, t.state.drainRound tuning now ≠ .returns (some x) r)
      (hempty : QueuedBut none t.state → ∀ x, waiting t x = [])

lemma releases (tuning : ConnectionRuntimeTuning) (now : ℕ) (t : TimedState ρ) :
    Releases tuning now t := by
  have hround : Rounds tuning now t.state (t.state.drainRound tuning now) :=
    drainRound_rounds t.state now
  -- a stream that has completed frames is in the queue
  have hempty {ready : List UInt32} {queued : Finset UInt32}
      (hpop : popReady t.state.ssrc t.state.readySsrcs t.state.queuedReadySsrcs =
        (none, ready, queued)) (hq : QueuedBut none t.state) (x : UInt32) : waiting t x = [] := by
    unfold waiting
    rcases hs : t.state.ssrc.lookup x with _ | s
    · rfl
    · simp [(not_ready_iff.mp (hq.settled hpop x s hs)).1]
  generalize hr : t.state.drainRound tuning now = round at hround
  cases hround with
  | @pop ssrc s ready queued hpop hs =>
    have htime : completionTime now t.state t.completedAt =
        (t.completedAt ssrc).head?.getD now := by
      simp [completionTime, ReceiveState.popReadyBufferedSsrc, hpop]
    have hwaiting : waiting t ssrc =
        List.zipWith stamped s.assembler.completed (t.completedAt ssrc) := by
      rw [waiting, hs, Option.elim_some]
    have hnext (x : UInt32) : waiting (t.next tuning now) x = if x = ssrc then
        List.zipWith stamped s.popReadyBufferedFrame.2.assembler.completed
          (t.completedAt ssrc).tail else waiting t x := by
      simp only [waiting, TimedState.next, hr, state_ofResult, ssrc_update, timesAfter,
        ReceiveState.popReadyBufferedSsrc, hpop]
      split
      next hx => rw [hx, AList.lookup_insert, Function.update_self, Option.elim_some]
      next hx => rw [AList.lookup_insert_ne hx, Function.update_of_ne hx]
    have hreturns (r : ReceiveState ρ) : t.state.drainRound tuning now ≠ .returns none r := by
      rw [hr]
      exact ofResult_ne _ _ _
    rcases pop_stamped s (t.covers ssrc s hs) with htimes | ⟨frame, time, hresult, hhead, hzip⟩
    · refine .pop ssrc (fun x => ?_) hreturns (.inl ⟨?_, by simp [htime, htimes]⟩)
      · rw [hnext, hwaiting, htimes]
        simp
      · rw [hwaiting, htimes, List.zipWith_nil_right]
    · refine .pop ssrc (fun x => ?_) hreturns (.inr ⟨frame, _, hr.trans (by rw [hresult]; rfl), ?_⟩)
      · rw [hnext, hwaiting, hzip, List.tail_cons]
      · rw [hwaiting, hzip, htime, hhead]
        rfl
  | @expire ssrc s deadline ready queued deadlines hpop hexpired hs =>
    refine .other (fun x => ?_) (fun x r h => ?_) (hempty hpop)
    · simp only [waiting, TimedState.next, hr, ReceiveState.Round.state, ssrc_update, timesAfter,
        ReceiveState.popReadyBufferedSsrc, hpop, ReceiveState.expiredMissingSsrc, hexpired]
      by_cases hx : x = ssrc
      · right
        rw [hx, AList.lookup_insert, Function.update_self, Option.elim_some, List.zipWith_nil_right]
      · left
        rw [AList.lookup_insert_ne hx, Function.update_of_ne hx]
    · rw [hr] at h
      cases h
  | idle hpop hexpired =>
    refine .other (fun x => .inl ?_) (fun x r h => ?_) (hempty hpop)
    · simp only [waiting, TimedState.next, hr, ReceiveState.Round.state, timesAfter,
        ReceiveState.popReadyBufferedSsrc, hpop, ReceiveState.expiredMissingSsrc, hexpired]
    · rw [hr] at h
      cases h

variable {t t' u : TimedState ρ} {media : Media ρ} {x : Option (Except RtpError (Media ρ))}

/-- Nothing comes to wait in a round, and what it hands out has waited, or was completed at this
instant. -/
lemma waiting_of_next (t : TimedState ρ) (y : UInt32) (h : media ∈ waiting (t.next tuning now) y) :
    media ∈ waiting t y := by
  rcases releases tuning now t with ⟨ssrc, hnext, -, -⟩ | ⟨hnext, -, -⟩
  · rw [hnext] at h
    split at h
    next heq => exact heq ▸ List.mem_of_mem_tail h
    next => exact h
  · rcases hnext y with heq | heq
    · rwa [← heq]
    · rw [heq] at h
      cases h

variable (media) in
lemma waiting_of_drain (h : t.drainOrderedMedia tuning now = (x, t')) :
    (∀ y, media ∈ waiting t' y → media ∈ waiting t y) ∧
      (x = some (.ok media) → (∃ y, media ∈ waiting t y) ∨ media.enqueuedAt = now) := by
  fun_induction TimedState.drainOrderedMedia tuning now t with
  | case1 t result r hround =>
    obtain ⟨rfl, rfl⟩ := Prod.mk.inj h
    refine ⟨waiting_of_next t, fun hx => ?_⟩
    obtain ⟨_ | frame, rfl, hmap⟩ := Option.map_eq_some_iff.mp hx
    · cases hmap
    obtain rfl : stamped frame (completionTime now t.state t.completedAt) = media :=
      Except.ok.inj hmap
    rcases releases tuning now t with ⟨ssrc, -, -, ⟨-, htime⟩ | ⟨frame', r', hreturns, hhead⟩⟩ |
      ⟨-, hnothing, -⟩
    · exact .inr htime
    · cases hround.symm.trans hreturns
      exact .inl ⟨ssrc, List.mem_of_mem_head? hhead⟩
    · exact absurd hround (hnothing _ _)
  | case2 t r hround ih =>
    obtain ⟨hold, hnew⟩ := ih h
    refine ⟨fun y hy => waiting_of_next t y (hold y hy), fun hx => (hnew hx).imp_left ?_⟩
    rintro ⟨y, hy⟩
    exact ⟨y, waiting_of_next t y hy⟩

/-- The media that the streams hand out at this instant, one after the other, and the streams after
it. -/
inductive HandsOut (tuning : ConnectionRuntimeTuning) (now : ℕ) :
    TimedState ρ → List (Except RtpError (Media ρ)) → TimedState ρ → Prop
  | nil (t : TimedState ρ) : HandsOut tuning now t [] t
  | cons {t t' u : TimedState ρ} {media : Except RtpError (Media ρ)}
      {l : List (Except RtpError (Media ρ))}
      (hdrain : t.drainOrderedMedia tuning now = (some media, t'))
      (hrest : HandsOut tuning now t' l u) : HandsOut tuning now t (media :: l) u

namespace HandsOut

variable {u' : TimedState ρ} {l l' : List (Except RtpError (Media ρ))}

lemma single {media : Except RtpError (Media ρ)}
    (h : t.drainOrderedMedia tuning now = (some media, u)) : HandsOut tuning now t [media] u :=
  .cons h (.nil u)

lemma append (h : HandsOut tuning now t l u) (h' : HandsOut tuning now u l' u') :
    HandsOut tuning now t (l ++ l') u' := by
  induction h with
  | nil t => exact h'
  | cons hdrain _ ih => exact .cons hdrain (ih h')

lemma onTime (h : HandsOut tuning now t l u) (ht : OnTime tuning now t.state) :
    OnTime tuning now u.state := by
  have hdrain {t t' : TimedState ρ} {x : Option (Except RtpError (Media ρ))}
      (h : t.drainOrderedMedia tuning now = (x, t')) (ht : OnTime tuning now t.state) :
      OnTime tuning now t'.state := by
    fun_induction TimedState.drainOrderedMedia tuning now t with
    | case1 t => exact (Prod.mk.inj h).2 ▸ ht.round
    | case2 t r hround ih => exact ih h ht.round
  induction h with
  | nil t => exact ht
  | cons h _ ih => exact ih (hdrain h ht)

/-- What is handed out has waited, or was completed at this instant. -/
lemma waiting (h : HandsOut tuning now t l u) (hmem : .ok media ∈ l) :
    (∃ y, media ∈ Pipeline.waiting t y) ∨ media.enqueuedAt = now := by
  induction h with
  | nil t => cases hmem
  | cons hdrain _ ih =>
    obtain ⟨hold, hnew⟩ := waiting_of_drain media hdrain
    rcases List.mem_cons.mp hmem with rfl | hmem
    · exact hnew rfl
    · exact (ih hmem).imp_left fun ⟨y, hy⟩ => ⟨y, hold y hy⟩

end HandsOut

/-! ### Media that has to wait -/

variable (D : DaveMedia σ) (env : Surroundings)

/-- Whether media takes a place in the queue of ready frames; an encrypted frame that has to wait
takes none. -/
def takesPlace (ready : Bool) : Except RtpError (Media ρ) → Bool
  | .error _ => true
  | .ok media => !media.dave || (deferral env ready media).isNone

/-- A frame has to wait, and was completed too long ago. -/
def Stale (ready : Bool) (ttl now : ℕ) (media : Media ρ) : Prop :=
  takesPlace env ready (.ok media) = false ∧ media.enqueuedAt + ttl ≤ now

/-- The pipeline `p'` is `p` after media has been taken from the streams. -/
structure Serves (tuning : ConnectionRuntimeTuning) (now : ℕ) (p : ReceivePipeline σ ρ)
    (l : List (Except RtpError (Media ρ))) (p' : ReceivePipeline σ ρ) : Prop where
  handsOut : HandsOut tuning now p.streams l p'.streams
  ready : D.ready p'.session = D.ready p.session
  ttl : p'.pendingDaveMedia.ttl = p.pendingDaveMedia.ttl
  later : p'.pendingDaveMedia.buckets.Later now ↔ p.pendingDaveMedia.buckets.Later now ∧
    ∀ media, .ok media ∈ l → ¬ Stale env (D.ready p.session) p.pendingDaveMedia.ttl now media

variable {D env} {p p' p'' : ReceivePipeline σ ρ} {l l' : List (Except RtpError (Media ρ))}

lemma Serves.refl (p : ReceivePipeline σ ρ) : Serves D env tuning now p [] p :=
  ⟨.nil _, rfl, rfl, by simp⟩

lemma Serves.trans (h : Serves D env tuning now p l p') (h' : Serves D env tuning now p' l' p'') :
    Serves D env tuning now p (l ++ l') p'' where
  handsOut := h.handsOut.append h'.handsOut
  ready := h'.ready.trans h.ready
  ttl := h'.ttl.trans h.ttl
  later := by
    rw [h'.later, h.later, h.ready, h.ttl, and_assoc]
    refine and_congr_right fun _ => ?_
    simp only [List.mem_append, or_imp, forall_and]

/-! ### The calls -/

variable (D env) in
/-- A frame takes a place, or goes to wait. -/
lemma decode_cases (p : ReceivePipeline σ ρ) (media : Media ρ) (now : ℕ) :
    (takesPlace env (D.ready p.session) (.ok media) = true ∧
        ∃ result session, p.decodeOrderedMediaFrame D env media now =
          (some result, { p with session }) ∧ D.ready session = D.ready p.session) ∨
      (takesPlace env (D.ready p.session) (.ok media) = false ∧
        (p.decodeOrderedMediaFrame D env media now).2.session = p.session ∧
        ∃ bucket waiting, (p.decodeOrderedMediaFrame D env media now).2.pendingDaveMedia =
          { p.pendingDaveMedia with
            buckets := p.pendingDaveMedia.buckets.push bucket waiting
              (media.enqueuedAt + p.pendingDaveMedia.ttl) }) := by
  unfold ReceivePipeline.decodeOrderedMediaFrame takesPlace
  by_cases hdave : media.dave = true
  · rcases hdeferral : deferral env (D.ready p.session) media with _ | bucket
    · obtain ⟨result, session, hdecode, hready⟩ :=
        decodeOrEnqueue_of_no_deferral D p.receive now hdeferral
      refine .inl ⟨by simp [hdeferral], result.mapError .dave, session, ?_, hready⟩
      simp only [hdave, if_true, hdecode]
      rfl
    · have hdecode := decodeOrEnqueue_of_deferral D p.receive now hdeferral
      refine .inr ⟨by simp [hdave, hdeferral], ?_⟩
      simp only [hdave, if_true, hdecode]
      exact ⟨rfl, bucket, _, rfl⟩
  · rw [if_neg hdave]
    exact .inl ⟨by simp [hdave], _, p.session, rfl, rfl⟩

/-- One piece of media is taken from the streams. -/
lemma serves_drain {media : Except RtpError (Media ρ)} {streams : TimedState ρ}
    (h : p.streams.drainOrderedMedia tuning now = (some media, streams))
    (hplace : takesPlace env (D.ready p.session) media = true) :
    Serves D env tuning now p [media] { p with streams } where
  handsOut := .single h
  ready := rfl
  ttl := rfl
  later := by
    refine ⟨fun hlater => ⟨hlater, ?_⟩, And.left⟩
    rintro media' hmem ⟨hnot, -⟩
    rw [List.mem_singleton.mp hmem, hplace] at hnot
    cases hnot

lemma serves_decode {media : Media ρ} {streams : TimedState ρ}
    {result : Option (FrameReceiveResult ρ)}
    (h : p.streams.drainOrderedMedia tuning now = (some (.ok media), streams))
    (hdecode : ReceivePipeline.decodeOrderedMediaFrame D env { p with streams } media now =
      (result, p')) :
    Serves D env tuning now p [.ok media] p' := by
  rcases decode_cases D env { p with streams } media now with
    ⟨hplace, _, session, hout, hready⟩ | ⟨hplace, hsession, bucket, waiting, hpending⟩
  · obtain ⟨rfl, rfl⟩ := Prod.mk.inj (hout.symm.trans hdecode)
    have hserves := serves_drain h hplace
    exact ⟨hserves.handsOut, hready, rfl, hserves.later⟩
  · have hstreams := ReceivePipeline.streams_decode D env { p with streams } media now
    rw [hdecode] at hsession hpending hstreams
    refine ⟨hstreams ▸ .single h, by rw [hsession], by rw [hpending], ?_⟩
    rw [hpending]
    dsimp only
    rw [BucketDeadlineQueue.later_push]
    refine and_congr_right fun _ => ⟨?_, fun hfresh => ?_⟩
    · rintro hlt media' hmem ⟨-, hle⟩
      obtain ⟨⟩ := List.mem_singleton.mp hmem
      omega
    · by_contra hle
      exact hfresh media (List.mem_singleton_self _) ⟨hplace, not_lt.mp hle⟩

/-- A call takes media from the streams, at least one piece for a result. Without a result, the
streams have nothing more. -/
lemma serves_drainReady {result : Option (FrameReceiveResult ρ)}
    (h : ReceivePipeline.drainReadyVoiceFrame D env tuning now p = (result, p')) :
    ∃ l p₁, Serves D env tuning now p l p₁ ∧
      ((result ≠ none ∧ p' = p₁ ∧ 0 < l.length) ∨
        (result = none ∧ p'.pendingDaveMedia = p₁.pendingDaveMedia ∧
          p₁.streams.drainOrderedMedia tuning now = (none, p'.streams))) := by
  fun_induction ReceivePipeline.drainReadyVoiceFrame D env tuning now p with
  | case1 p streams hdrain =>
    cases h
    exact ⟨[], p, .refl p, .inr ⟨rfl, rfl, hdrain⟩⟩
  | case2 p error streams hdrain =>
    cases h
    exact ⟨_, _, serves_drain hdrain rfl, .inl ⟨by simp, rfl, Nat.one_pos⟩⟩
  | case3 p media streams hdrain result' p₁ hdecode =>
    cases h
    exact ⟨_, _, serves_decode hdrain hdecode, .inl ⟨by simp, rfl, Nat.one_pos⟩⟩
  | case4 p media streams hdrain p₁ hdecode ih =>
    obtain ⟨l, p₂, hrest, hend⟩ := ih h
    refine ⟨_, p₂, (serves_decode hdrain hdecode).trans hrest, hend.imp_left ?_⟩
    rintro ⟨hsome, heq, -⟩
    exact ⟨hsome, heq, Nat.succ_pos _⟩

variable (D env) in
/-- How `collect_ready_voice_frames` ends: the streams have nothing more, or for every free place
some media was taken. -/
theorem collects (p : ReceivePipeline σ ρ) :
    ∃ l p₁, Serves D env tuning now p l p₁ ∧
      (p.collectReadyVoiceFrames D env tuning now).pendingDaveMedia = p₁.pendingDaveMedia ∧
      (p₁.streams.drainOrderedMedia tuning now =
          (none, (p.collectReadyVoiceFrames D env tuning now).streams) ∨
        (p.collectReadyVoiceFrames D env tuning now).streams = p₁.streams ∧
          p.readyFrames.room ≤ l.length) := by
  fun_induction ReceivePipeline.collectReadyVoiceFrames D env tuning now p with
  | case1 p hroom p' hdrain =>
    obtain ⟨l, p₁, hserves, ⟨hsome, -⟩ | ⟨-, hpending, hnone⟩⟩ := serves_drainReady hdrain
    · exact absurd rfl hsome
    · exact ⟨l, p₁, hserves, hpending, .inl hnone⟩
  | case2 p hroom result p' hdrain ih =>
    obtain ⟨l, p₁, hserves, ⟨-, rfl, hpos⟩ | ⟨hnone, -⟩⟩ := serves_drainReady hdrain
    · have hready := (ReceivePipeline.drainReadyVoiceFrame_weight D env tuning hdrain).2
      have hplaces : (p'.readyFrames.pushBack result).2.room + 1 = p.readyFrames.room := by
        rw [← hready] at hroom ⊢
        exact p'.readyFrames.room_pushBack result hroom
      obtain ⟨l', p₂, hrest, hpending, hend⟩ := ih
      refine ⟨l ++ l', p₂, hserves.trans ⟨hrest.handsOut, hrest.ready, hrest.ttl, hrest.later⟩,
        hpending, hend.imp_right fun ⟨heq, hle⟩ => ⟨heq, ?_⟩⟩
      dsimp only at hle
      rw [List.length_append]
      omega
    · cases hnone
  | case3 p hfull =>
    refine ⟨[], p, .refl p, rfl, .inr ⟨rfl, ?_⟩⟩
    have hnone : ¬ 0 < p.readyFrames.room := fun h => hfull (p.readyFrames.hasCapacity_iff.mpr h)
    rw [List.length_nil]
    omega

/-- A full queue takes nothing. -/
lemma collect_full (hroom : p.readyFrames.room = 0) :
    p.collectReadyVoiceFrames D env tuning now = p := by
  rw [ReceivePipeline.collectReadyVoiceFrames, if_neg]
  intro hcapacity
  have := p.readyFrames.hasCapacity_iff.mp hcapacity
  omega

/-- The pipeline keeps up with its streams. Nothing is overdue in them (in a full queue, where none
of them moves, no deadline), or the queue of ready frames has more room than media is due. And of
the frames that wait in the assemblers, those that have to wait for keys are not too old. -/
structure KeepsUp (D : DaveMedia σ) (env : Surroundings) (tuning : ConnectionRuntimeTuning)
    (now : ℕ) (p : ReceivePipeline σ ρ) : Prop where
  gaps : OnTime tuning now p.streams.state ∨
    p.readyFrames.room = 0 ∧
      (∀ deadline, p.pendingRtpReorderDeadline = some deadline → now < deadline) ∨
    ssrcsDue p.streams.state.ssrc < p.readyFrames.room
  frames : p.readyFrames.room = 0 ∨ 0 < p.pendingDaveMedia.ttl ∧
    ∀ x, ∀ media ∈ waiting p.streams x,
      ¬ Stale env (D.ready p.session) p.pendingDaveMedia.ttl now media

lemma KeepsUp.later (h : KeepsUp D env tuning now p)
    (hlater : p.pendingDaveMedia.buckets.Later now) :
    (p.collectReadyVoiceFrames D env tuning now).pendingDaveMedia.buckets.Later now := by
  rcases h.frames with hroom | ⟨httl, hfresh⟩
  · rwa [collect_full hroom]
  · obtain ⟨l, p₁, hserves, hpending, -⟩ := collects D env p
    rw [hpending]
    refine hserves.later.mpr ⟨hlater, fun media hmem hstale => ?_⟩
    rcases hserves.handsOut.waiting hmem with ⟨x, hx⟩ | htime
    · exact hfresh x media hx hstale
    · have := hstale.2
      omega

def av1Packet (seq : UInt16) (timestamp : UInt32) (marker : Bool) : PendingMediaPacket Unit where
  raw := ()
  rtp := ⟨2, false, false, marker, 101, seq, timestamp, 7, 12, 12⟩
  userId := none
  codec := .av1
  encryptedPayload := [0x18, 0x30, 0x01]
  dave := true

/-- The second packet completes two frames, and one of them is left in the assembler. -/
def twoFrames : ReceiveState Unit :=
  (run (ClockedState.step .default) {}
    [⟨0, .push (av1Packet 0 0 false)⟩, ⟨0, .push (av1Packet 1 1 true)⟩]).state

end Cacophony.Pipeline
