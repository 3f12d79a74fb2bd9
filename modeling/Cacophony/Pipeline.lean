import Cacophony.PendingMedia
import Cacophony.Schedules

/-!
The receive side of a connection, `ReceivePipeline` of `receive.rs`, and what the driver does with
it when it wakes.

Frames that the streams hand out are decrypted, or wait for keys, and go to a bounded queue of
frames that are ready. From there they go to the frame stream, when one is attached. The arm of the
driver that wakes for a deadline runs at one instant, `now`.
-/

namespace Cacophony.Pipeline

open Transport RtpPayload Assembler Reorder
open Deadlines Streams BucketQueue PendingMedia

/-! ### The queue of ready frames -/

structure BoundedDeque (α : Type) where
  items : List α
  capacity : ℕ
  capacity_pos : 0 < capacity
  length_le : items.length ≤ capacity

namespace BoundedDeque

variable {α : Type} (q : BoundedDeque α)

def hasCapacity : Bool := q.items.length < q.capacity

/-- The places that are free. -/
def room : ℕ := q.capacity - q.items.length

def popFront : Option α × BoundedDeque α :=
  (q.items.head?, { q with
    items := q.items.tail
    length_le := by
      have := q.length_le
      rw [List.length_tail]
      omega })

/-- `push_front`, and the item it drops. -/
def pushFront (item : α) : Option α × BoundedDeque α :=
  if hfull : q.capacity ≤ q.items.length then
    (q.items.getLast?, { q with
      items := item :: q.items.dropLast
      length_le := by
        have hle := q.length_le
        have hpos := q.capacity_pos
        rw [List.length_cons, List.length_dropLast]
        omega })
  else
    (none, { q with
      items := item :: q.items
      length_le := by
        rw [List.length_cons]
        omega })

/-- `push_back`, and the item it drops. -/
def pushBack (item : α) : Option α × BoundedDeque α :=
  if hfull : q.capacity ≤ q.items.length then
    (q.items.head?, { q with
      items := q.items.tail ++ [item]
      length_le := by
        have hle := q.length_le
        have hpos := q.capacity_pos
        rw [List.length_append, List.length_tail, List.length_singleton]
        omega })
  else
    (none, { q with
      items := q.items ++ [item]
      length_le := by
        rw [List.length_append, List.length_singleton]
        omega })

def retain (keep : α → Bool) : BoundedDeque α :=
  { q with
    items := q.items.filter keep
    length_le := (List.length_filter_le _ _).trans q.length_le }

lemma hasCapacity_iff : q.hasCapacity = true ↔ 0 < q.room := by
  rw [hasCapacity, decide_eq_true_iff, room]
  omega

lemma room_pushBack (item : α) (h : q.hasCapacity = true) :
    (q.pushBack item).2.room + 1 = q.room := by
  have hlt : q.items.length < q.capacity := of_decide_eq_true h
  rw [pushBack, dif_neg (not_le.mpr hlt)]
  simp only [room, List.length_append, List.length_singleton]
  omega

end BoundedDeque

/-! ### The frame stream -/

/-- The channel of a frame stream, seen from its sender. -/
structure FrameStream (α : Type) where
  frames : List α
  limit : ℕ
  closed : Bool

inductive TrySendError
  | full
  | closed

namespace FrameStream

variable {α : Type} (s : FrameStream α)

def capacity : ℕ := s.limit - s.frames.length

def trySend (frame : α) : Except TrySendError (FrameStream α) :=
  if s.closed then .error .closed
  else if s.capacity = 0 then .error .full
  else .ok { s with frames := s.frames ++ [frame] }

end FrameStream

/-- The loop of `flush_frame_stream`. -/
def flushLoop {α : Type} (s : FrameStream α) (q : BoundedDeque α) :
    Option (FrameStream α) × BoundedDeque α :=
  if 0 < s.capacity then
    match _h : q.items with
    | [] => (some s, q)
    | frame :: _ =>
      match s.trySend frame with
      | .ok s => flushLoop s q.popFront.2
      | .error .full => (some s, (q.popFront.2.pushFront frame).2)
      | .error .closed => (none, q.popFront.2)
  else (some s, q)
termination_by q.items.length
decreasing_by
  simp only [BoundedDeque.popFront, _h, List.tail_cons, List.length_cons]
  omega

/-! ### The streams, with the times of their frames -/

/-- The streams, and when the frames that wait in their assemblers were completed, as
`enqueued_at` has it. The list of a stream has the times before this instant; frames that it does
not cover were completed at this instant. -/
structure TimedState (ρ : Type) where
  state : ReceiveState ρ
  completedAt : UInt32 → List ℕ
  covers : ∀ x s, state.ssrc.lookup x = some s →
    (completedAt x).length ≤ s.assembler.completed.length

variable {ρ : Type}

/-- The times after a round: the stream that is handed out of loses its first, and the stream whose
packets are given up loses all, as its assembler is cleared. -/
def timesAfter (tuning : ConnectionRuntimeTuning) (now : ℕ) (r : ReceiveState ρ)
    (completedAt : UInt32 → List ℕ) : UInt32 → List ℕ :=
  match r.popReadyBufferedSsrc with
  | (some ssrc, _) => Function.update completedAt ssrc (completedAt ssrc).tail
  | (none, r) =>
    match r.expiredMissingSsrc tuning now with
    | (some ssrc, _) => Function.update completedAt ssrc []
    | (none, _) => completedAt

/-- When the frame that a round hands out was completed. -/
def completionTime (now : ℕ) (r : ReceiveState ρ) (completedAt : UInt32 → List ℕ) : ℕ :=
  (r.popReadyBufferedSsrc.1.bind fun ssrc => (completedAt ssrc).head?).getD now

/-- A frame that has been completed is handed out first. -/
lemma completed_pop (s : ReceiveSsrcState ρ) :
    s.assembler.completed.tail.length ≤
      s.popReadyBufferedFrame.2.assembler.completed.length := by
  obtain ⟨nextSeq, missing, pendingMedia, ⟨partialFrame, completed⟩⟩ := s
  rcases completed with _ | ⟨frame, completed⟩
  · exact Nat.zero_le _
  · simp [ReceiveSsrcState.popReadyBufferedFrame, ReceiveSsrcState.takeReady,
      RtpFrameAssembler.popCompleted, ReceiveSsrcState.finish]

lemma covers_round {tuning : ConnectionRuntimeTuning} (t : TimedState ρ) (now : ℕ) :
    ∀ x s, (t.state.drainRound tuning now).state.ssrc.lookup x = some s →
      (timesAfter tuning now t.state t.completedAt x).length ≤ s.assembler.completed.length := by
  have hround : Rounds tuning now t.state (t.state.drainRound tuning now) :=
    drainRound_rounds t.state now
  generalize t.state.drainRound tuning now = round at hround ⊢
  unfold timesAfter ReceiveState.popReadyBufferedSsrc
  cases hround with
  | @pop ssrc s ready queued hpop hs =>
    intro x s' hs'
    rw [hpop]
    rw [state_ofResult, ssrc_update] at hs'
    dsimp only at hs' ⊢
    by_cases hx : x = ssrc
    · subst hx
      rw [AList.lookup_insert, Option.some.injEq] at hs'
      rw [Function.update_self, ← hs']
      refine le_trans ?_ (completed_pop s)
      have := t.covers x s hs
      rw [List.length_tail, List.length_tail]
      omega
    · rw [AList.lookup_insert_ne hx] at hs'
      rw [Function.update_of_ne hx]
      exact t.covers x s' hs'
  | @expire ssrc s deadline ready queued deadlines hpop hexpired hs =>
    intro x s' hs'
    rw [hpop]
    dsimp only [ReceiveState.expiredMissingSsrc]
    rw [hexpired]
    rw [ReceiveState.Round.state, ssrc_update] at hs'
    dsimp only at hs' ⊢
    by_cases hx : x = ssrc
    · rw [hx, Function.update_self]
      exact Nat.zero_le _
    · rw [AList.lookup_insert_ne hx] at hs'
      rw [Function.update_of_ne hx]
      exact t.covers x s' hs'
  | idle hpop hexpired =>
    rw [hpop]
    dsimp only [ReceiveState.expiredMissingSsrc]
    rw [hexpired]
    exact t.covers

namespace TimedState

variable (tuning : ConnectionRuntimeTuning)

/-- The streams after a round. -/
def next (now : ℕ) (t : TimedState ρ) : TimedState ρ where
  state := (t.state.drainRound tuning now).state
  completedAt := timesAfter tuning now t.state t.completedAt
  covers := covers_round t now

omit tuning in
lemma covers_prune (t : TimedState ρ) (removedSsrcs : List UInt32) :
    ∀ x s, (t.state.pruneSsrcs removedSsrcs).ssrc.lookup x = some s →
      (t.completedAt x).length ≤ s.assembler.completed.length := by
  intro x s hs
  unfold ReceiveState.pruneSsrcs at hs
  split at hs
  · exact t.covers x s hs
  · rw [lookup_retain] at hs
    split at hs
    · exact t.covers x s hs
    · cases hs

/-- `prune_ssrcs`; what is kept has the times it had. -/
def pruneSsrcs (removedSsrcs : List UInt32) (t : TimedState ρ) : TimedState ρ where
  state := t.state.pruneSsrcs removedSsrcs
  completedAt := t.completedAt
  covers := t.covers_prune removedSsrcs

/-- `drain_ordered_media`, with the times of the frames. -/
def drainOrderedMedia (now : ℕ) (t : TimedState ρ) :
    Option (Except RtpError (Media ρ)) × TimedState ρ :=
  match _h : t.state.drainRound tuning now with
  | .returns result _ =>
    (result.map (Except.map fun frame =>
      { frame with enqueuedAt := completionTime now t.state t.completedAt }), t.next tuning now)
  | .continues _ => drainOrderedMedia now (t.next tuning now)
termination_by ssrcsWeight t.state.ssrc
decreasing_by
  have hlt := ssrcsWeight_round _h (by rintro _ ⟨⟩)
  rwa [← _h] at hlt

/-- Without the times, these are the streams. -/
lemma drainOrderedMedia_state (t : TimedState ρ) (now : ℕ) :
    (t.drainOrderedMedia tuning now).2.state = (t.state.drainOrderedMedia tuning now).2 ∧
      ((t.drainOrderedMedia tuning now).1.map (Except.map (·.toPendingMediaFrame))) =
        (t.state.drainOrderedMedia tuning now).1 := by
  fun_induction TimedState.drainOrderedMedia tuning now t with
  | case1 t result r hround =>
    have hstate : (t.next tuning now).state = r := congrArg ReceiveState.Round.state hround
    rw [ReceiveState.drainOrderedMedia, hround]
    refine ⟨hstate, ?_⟩
    rcases result with _ | _ | _ <;> rfl
  | case2 t r hround ih =>
    have hstate : (t.next tuning now).state = r := congrArg ReceiveState.Round.state hround
    rw [ReceiveState.drainOrderedMedia, hround]
    rwa [hstate] at ih

variable {tuning}

lemma drainOrderedMedia_weight {now : ℕ} {t t' : TimedState ρ}
    {media : Except RtpError (Media ρ)} (h : t.drainOrderedMedia tuning now = (some media, t')) :
    ssrcsWeight t'.state.ssrc < ssrcsWeight t.state.ssrc := by
  obtain ⟨hstate, hmedia⟩ := t.drainOrderedMedia_state tuning now
  rw [h] at hstate hmedia
  rw [hstate]
  exact ssrcsWeight_drain (Prod.ext hmedia.symm rfl)

end TimedState

/-! ### The pipeline -/

inductive FrameError
  | rtp (error : RtpError)
  | dave (error : DaveDecryptError)
  deriving DecidableEq

abbrev FrameReceiveResult (ρ : Type) := Except FrameError (ReceivedFrame ρ)

/-- The receive side, with the session that decrypts; buffers and packet receives are left out. -/
structure ReceivePipeline (σ ρ : Type) where
  streams : TimedState ρ
  pendingDaveMedia : PendingDaveMediaQueues ρ
  ordered : pendingDaveMedia.buckets.Ordered
  session : σ
  readyFrames : BoundedDeque (FrameReceiveResult ρ)
  frameStream : Option (FrameStream (FrameReceiveResult ρ))

variable {σ : Type} (D : DaveMedia σ) (env : Surroundings)

lemma ordered_decode {r : Receive σ ρ} (h : r.pendingDaveMedia.buckets.Ordered) (media : Media ρ)
    (now : ℕ) :
    (decodeOrEnqueueDaveMedia D env r media now).2.pendingDaveMedia.buckets.Ordered := by
  rcases hdeferral : deferral env (D.ready r.session) media with _ | bucket
  · obtain ⟨result, session, hdecode, -⟩ := decodeOrEnqueue_of_no_deferral D r now hdeferral
    rwa [hdecode]
  · rw [decodeOrEnqueue_of_deferral D r now hdeferral]
    exact h.push _ _ _

lemma ordered_pruneSsrcs {q : PendingDaveMediaQueues ρ} (h : q.buckets.Ordered)
    (removedSsrcs : List UInt32) : (q.pruneSsrcs removedSsrcs).buckets.Ordered := by
  unfold PendingDaveMediaQueues.pruneSsrcs
  dsimp only
  generalize DavePendingMediaBucket.all = buckets
  generalize q.buckets = b at h ⊢
  induction buckets generalizing b with
  | nil => exact h
  | cons bucket buckets ih => exact ih _ (h.retain bucket _)

variable {D env} in
lemma ordered_retry {retry : DavePendingMediaRetry} {clock : ℕ → ℕ} {fuel : ℕ}
    {r : Receive σ ρ} {s : Retrying σ ρ} (h : r.pendingDaveMedia.buckets.Ordered)
    (hs : retryPendingDaveMedia D env retry clock fuel r = some s) :
    s.receive.pendingDaveMedia.buckets.Ordered := by
  unfold retryPendingDaveMedia at hs
  split at hs
  · cases hs
    exact h
  refine Loops.loop_inv (I := fun s => s.receive.pendingDaveMedia.buckets.Ordered) ?_ hs h
  intro s hs _
  have hpop : (s.receive.pendingDaveMedia.popRetry retry).2.buckets.Ordered := hs.popMatching _
  unfold retryRound
  split
  · exact hs
  next popped pendingDaveMedia hpopped =>
    rw [hpopped] at hpop
    dsimp only
    split
    · exact hpop
    · exact ordered_decode D env (r := { s.receive with pendingDaveMedia }) hpop _ _

namespace ReceivePipeline

variable (tuning : ConnectionRuntimeTuning) (p : ReceivePipeline σ ρ)

def pendingRtpReorderDeadline : Option ℕ := p.streams.state.pendingRtpReorderDeadline

/-- What `decode_or_enqueue_dave_media` uses. -/
def receive : Receive σ ρ := ⟨p.pendingDaveMedia, p.session, []⟩

def decodeOrderedMediaFrame (media : Media ρ) (now : ℕ) :
    Option (FrameReceiveResult ρ) × ReceivePipeline σ ρ :=
  if media.dave then
    let decoded := decodeOrEnqueueDaveMedia D env p.receive media now
    (decoded.1.map (Except.mapError .dave), { p with
      pendingDaveMedia := decoded.2.pendingDaveMedia
      ordered := ordered_decode D env p.ordered media now
      session := decoded.2.session })
  else
    (some (.ok ⟨media.raw, media.rtp, media.userId, media.codec.mediaType, media.codec,
      media.encryptedFrame⟩), p)

@[simp] lemma streams_decode (media : Media ρ) (now : ℕ) :
    (p.decodeOrderedMediaFrame D env media now).2.streams = p.streams := by
  unfold decodeOrderedMediaFrame
  split <;> rfl

@[simp] lemma readyFrames_decode (media : Media ρ) (now : ℕ) :
    (p.decodeOrderedMediaFrame D env media now).2.readyFrames = p.readyFrames := by
  unfold decodeOrderedMediaFrame
  split <;> rfl

def drainReadyVoiceFrame (now : ℕ) (p : ReceivePipeline σ ρ) :
    Option (FrameReceiveResult ρ) × ReceivePipeline σ ρ :=
  match _h : p.streams.drainOrderedMedia tuning now with
  | (none, streams) => (none, { p with streams })
  | (some (.error error), streams) => (some (.error (.rtp error)), { p with streams })
  | (some (.ok media), streams) =>
    match _hd : decodeOrderedMediaFrame D env { p with streams } media now with
    | (some result, p') => (some result, p')
    | (none, p') => drainReadyVoiceFrame now p'
termination_by ssrcsWeight p.streams.state.ssrc
decreasing_by
  have hstreams := streams_decode D env { p with streams } media now
  rw [_hd] at hstreams
  rw [hstreams]
  exact TimedState.drainOrderedMedia_weight _h

lemma drainReadyVoiceFrame_weight {now : ℕ} {p p' : ReceivePipeline σ ρ}
    {result : FrameReceiveResult ρ}
    (h : drainReadyVoiceFrame D env tuning now p = (some result, p')) :
    ssrcsWeight p'.streams.state.ssrc < ssrcsWeight p.streams.state.ssrc ∧
      p'.readyFrames = p.readyFrames := by
  fun_induction drainReadyVoiceFrame D env tuning now p with
  | case1 p streams hdrain => cases h
  | case2 p error streams hdrain =>
    cases h
    exact ⟨TimedState.drainOrderedMedia_weight hdrain, rfl⟩
  | case3 p media streams hdrain result' p₁ hdecode =>
    cases h
    have hstreams := streams_decode D env { p with streams } media now
    have hready := readyFrames_decode D env { p with streams } media now
    rw [hdecode] at hstreams hready
    rw [hstreams, hready]
    exact ⟨TimedState.drainOrderedMedia_weight hdrain, rfl⟩
  | case4 p media streams hdrain p₁ hdecode ih =>
    have hstreams := streams_decode D env { p with streams } media now
    have hready := readyFrames_decode D env { p with streams } media now
    rw [hdecode] at hstreams hready
    obtain ⟨hlt, hsame⟩ := ih h
    rw [hstreams] at hlt
    exact ⟨hlt.trans (TimedState.drainOrderedMedia_weight hdrain), hsame.trans hready⟩

def collectReadyVoiceFrames (now : ℕ) (p : ReceivePipeline σ ρ) : ReceivePipeline σ ρ :=
  if p.readyFrames.hasCapacity then
    match _h : drainReadyVoiceFrame D env tuning now p with
    | (none, p) => p
    | (some result, p) =>
      collectReadyVoiceFrames now { p with readyFrames := (p.readyFrames.pushBack result).2 }
  else p
termination_by ssrcsWeight p.streams.state.ssrc
decreasing_by exact (drainReadyVoiceFrame_weight D env tuning _h).1

lemma popExpired_eq_some {q q' : PendingDaveMediaQueues ρ} {now : ℕ} {media : Media ρ}
    (h : q.popExpired now = (some media, q')) :
    ∃ buckets, q.buckets.popExpired now = (some media, buckets) ∧ q' = { q with buckets } := by
  rcases hpop : q.buckets.popExpired now with ⟨out, buckets⟩
  simp only [PendingDaveMediaQueues.popExpired, hpop, Prod.mk.injEq] at h
  exact ⟨buckets, by rw [h.1], h.2.symm⟩

/-- The frames that wait for keys. -/
def waiting : ℕ := (p.pendingDaveMedia.buckets.contents fun _ => true).card

def expirePendingDaveMedia (now : ℕ) (p : ReceivePipeline σ ρ) : ReceivePipeline σ ρ :=
  match _h : p.pendingDaveMedia.popExpired now with
  | (none, _) => p
  | (some _, pendingDaveMedia) =>
    expirePendingDaveMedia now { p with
      pendingDaveMedia
      ordered := by
        have hpop := p.ordered.popExpired now
        rwa [← congrArg (·.2.buckets) _h] }
termination_by p.waiting
decreasing_by
  obtain ⟨buckets, hpop, rfl⟩ := popExpired_eq_some _h
  obtain ⟨b, item, items, hitems, -, rfl⟩ := BucketDeadlineQueue.popExpired_eq_some hpop
  have hcontents := BucketDeadlineQueue.contents_front hitems fun _ => true
  simp only [waiting, hcontents, if_true, Multiset.card_add, Multiset.card_singleton]
  omega

/-- `queue_ready_voice_frame`, for frames one after the other. -/
def queueReadyVoiceFrames (results : List (FrameReceiveResult ρ)) : ReceivePipeline σ ρ :=
  { p with
    readyFrames := results.foldl (fun ready result => (ready.pushBack result).2) p.readyFrames }

/-- `retry_pending_dave_media`; the loop does not look at the frames it has queued, so they are
queued when it ends. -/
def retryPendingDaveMedia (retry : DavePendingMediaRetry) (clock : ℕ → ℕ) (fuel : ℕ)
    (p : ReceivePipeline σ ρ) : Option (ReceivePipeline σ ρ) :=
  match h : PendingMedia.retryPendingDaveMedia D env retry clock fuel p.receive with
  | none => none
  | some s =>
    some (queueReadyVoiceFrames { p with
      pendingDaveMedia := s.receive.pendingDaveMedia
      ordered := ordered_retry p.ordered h
      session := s.receive.session } (s.receive.handedOn.map (Except.mapError .dave)))

/-- `prune_ssrcs` of the receive state and of the ready frames; an error is of no stream. -/
def pruneSsrcs (removedSsrcs : List UInt32) : ReceivePipeline σ ρ :=
  { p with
    streams := p.streams.pruneSsrcs removedSsrcs
    pendingDaveMedia := p.pendingDaveMedia.pruneSsrcs removedSsrcs
    ordered := ordered_pruneSsrcs p.ordered removedSsrcs
    readyFrames := p.readyFrames.retain fun result =>
      match result with
      | .ok frame => frame.rtp.ssrc ∉ removedSsrcs
      | .error _ => true }

def discardClosedFrameStream : ReceivePipeline σ ρ :=
  if p.frameStream.any (·.closed) then { p with frameStream := none } else p

def flushFrameStream : ReceivePipeline σ ρ :=
  let p := p.discardClosedFrameStream
  match p.frameStream with
  | none => p
  | some frames =>
    let (frameStream, readyFrames) := flushLoop frames p.readyFrames
    { p with frameStream, readyFrames }

end ReceivePipeline

end Cacophony.Pipeline
