import Cacophony.ReadyQueue
import Cacophony.Runs

/-!
The schedules of the streams.

Beside the streams the receive state keeps a queue of those that have something to hand out, the
set of those in the queue, and the deadlines of those that miss a packet. All three can be read off
the streams whenever a call returns. So when `drain_ordered_media` returns nothing, nothing is left
to do at this instant.
-/

namespace Cacophony.Streams

open Transport RtpPayload Assembler Reorder
open Deadlines Runs

variable {ρ : Type} {tuning : ConnectionRuntimeTuning} {r r' : ReceiveState ρ} {ssrc : UInt32}
  {now : ℕ} {out : Option UInt32}

/-- The schedules agree with the streams, except perhaps for the stream `out`, which is not in the
queue and whose deadline has been taken. -/
structure IndexedBut (tuning : ConnectionRuntimeTuning) (out : Option UInt32)
    (r : ReceiveState ρ) : Prop extends QueuedBut out r where
  deadline : ∀ x, out ≠ some x → r.rtpReorderDeadlines.keys.lookup x =
    (r.ssrc.lookup x).bind fun s => s.pendingReorderDeadline tuning

lemma indexed_new (order : HashOrder UInt32) :
    IndexedBut tuning none (.new order : ReceiveState ρ) where
  toQueuedBut := queuedBut_new order
  deadline _ _ := rfl

lemma IndexedBut.weaken (h : IndexedBut tuning none r) (ssrc : UInt32) :
    IndexedBut tuning (some ssrc) r :=
  ⟨h.toQueuedBut.weaken ssrc, fun x _ => h.deadline x nofun⟩

/-! ### Taking a stream -/

/-- When the deadlines are right, the first key that is due is the one of a stream that has missed
it. -/
lemma expiredMissing_indexed {ssrcs : SsrcMap ρ} {deadlines deadlines' : DeadlineSet UInt32}
    (h : expiredMissing tuning ssrcs now deadlines = (out, deadlines'))
    (hdeadlines : ∀ x, deadlines.keys.lookup x =
      (ssrcs.lookup x).bind fun s => s.pendingReorderDeadline tuning) :
    ∀ x, out ≠ some x → deadlines'.keys.lookup x = deadlines.keys.lookup x := by
  rw [expiredMissing] at h
  split at h
  next d hpop =>
    cases h
    rw [(deadlines.popExpired_eq_none hpop).1]
    exact fun x _ => rfl
  next key d hpop =>
    obtain ⟨rfl, deadline, hdue, hkey⟩ := deadlines.popExpired_eq_some hpop
    rw [if_pos] at h
    · cases h
      intro x hx
      rw [DeadlineSet.lookup_remove, if_neg fun heq => hx (congrArg some heq.symm)]
    · rw [← hdeadlines, hkey]
      exact decide_eq_true hdue

/-! ### The calls -/

lemma deadlines_queueReady (r : ReceiveState ρ) (ssrc : UInt32) (s : ReceiveSsrcState ρ) :
    (r.queueReady ssrc s).rtpReorderDeadlines = r.rtpReorderDeadlines := by
  unfold ReceiveState.queueReady
  split <;> rfl

/-- The deadline of the stream is brought up to date, and the others stay. -/
lemma lookup_deadlines_refresh {s : ReceiveSsrcState ρ} (hs : r.ssrc.lookup ssrc = some s)
    (x : UInt32) :
    (r.refreshSsrcSchedules tuning ssrc).rtpReorderDeadlines.keys.lookup x =
      if x = ssrc then s.pendingReorderDeadline tuning
      else r.rtpReorderDeadlines.keys.lookup x := by
  unfold ReceiveState.refreshSsrcSchedules
  rw [hs]
  dsimp only
  split
  next deadline hdeadline =>
    rw [deadlines_queueReady, DeadlineSet.lookup_insert, hdeadline]
  next hnone => rw [deadlines_queueReady, DeadlineSet.lookup_remove, hnone]

lemma IndexedBut.update (h : IndexedBut tuning (some ssrc) r) (s : ReceiveSsrcState ρ) :
    IndexedBut tuning none (r.update tuning ssrc s) := by
  have hs : (r.ssrc.insert ssrc s).lookup ssrc = some s := AList.lookup_insert _
  refine ⟨h.toQueuedBut.update s, fun x _ => ?_⟩
  rw [ssrc_update, ReceiveState.update, lookup_deadlines_refresh hs]
  split
  next hx => rw [hx, hs, Option.bind_some]
  next hx =>
    rw [AList.lookup_insert_ne hx]
    exact h.deadline x fun heq => hx (Option.some.inj heq).symm

lemma IndexedBut.push (h : IndexedBut tuning none r) (packet : PendingMediaPacket ρ) (now : ℕ) :
    IndexedBut tuning none (r.pushMediaPacket tuning packet now).2 :=
  (h.weaken _).update _

/-- Nothing is left to do at this instant: no stream has anything to hand out, and no deadline has
passed. -/
structure Quiet (now : ℕ) (r : ReceiveState ρ) : Prop where
  settled : Settled r
  later : ∀ x deadline, r.rtpReorderDeadlines.keys.lookup x = some deadline → now < deadline

/-- A round keeps the schedules, and the loop ends when nothing is left to do. -/
lemma IndexedBut.round (h : IndexedBut tuning none r) (now : ℕ) :
    IndexedBut tuning none (r.drainRound tuning now).state ∧
      ∀ r', r.drainRound tuning now = .returns none r' → Quiet now r' := by
  have hqueued := h.toQueuedBut.round tuning now
  have hround : Rounds tuning now r (r.drainRound tuning now) := drainRound_rounds r now
  generalize r.drainRound tuning now = round at hqueued hround ⊢
  cases hround with
  | pop hpop =>
    rw [state_ofResult]
    refine ⟨IndexedBut.update ?_ _, fun r' hr => absurd hr (ofResult_ne _ _ _)⟩
    exact ⟨h.pop _ hpop, fun x _ => h.deadline x nofun⟩
  | expire hpop hexpired =>
    have hsame := expiredMissing_indexed hexpired fun x => h.deadline x nofun
    refine ⟨IndexedBut.update ?_ _, nofun⟩
    exact ⟨(h.pop _ hpop).weaken _, fun x hx => (hsame x hx).trans (h.deadline x nofun)⟩
  | idle hpop hexpired =>
    have hsame := expiredMissing_indexed hexpired fun x => h.deadline x nofun
    refine ⟨⟨hqueued.1, fun x hx => (hsame x hx).trans (h.deadline x nofun)⟩, ?_⟩
    rintro r' ⟨⟩
    exact ⟨hqueued.2 _ rfl, expiredMissing_none hexpired⟩

lemma IndexedBut.drain {x : Option (Output ρ)} (h : IndexedBut tuning none r)
    (hdrain : r.drainOrderedMedia tuning now = (x, r')) :
    IndexedBut tuning none r' ∧ (x = none → Quiet now r') := by
  obtain ⟨hend, r₀, h₀, hlast⟩ := drainOrderedMedia_inv (fun _ h => (h.round now).1) h hdrain
  refine ⟨hend, ?_⟩
  rintro rfl
  exact (h₀.round now).2 r' hlast

/-! ### Streams that are removed -/

lemma lookup_retain (keep : UInt32 → Bool) (m : SsrcMap ρ) (x : UInt32) :
    (m.retain keep).lookup x = if keep x then m.lookup x else none := by
  have hentries (l : List (Sigma fun _ : UInt32 => ReceiveSsrcState ρ)) :
      (l.filter fun e => keep e.1).dlookup x = if keep x then l.dlookup x else none := by
    induction l with
    | nil => simp
    | cons e l ih =>
      obtain ⟨y, s⟩ := e
      rw [List.filter_cons]
      by_cases hx : x = y
      · subst hx
        split
        next hkeep => rw [List.dlookup_cons_eq, List.dlookup_cons_eq]
        next hkeep => rw [ih, if_neg hkeep]
      · have hskip (l : List (Sigma fun _ : UInt32 => ReceiveSsrcState ρ)) :
            (⟨y, s⟩ :: l).dlookup x = l.dlookup x := List.dlookup_cons_ne l ⟨y, s⟩ hx
        rw [hskip, ← ih]
        split
        · exact hskip _
        · rfl
  exact hentries m.entries

lemma lookup_removes (removed : List UInt32) (deadlines : DeadlineSet UInt32) (x : UInt32) :
    (removed.foldl (fun deadlines ssrc => (deadlines.remove ssrc).2) deadlines).keys.lookup x =
      if x ∈ removed then none else deadlines.keys.lookup x := by
  induction removed generalizing deadlines with
  | nil => simp
  | cons y removed ih =>
    rw [List.foldl_cons, ih, DeadlineSet.lookup_remove]
    by_cases hy : x = y
    · simp [hy]
    · simp [hy]

lemma IndexedBut.prune (h : IndexedBut tuning none r) (removed : List UInt32) :
    IndexedBut tuning none (r.pruneSsrcs removed) := by
  unfold ReceiveState.pruneSsrcs
  split
  · exact h
  constructor
  · constructor
    · exact h.nodup.filter _
    · intro x
      rw [List.mem_filter, Finset.mem_filter, h.noted, decide_eq_true_iff]
    · intro x s _ hs hready
      rw [lookup_retain] at hs
      split at hs
      next hkept => exact List.mem_filter.mpr ⟨h.ready x s nofun hs hready, hkept⟩
      · cases hs
  · intro x _
    rw [lookup_removes, lookup_retain]
    by_cases hx : x ∈ removed
    · simp [hx]
    · simp [hx, h.deadline x nofun]

/-! ### Runs -/

inductive ReceiveOp (ρ : Type)
  | push (packet : PendingMediaPacket ρ)
  | drain
  | prune (removedSsrcs : List UInt32)

/-- A call on the receive state, some time after the one before. -/
structure ReceiveCall (ρ : Type) where
  delay : ℕ
  op : ReceiveOp ρ

/-- The receive state, and the time of the last call. -/
structure ClockedState (ρ : Type) where
  now : ℕ := 0
  state : ReceiveState ρ := {}

/-- Before the first call. -/
def ClockedState.start (order : HashOrder UInt32) : ClockedState ρ := ⟨0, .new order⟩

namespace ReceiveState

def apply (tuning : ConnectionRuntimeTuning) (r : ReceiveState ρ) (now : ℕ) :
    ReceiveOp ρ → ReceiveState ρ
  | .push packet => (r.pushMediaPacket tuning packet now).2
  | .drain => (r.drainOrderedMedia tuning now).2
  | .prune removedSsrcs => r.pruneSsrcs removedSsrcs

end ReceiveState

def ClockedState.step (tuning : ConnectionRuntimeTuning) (b : ClockedState ρ)
    (c : ReceiveCall ρ) : ClockedState ρ :=
  ⟨b.now + c.delay, b.state.apply tuning (b.now + c.delay) c.op⟩

lemma IndexedBut.apply (h : IndexedBut tuning none r) (now : ℕ) (op : ReceiveOp ρ) :
    IndexedBut tuning none (r.apply tuning now op) := by
  cases op with
  | push packet => exact h.push packet now
  | drain => exact (h.drain rfl).1
  | prune removed => exact h.prune removed

lemma indexed_run (tuning : ConnectionRuntimeTuning) (order : HashOrder UInt32)
    (calls : List (ReceiveCall ρ)) :
    IndexedBut tuning none (run (ClockedState.step tuning) (.start order) calls).state :=
  run_inv_of_step (I := fun b : ClockedState ρ => IndexedBut tuning none b.state)
    (fun b c h => h.apply (b.now + c.delay) c.op) calls (indexed_new order)

/-! ### Draining comes to an end -/

/-- At most so many rounds of the loop of `drain_ordered_media`. -/
def drainRounds (tuning : ConnectionRuntimeTuning) (now : ℕ) :
    ℕ → ReceiveState ρ → Option (Option (Output ρ) × ReceiveState ρ)
  | 0, _ => none
  | rounds + 1, r =>
    match r.drainRound tuning now with
    | .returns result r => some (result, r)
    | .continues r => drainRounds tuning now rounds r

/-- The state after calls of `drain_ordered_media`. -/
def drained (tuning : ConnectionRuntimeTuning) (now : ℕ) (r : ReceiveState ρ) : ℕ → ReceiveState ρ
  | 0 => r
  | calls + 1 => drained tuning now (r.drainOrderedMedia tuning now).2 calls

/-- The loop ends after at most as many rounds as the streams are heavy, and one more. -/
lemma drainRounds_eq (now : ℕ) (r : ReceiveState ρ) {rounds : ℕ}
    (h : ssrcsWeight r.ssrc < rounds) :
    drainRounds tuning now rounds r = some (r.drainOrderedMedia tuning now) := by
  fun_induction ReceiveState.drainOrderedMedia tuning now r generalizing rounds with
  | case1 r result r₁ hround =>
    obtain ⟨rounds, rfl⟩ := Nat.exists_eq_succ_of_ne_zero (Nat.ne_zero_of_lt h)
    rw [drainRounds, hround]
  | case2 r r₁ hround ih =>
    obtain ⟨rounds, rfl⟩ := Nat.exists_eq_succ_of_ne_zero (Nat.ne_zero_of_lt h)
    have hlt : ssrcsWeight r₁.ssrc < ssrcsWeight r.ssrc :=
      ssrcsWeight_round hround (by rintro _ ⟨⟩)
    rw [drainRounds, hround]
    exact ih (by omega)

/-- A call that returns something makes the streams lighter, so some call returns nothing. -/
lemma drained_ends (now : ℕ) (r : ReceiveState ρ) :
    ∃ calls ≤ ssrcsWeight r.ssrc,
      ((drained tuning now r calls).drainOrderedMedia tuning now).1 = none := by
  induction hn : ssrcsWeight r.ssrc using Nat.strong_induction_on generalizing r with
  | h n ih =>
  rcases hdrain : r.drainOrderedMedia tuning now with ⟨_ | x, r'⟩
  · exact ⟨0, Nat.zero_le _, by rw [drained, hdrain]⟩
  · have hlt := ssrcsWeight_drain hdrain
    obtain ⟨calls, hcalls, hnone⟩ := ih _ (hn ▸ hlt) r' rfl
    refine ⟨calls + 1, by omega, ?_⟩
    rwa [drained, hdrain]

lemma IndexedBut.drained (h : IndexedBut tuning none r) (now calls : ℕ) :
    IndexedBut tuning none (drained tuning now r calls) := by
  induction calls generalizing r with
  | zero => exact h
  | succ calls ih => exact ih (h.drain rfl).1

/-- Every call of `drain_ordered_media` returns, some call returns nothing, and whenever one does,
nothing is left to do. -/
structure DrainEnds (tuning : ConnectionRuntimeTuning) (now : ℕ) (r : ReceiveState ρ) : Prop where
  loop : ∃ rounds, drainRounds tuning now rounds r = some (r.drainOrderedMedia tuning now)
  calls : ∃ calls, ((drained tuning now r calls).drainOrderedMedia tuning now).1 = none
  quiet : ∀ calls, ((drained tuning now r calls).drainOrderedMedia tuning now).1 = none →
    Quiet now ((drained tuning now r calls).drainOrderedMedia tuning now).2

/-- **Draining.** In every state that calls can reach and at any instant, the loop ends, calls come
to return nothing, and then no stream has anything to hand out and no deadline has passed. -/
theorem drainEnds_run (tuning : ConnectionRuntimeTuning) (order : HashOrder UInt32)
    (calls : List (ReceiveCall ρ)) (now : ℕ) :
    DrainEnds tuning now (run (ClockedState.step tuning) (.start order) calls).state where
  loop := ⟨_, drainRounds_eq now _ (Nat.lt_succ_self _)⟩
  calls := (drained_ends now _).imp fun _ h => h.2
  quiet n := (((indexed_run tuning order calls).drained now n).drain rfl).2

end Cacophony.Streams
