import Cacophony.StreamRuns

/-!
The queue of ready streams.

A stream that has something to hand out is in the queue whenever a call returns. So once
`drain_ordered_media` returns nothing, no stream has.
-/

namespace Cacophony.Streams

open Transport RtpPayload Assembler Reorder Deadlines

variable {ρ : Type} {tuning : ConnectionRuntimeTuning} {r r' : ReceiveState ρ} {ssrc : UInt32}
  {now : ℕ} {queued queued' : Finset UInt32} {ready ready' : List UInt32}

/-- The queue has the streams noted as queued, each once, and all that have something to hand out,
except perhaps `out`. -/
structure QueuedBut (out : Option UInt32) (r : ReceiveState ρ) : Prop where
  nodup : r.readySsrcs.Nodup
  noted : ∀ x, x ∈ r.readySsrcs ↔ x ∈ r.queuedReadySsrcs
  ready : ∀ x s, out ≠ some x → r.ssrc.lookup x = some s → s.hasReadyBufferedMedia = true →
    x ∈ r.readySsrcs

/-- No stream has anything to hand out. -/
def Settled (r : ReceiveState ρ) : Prop :=
  ∀ x s, r.ssrc.lookup x = some s → s.hasReadyBufferedMedia = false

lemma queuedBut_new (order : HashOrder UInt32) : QueuedBut none (.new order : ReceiveState ρ) where
  nodup := List.nodup_nil
  noted x := iff_of_false List.not_mem_nil (Finset.notMem_empty x)
  ready x s _ hs := by simp [ReceiveState.new] at hs

/-! ### Taking a stream from the queue -/

lemma popReady_queued {ssrcs : SsrcMap ρ} {out : Option UInt32}
    (h : popReady ssrcs ready queued = (out, ready', queued')) (hnodup : ready.Nodup)
    (hnoted : ∀ x, x ∈ ready ↔ x ∈ queued)
    (hready : ∀ x s, ssrcs.lookup x = some s → s.hasReadyBufferedMedia = true → x ∈ ready) :
    ready'.Nodup ∧ (∀ x, x ∈ ready' ↔ x ∈ queued') ∧
      ∀ x s, out ≠ some x → ssrcs.lookup x = some s → s.hasReadyBufferedMedia = true →
        x ∈ ready' := by
  -- a stream that leaves the queue leaves the set as well, and is ready only if it is `out`
  have herase {y : UInt32} {ready : List UInt32} {queued : Finset UInt32}
      (hnodup : (y :: ready).Nodup) (hnoted : ∀ x, x ∈ y :: ready ↔ x ∈ queued) (x : UInt32) :
      x ∈ ready ↔ x ∈ queued.erase y := by
    rw [Finset.mem_erase, ← hnoted, List.mem_cons]
    have hout := (List.nodup_cons.mp hnodup).1
    constructor
    · intro hx
      exact ⟨fun heq => hout (heq ▸ hx), .inr hx⟩
    · exact fun ⟨hne, hx⟩ => hx.resolve_left hne
  fun_induction popReady ssrcs ready queued with
  | case1 queued =>
    cases h
    exact ⟨hnodup, hnoted, fun x s _ => hready x s⟩
  | case2 y ready queued q hy =>
    obtain ⟨rfl, rfl, rfl⟩ : some y = out ∧ ready = ready' ∧ q = queued' := by
      simpa only [Prod.mk.injEq] using h
    refine ⟨hnodup.of_cons, herase hnodup hnoted, fun x s hne hs hx => ?_⟩
    exact (List.mem_cons.mp (hready x s hs hx)).resolve_left fun heq => hne (heq ▸ rfl)
  | case3 y ready queued q hnot ih =>
    refine ih h hnodup.of_cons (herase hnodup hnoted) fun x s hs hx => ?_
    refine (List.mem_cons.mp (hready x s hs hx)).resolve_left fun heq => hnot ?_
    rw [← heq, hs]
    exact hx

/-- A stream is taken from the queue of the state, whatever becomes of the deadlines. -/
lemma QueuedBut.pop (h : QueuedBut none r) {out : Option UInt32} (deadlines : DeadlineSet UInt32)
    (hpop : popReady r.ssrc r.readySsrcs r.queuedReadySsrcs = (out, ready, queued)) :
    QueuedBut out { r with
      readySsrcs := ready, queuedReadySsrcs := queued, rtpReorderDeadlines := deadlines } := by
  obtain ⟨hnodup, hnoted, hready⟩ :=
    popReady_queued hpop h.nodup h.noted fun x s => h.ready x s nofun
  exact ⟨hnodup, hnoted, hready⟩

lemma popReady_none {ssrcs : SsrcMap ρ}
    (h : popReady ssrcs ready queued = (none, ready', queued')) :
    ready' = [] := by
  fun_induction popReady ssrcs ready queued with
  | case1 queued =>
    cases h
    rfl
  | case2 y ready queued q hy => cases h
  | case3 y ready queued q hnot ih => exact ih h

/-- When no stream can be taken from the queue, none has anything to hand out. -/
lemma QueuedBut.settled (h : QueuedBut none r)
    (hpop : popReady r.ssrc r.readySsrcs r.queuedReadySsrcs = (none, ready, queued)) :
    Settled r := by
  intro x s hs
  have hready := (h.pop r.rtpReorderDeadlines hpop).ready x s nofun hs
  rw [popReady_none hpop] at hready
  exact Bool.eq_false_iff.mpr fun hx => absurd (hready hx) List.not_mem_nil

/-! ### The calls -/

lemma QueuedBut.queueReady {s : ReceiveSsrcState ρ} (h : QueuedBut (some ssrc) r)
    (hs : r.ssrc.lookup ssrc = some s) : QueuedBut none (r.queueReady ssrc s) := by
  unfold ReceiveState.queueReady
  split
  next hnew =>
    constructor
    · refine List.nodup_append.mpr ⟨h.nodup, List.nodup_singleton _, ?_⟩
      rintro x hx y hy rfl
      rw [List.mem_singleton.mp hy] at hx
      exact hnew.2 ((h.noted _).mp hx)
    · intro x
      rw [List.mem_append, List.mem_singleton, Finset.mem_insert, h.noted, or_comm]
    · intro x s' _ hs' hready
      by_cases hx : ssrc = x
      · exact List.mem_append_right _ (List.mem_singleton.mpr hx.symm)
      · exact List.mem_append_left _ (h.ready x s' (fun heq => hx (Option.some.inj heq)) hs' hready)
  next hnot =>
    refine ⟨h.nodup, h.noted, fun x s' _ hs' hready => ?_⟩
    by_cases hx : ssrc = x
    · -- it is ready, so it is noted as queued
      subst hx
      obtain rfl := Option.some.inj (hs.symm.trans hs')
      exact (h.noted ssrc).mpr (by_contra fun hout => hnot ⟨hready, hout⟩)
    · exact h.ready x s' (fun heq => hx (Option.some.inj heq)) hs' hready

lemma QueuedBut.refresh (h : QueuedBut (some ssrc) r) :
    QueuedBut none (r.refreshSsrcSchedules tuning ssrc) := by
  unfold ReceiveState.refreshSsrcSchedules
  split
  next hnone =>
    refine ⟨h.nodup, h.noted, fun x s _ hs => h.ready x s (fun heq => ?_) hs⟩
    obtain rfl := Option.some.inj heq
    rw [hnone] at hs
    cases hs
  next s hs =>
    have hqueue := h.queueReady hs
    dsimp only
    split <;> exact ⟨hqueue.nodup, hqueue.noted, hqueue.ready⟩

lemma QueuedBut.update (h : QueuedBut (some ssrc) r) (s : ReceiveSsrcState ρ) :
    QueuedBut none (r.update tuning ssrc s) := by
  refine QueuedBut.refresh ⟨h.nodup, h.noted, fun x s' hne hs => ?_⟩
  rw [AList.lookup_insert_ne fun heq => hne (congrArg some heq.symm)] at hs
  exact h.ready x s' hne hs

lemma QueuedBut.weaken (h : QueuedBut none r) (ssrc : UInt32) : QueuedBut (some ssrc) r :=
  ⟨h.nodup, h.noted, fun x s _ => h.ready x s nofun⟩

lemma QueuedBut.push (h : QueuedBut none r) (tuning : ConnectionRuntimeTuning)
    (packet : PendingMediaPacket ρ) (now : ℕ) :
    QueuedBut none (r.pushMediaPacket tuning packet now).2 :=
  (h.weaken _).update _

/-- A round keeps the queue, and the loop ends when it is empty. -/
lemma QueuedBut.round (h : QueuedBut none r) (tuning : ConnectionRuntimeTuning) (now : ℕ) :
    QueuedBut none (r.drainRound tuning now).state ∧
      ∀ r', r.drainRound tuning now = .returns none r' → Settled r' := by
  have hround : Rounds tuning now r (r.drainRound tuning now) := drainRound_rounds r now
  generalize r.drainRound tuning now = round at hround ⊢
  cases hround with
  | pop hpop =>
    rw [state_ofResult]
    exact ⟨(h.pop _ hpop).update _, fun r' hr => absurd hr (ofResult_ne _ _ _)⟩
  | expire hpop =>
    exact ⟨((h.pop _ hpop).weaken _).update _, nofun⟩
  | idle hpop =>
    refine ⟨h.pop _ hpop, ?_⟩
    rintro r' ⟨⟩
    exact h.settled hpop

lemma QueuedBut.drain {x : Option (Output ρ)} (h : QueuedBut none r)
    (hdrain : r.drainOrderedMedia tuning now = (x, r')) :
    QueuedBut none r' ∧ (x = none → Settled r') := by
  obtain ⟨hend, r₀, h₀, hlast⟩ := drainOrderedMedia_inv (fun _ h => (h.round tuning now).1) h hdrain
  refine ⟨hend, ?_⟩
  rintro rfl
  exact (h₀.round tuning now).2 r' hlast

theorem QueuedBut.drainAll (h : QueuedBut none r) (tuning : ConnectionRuntimeTuning) (now : ℕ) :
    QueuedBut none (drainAll tuning now r).2 ∧ Settled (drainAll tuning now r).2 := by
  fun_induction Streams.drainAll tuning now r with
  | case1 r r' hdrain =>
    obtain ⟨hqueued, hsettled⟩ := h.drain hdrain
    exact ⟨hqueued, hsettled rfl⟩
  | case2 r x r' hdrain xs r'' hrest ih =>
    have hnext := ih (h.drain hdrain).1
    rw [hrest] at hnext
    exact hnext

end Cacophony.Streams
