import Cacophony.ReorderRuns
import Cacophony.Schedules

/-!
Buffered packets and wake-ups.

A packet that waits is handed out from the queue when it is the next one, and otherwise after the
deadline of the packet that is missing. A packet that is skipped is behind the next number: no entry
of the queue and no deadline leads to it any more. In a run in which no packet is skipped, every
stream that holds something is in the queue or has a deadline.
-/

namespace Cacophony.Streams

open Transport RtpPayload Assembler Reorder
open Deadlines Runs

variable {ρ : Type} {tuning : ConnectionRuntimeTuning} {r : ReceiveState ρ}
  {s : ReceiveSsrcState ρ} {ssrc : UInt32} {now : ℕ} {n : UInt16}

/-! ### Packets that are not skipped -/

/-- A packet that waits and whose mark is overdue waits behind no gap: all numbers from the next
one to its own are there. -/
def Punctual (tuning : ConnectionRuntimeTuning) (now : ℕ) (s : ReceiveSsrcState ρ) : Prop :=
  ∀ n k g mark, s.nextSeq = some n → k ∈ s.pendingMedia → s.missing.lookup k = some mark →
    Overdue tuning now false mark → ahead n g < ahead n k → g ∈ s.pendingMedia

/-- What is popped is the next one, and no gap opens behind it. -/
lemma Punctual.takeReady (h : Punctual tuning now s) : Punctual tuning now s.takeReady.2 := by
  unfold ReceiveSsrcState.takeReady
  split
  · exact h
  · split
    · exact h
    next n hnext =>
      split
      · exact h
      next packet hpacket =>
        rintro _ k g mark ⟨⟩ hk hmark hoverdue hlt
        rw [AList.mem_erase] at hk
        dsimp only at hmark
        rw [AList.lookup_erase_ne hk.1] at hmark
        have hkn := ahead_succ hk.1
        have hne : g ≠ n := by
          rintro rfl
          have := ahead_lt (g + 1) k
          rw [ahead_succ_self] at hlt
          omega
        have hgn := ahead_succ hne
        have hpos := ahead_ne_zero hne
        have hposk := ahead_ne_zero hk.1
        exact AList.mem_erase.mpr ⟨hne, h n k g mark hnext hk.2 hmark hoverdue (by omega)⟩

lemma Punctual.pop (h : Punctual tuning now s) :
    Punctual tuning now s.popReadyBufferedFrame.2 := by
  have hfinish (outlet : Outlet ρ) : Punctual tuning now (s.takeReady.2.finish outlet).2 := by
    cases outlet <;> exact h.takeReady
  exact hfinish _

/-- Where the next packet does not wait, no packet that waits has an overdue mark. -/
lemma Punctual.not_overdue (h : Punctual tuning now s) (hnext : s.nextSeq = some n)
    (hnot : n ∉ s.pendingMedia) {k : UInt16} {mark : MissingRtpPacket} (hk : k ∈ s.pendingMedia)
    (hmark : s.missing.lookup k = some mark) : ¬ Overdue tuning now false mark := by
  intro hoverdue
  have hne : k ≠ n := fun heq => hnot (heq ▸ hk)
  refine hnot (h n k n mark hnext hk hmark hoverdue ?_)
  have := ahead_ne_zero hne
  rw [ahead_self]
  omega

/-- The window of the stream is sound, and its packets are punctual. -/
structure Kept (tuning : ConnectionRuntimeTuning) (now : ℕ) (s : ReceiveSsrcState ρ) : Prop where
  sound : Sound tuning now s
  punctual : Punctual tuning now s

lemma Kept.pop (h : Kept tuning now s) : Kept tuning now s.popReadyBufferedFrame.2 :=
  ⟨h.sound.takeReady.finish _, h.punctual.pop⟩

lemma Kept.expire (h : Kept tuning now s) (hready : s.hasReadyBufferedMedia = false)
    (ssrc : UInt32) : Kept tuning now (s.expireMissingHead tuning ssrc now false).2 := by
  have hskips : ¬ Skips s (s.expireMissingHead tuning ssrc now false).2 := by
    intro hskips
    obtain ⟨n, n', k, hnext, -⟩ := id hskips
    obtain ⟨L, w⟩ := h.sound.window hnext
    obtain ⟨k, mark, hk, hmark, hoverdue⟩ := (skips_iff ssrc hnext w false).mp hskips
    exact h.punctual.not_overdue hnext ((not_ready_iff.mp hready).2 n hnext) hk hmark hoverdue
  refine ⟨h.sound.expire hskips, ?_⟩
  rcases hnext : s.nextSeq with _ | n
  · rw [ReceiveSsrcState.expireMissingHead, hnext]
    exact h.punctual
  · obtain ⟨L, w⟩ := h.sound.window hnext
    obtain ⟨c, -, -, hpending, hpasses⟩ := expireMissingHead_passes ssrc hnext w false
    -- the marks that are left were there before, and none of them is overdue
    intro n' k g mark _ hk hmark hoverdue _
    rw [hpending] at hk
    rw [hpasses.marks] at hmark
    split at hmark
    · cases hmark
    · exact absurd hoverdue
        (h.punctual.not_overdue hnext ((not_ready_iff.mp hready).2 n hnext) hk hmark)

/-! ### All streams -/

/-- Something of every stream in the map. -/
def Each (P : ReceiveSsrcState ρ → Prop) (ssrcs : SsrcMap ρ) : Prop :=
  ∀ x s, ssrcs.lookup x = some s → P s

lemma Each.insert {P : ReceiveSsrcState ρ → Prop} {ssrcs : SsrcMap ρ} (h : Each P ssrcs)
    (hs : P s) (ssrc : UInt32) : Each P (ssrcs.insert ssrc s) := by
  intro x s' hs'
  by_cases hx : x = ssrc
  · rw [hx, AList.lookup_insert] at hs'
    exact Option.some.inj hs' ▸ hs
  · rw [AList.lookup_insert_ne hx] at hs'
    exact h x s' hs'

lemma Each.round (hq : QueuedBut none r) (h : Each (Kept tuning now) r.ssrc) :
    Each (Kept tuning now) (r.drainRound tuning now).state.ssrc := by
  have hround : Rounds tuning now r (r.drainRound tuning now) := drainRound_rounds r now
  generalize r.drainRound tuning now = round at hround ⊢
  cases hround with
  | @pop ssrc s _ _ _ hs =>
    rw [state_ofResult, ssrc_update]
    exact h.insert (h ssrc s hs).pop ssrc
  | @expire ssrc s _ _ _ _ hpop _ hs =>
    rw [ReceiveState.Round.state, ssrc_update]
    exact h.insert ((h ssrc s hs).expire (hq.settled hpop ssrc s hs) ssrc) ssrc
  | idle => exact h

lemma Each.drain (hq : QueuedBut none r) (h : Each (Kept tuning now) r.ssrc) :
    Each (Kept tuning now) (r.drainOrderedMedia tuning now).2.ssrc :=
  (drainOrderedMedia_inv (I := fun r => QueuedBut none r ∧ Each (Kept tuning now) r.ssrc)
    (fun _ h => ⟨(h.1.round tuning now).1, h.2.round h.1⟩) ⟨hq, h⟩ rfl).1.2

/-! ### Runs -/

/-- A push does not overfill the buffer of its stream, and no packet that waits behind a gap has an
overdue mark when the streams are drained. -/
def OnTime (tuning : ConnectionRuntimeTuning) (b : ClockedState ρ) (c : ReceiveCall ρ) : Prop :=
  match c.op with
  | .push packet => ∀ s ∈ b.state.ssrc.lookup packet.rtp.ssrc, ∀ expected ∈ s.nextSeq,
      ¬ Overfills tuning s (b.now + c.delay) packet expected
  | .drain => Each (Punctual tuning (b.now + c.delay)) b.state.ssrc
  | .prune _ => True

/-- The windows of all streams are sound. -/
def Sounds (tuning : ConnectionRuntimeTuning) (b : ClockedState ρ) : Prop :=
  IndexedBut tuning none b.state ∧ Each (Sound tuning b.now) b.state.ssrc

lemma Sounds.step {b : ClockedState ρ} {c : ReceiveCall ρ} (h : Sounds tuning b)
    (ht : OnTime tuning b c) : Sounds tuning (b.step tuning c) := by
  obtain ⟨hindexed, hsound⟩ := h
  refine ⟨hindexed.apply _ _, ?_⟩
  have hsound : Each (Sound tuning (b.now + c.delay)) b.state.ssrc :=
    fun x s hs => (hsound x s hs).mono (Nat.le_add_right _ _)
  unfold OnTime at ht
  unfold ClockedState.step ReceiveState.apply
  cases hop : c.op with
  | push packet =>
    rw [hop] at ht
    dsimp only [ReceiveState.pushMediaPacket]
    rw [ssrc_update]
    refine hsound.insert ?_ _
    rcases hs : b.state.ssrc.lookup packet.rtp.ssrc with _ | s
    · have hfresh : Sound tuning (b.now + c.delay) ({} : ReceiveSsrcState ρ) := ⟨rfl, rfl⟩
      exact (hfresh.placed nofun (placed ..)).finish _
    · exact ((hsound _ s hs).placed (fun n hn => ht s hs n hn) (placed ..)).finish _
  | drain =>
    rw [hop] at ht
    have hkept : Each (Kept tuning (b.now + c.delay)) b.state.ssrc :=
      fun x s hs => ⟨hsound x s hs, ht x s hs⟩
    exact fun x s hs => (hkept.drain hindexed.toQueuedBut x s hs).sound
  | prune removed =>
    intro x s hs
    dsimp only [ReceiveState.pruneSsrcs] at hs
    split at hs
    · exact hsound x s hs
    · rw [lookup_retain] at hs
      split at hs
      · exact hsound x s hs
      · cases hs

/-! ### Nothing is stranded -/

/-- The schedules, read off the streams. -/
structure Indexed (tuning : ConnectionRuntimeTuning) (r : ReceiveState ρ) : Prop where
  ready : ∀ x s, r.ssrc.lookup x = some s → s.hasReadyBufferedMedia = true → x ∈ r.readySsrcs
  nodup : r.readySsrcs.Nodup
  queued : r.queuedReadySsrcs = r.readySsrcs.toFinset
  deadlines : ∀ x deadline, r.rtpReorderDeadlines.keys.lookup x = some deadline ↔
    ∃ s n mark, r.ssrc.lookup x = some s ∧ s.nextSeq = some n ∧
      s.missing.lookup n = some mark ∧ deadline = mark.detectedAt + tuning.rtpReorderTtl

/-- The stream holds a packet or a frame. -/
def buffers (s : ReceiveSsrcState ρ) : Bool :=
  !s.pendingMedia.keys.isEmpty || s.assembler.hasCompletedFrame

/-- A stream holds something, and neither the queue nor a deadline leads to it. -/
def Stranded (r : ReceiveState ρ) : Prop :=
  ∃ x, (r.ssrc.lookup x).any buffers = true ∧ x ∉ r.readySsrcs ∧
    r.rtpReorderDeadlines.keys.lookup x = none

lemma pendingReorderDeadline_eq_some {deadline : ℕ} :
    s.pendingReorderDeadline tuning = some deadline ↔
      ∃ n mark, s.nextSeq = some n ∧ s.missing.lookup n = some mark ∧
        deadline = mark.detectedAt + tuning.rtpReorderTtl := by
  simp only [ReceiveSsrcState.pendingReorderDeadline, bind, Option.bind_eq_some_iff, pure,
    Option.some.injEq, eq_comm (a := deadline)]
  constructor
  · rintro ⟨n, hn, mark, hmark, h⟩
    exact ⟨n, mark, hn, hmark, h⟩
  · rintro ⟨n, mark, hn, hmark, h⟩
    exact ⟨n, hn, mark, hmark, h⟩

lemma IndexedBut.indexed (h : IndexedBut tuning none r) : Indexed tuning r where
  ready x s := h.ready x s nofun
  nodup := h.nodup
  queued := by
    ext x
    rw [List.mem_toFinset]
    exact (h.noted x).symm
  deadlines x deadline := by
    rw [h.deadline x nofun, Option.bind_eq_some_iff]
    simp only [pendingReorderDeadline_eq_some]
    constructor
    · rintro ⟨s, hs, n, mark, hrest⟩
      exact ⟨s, n, mark, hs, hrest⟩
    · rintro ⟨s, n, mark, hs, hrest⟩
      exact ⟨s, hs, n, mark, hrest⟩

/-- In a sound window a packet that waits is the next one, or the next one is missing. -/
lemma ready_or_deadline (h : Sound tuning now s) (hbuffers : buffers s = true) :
    s.hasReadyBufferedMedia = true ∨ (s.pendingReorderDeadline tuning).isSome = true := by
  rw [buffers, Bool.or_eq_true] at hbuffers
  rcases hbuffers with hpending | hcompleted
  · have hne : s.pendingMedia.keys ≠ [] := by simpa using hpending
    obtain ⟨k, hk⟩ := List.exists_mem_of_ne_nil _ hne
    obtain ⟨p, hp⟩ := mem_iff_lookup.mp (AList.mem_keys.mpr hk)
    have hseq : p.rtp.seq = k := by
      rcases hnext : s.nextSeq with _ | n
      · rw [Sound, hnext] at h
        rw [h.2] at hp
        simp at hp
      · obtain ⟨L, w⟩ := h.window hnext
        exact w.seqs k p hp
    obtain ⟨n, hnext, -, -, hwaits⟩ := h.waits (hseq ▸ hp)
    refine hwaits.imp_left fun heq => ?_
    have hmem : n ∈ s.pendingMedia := by
      rw [← heq, hseq]
      exact AList.mem_keys.mpr hk
    simp [ReceiveSsrcState.hasReadyBufferedMedia, hnext, hmem]
  · exact .inl (by simp [ReceiveSsrcState.hasReadyBufferedMedia, hcompleted])

lemma Sounds.not_stranded {b : ClockedState ρ} (h : Sounds tuning b) : ¬ Stranded b.state := by
  rintro ⟨x, hbuffers, hready, hdeadline⟩
  obtain ⟨s, hs, hbuffers⟩ := (Option.any_eq_true _ _).mp hbuffers
  rcases ready_or_deadline (h.2 x s hs) hbuffers with hmedia | hsome
  · exact hready (h.1.ready x s nofun hs hmedia)
  · rw [h.1.deadline x nofun, hs, Option.bind_some] at hdeadline
    rw [hdeadline] at hsome
    cases hsome

/-- **The schedules.** After any run the queue, its set and the deadlines are what the streams say.
In a run that is on time no stream is stranded. -/
theorem schedules_run (tuning : ConnectionRuntimeTuning) (order : HashOrder UInt32)
    (calls : List (ReceiveCall ρ)) :
    Indexed tuning (run (ClockedState.step tuning) (.start order) calls).state ∧
    (Along (ClockedState.step tuning) (OnTime tuning) (.start order) calls →
      ¬ Stranded (run (ClockedState.step tuning) (.start order) calls).state) := by
  refine ⟨(indexed_run tuning order calls).indexed, fun h => ?_⟩
  have hstart : Sounds tuning (.start order : ClockedState ρ) :=
    ⟨indexed_new order, fun x s hs => by simp [ClockedState.start, ReceiveState.new] at hs⟩
  have hsounds : Sounds tuning (run (ClockedState.step tuning) (.start order) calls) :=
    run_inv (fun _ _ hs ht => hs.step ht) hstart h
  exact hsounds.not_stranded

/-- Packet 1 does not come, 2 and 3 do, and 60 ms later the streams are drained. -/
def lateDrain : List (ReceiveCall Unit) :=
  [⟨0, .push (Reorder.opusPacket 0)⟩, ⟨0, .push (Reorder.opusPacket 2)⟩,
    ⟨0, .push (Reorder.opusPacket 3)⟩, ⟨60 * 10 ^ 6, .drain⟩]

/-- The marks of 1 and 2 expire and packet 3 is handed out; packet 2 stays. -/
theorem lateDrain_strands :
    Stranded (run (ClockedState.step .default) {} lateDrain).state :=
  ⟨7, by decide +kernel, by decide +kernel, by decide +kernel⟩

/-- Packet 1 comes late, but not too late. -/
def inTime : List (ReceiveCall Unit) :=
  [⟨0, .push (Reorder.opusPacket 0)⟩, ⟨0, .push (Reorder.opusPacket 2)⟩,
    ⟨10 ^ 6, .push (Reorder.opusPacket 1)⟩]

instance (s : ReceiveSsrcState ρ) (now : ℕ) (packet : PendingMediaPacket ρ) (expected : UInt16) :
    Decidable (Overfills tuning s now packet expected) := inferInstanceAs (Decidable (_ ∧ _ ∧ _))

lemma onTime_push {b : ClockedState ρ} {delay : ℕ} {packet : PendingMediaPacket ρ}
    (h : ((b.state.ssrc.lookup packet.rtp.ssrc).all fun s => s.nextSeq.all fun expected =>
      ¬ Overfills tuning s (b.now + delay) packet expected) = true) :
    OnTime tuning b ⟨delay, .push packet⟩ := by
  intro s hs expected hnext
  simp only [Option.all_eq_true, decide_eq_true_eq] at h
  exact h s hs expected hnext

theorem inTime_not_stranded :
    Along (ClockedState.step .default) (OnTime .default) {} inTime ∧
      ¬ Stranded (run (ClockedState.step .default) {} inTime).state := by
  have honTime : Along (ClockedState.step .default) (OnTime .default) {} inTime :=
    ⟨onTime_push (by decide +kernel), onTime_push (by decide +kernel),
      onTime_push (by decide +kernel), trivial⟩
  exact ⟨honTime, (schedules_run .default (.listed _) inTime).2 honTime⟩

end Cacophony.Streams
