import Cacophony.Deadlines
import Cacophony.ReorderWindow

/-!
The streams of a connection, `ReceiveState` of `state.rs`.

Every stream has a reorder buffer of its own. Streams with something to hand out wait in
`readySsrcs`, and those that miss a packet have a deadline in `rtpReorderDeadlines`. The queues of
media that wait for keys, and the observer, are left out.
-/

namespace Cacophony.Streams

open Transport RtpPayload Assembler Reorder
open Deadlines

/-- What a caller sees of a stream: a frame or an error. -/
abbrev Output (ρ : Type) := Except RtpError (PendingMediaFrame ρ)

abbrev SsrcMap (ρ : Type) := AList fun _ : UInt32 => ReceiveSsrcState ρ

structure ReceiveState (ρ : Type) where
  ssrc : SsrcMap ρ := ∅
  readySsrcs : List UInt32 := []
  queuedReadySsrcs : Finset UInt32 := ∅
  rtpReorderDeadlines : DeadlineSet UInt32 := .empty

variable {ρ : Type}

/-- `new`, with the order that the hash sets of the deadlines have. -/
def ReceiveState.new (order : HashOrder UInt32) : ReceiveState ρ :=
  { rtpReorderDeadlines := .empty order }

/-- `HashMap::retain`, by the key. -/
def SsrcMap.retain (keep : UInt32 → Bool) (m : SsrcMap ρ) : SsrcMap ρ where
  entries := m.entries.filter fun e => keep e.1
  nodupKeys := m.nodupKeys.sublist List.filter_sublist

/-- The loop of `pop_ready_buffered_ssrc`. -/
def popReady (ssrcs : SsrcMap ρ) : List UInt32 → Finset UInt32 →
    Option UInt32 × List UInt32 × Finset UInt32
  | [], queued => (none, [], queued)
  | ssrc :: ready, queued =>
    let queued := queued.erase ssrc
    if (ssrcs.lookup ssrc).any (·.hasReadyBufferedMedia) then (some ssrc, ready, queued)
    else popReady ssrcs ready queued

variable (tuning : ConnectionRuntimeTuning)

/-- The loop of `expired_missing_ssrc`. -/
def expiredMissing (ssrcs : SsrcMap ρ) (now : ℕ) (deadlines : DeadlineSet UInt32) :
    Option UInt32 × DeadlineSet UInt32 :=
  match _h : deadlines.popExpired now with
  | (none, deadlines) => (none, deadlines)
  | (some ssrc, deadlines) =>
    if ((ssrcs.lookup ssrc).bind fun s => s.pendingReorderDeadline tuning).any (· ≤ now) then
      (some ssrc, deadlines)
    else expiredMissing ssrcs now deadlines
termination_by deadlines.keys.keys.length
decreasing_by exact DeadlineSet.keys_popExpired_lt _ _h

namespace ReceiveState

variable (r : ReceiveState ρ)

def popReadyBufferedSsrc : Option UInt32 × ReceiveState ρ :=
  let (ssrc, readySsrcs, queuedReadySsrcs) := popReady r.ssrc r.readySsrcs r.queuedReadySsrcs
  (ssrc, { r with readySsrcs, queuedReadySsrcs })

def expiredMissingSsrc (now : ℕ) : Option UInt32 × ReceiveState ρ :=
  let (ssrc, rtpReorderDeadlines) := expiredMissing tuning r.ssrc now r.rtpReorderDeadlines
  (ssrc, { r with rtpReorderDeadlines })

/-- The first half of `refresh_ssrc_schedules`. -/
def queueReady (ssrc : UInt32) (state : ReceiveSsrcState ρ) : ReceiveState ρ :=
  if state.hasReadyBufferedMedia ∧ ssrc ∉ r.queuedReadySsrcs then
    { r with
      queuedReadySsrcs := insert ssrc r.queuedReadySsrcs
      readySsrcs := r.readySsrcs ++ [ssrc] }
  else r

def refreshSsrcSchedules (ssrc : UInt32) : ReceiveState ρ :=
  match r.ssrc.lookup ssrc with
  | none => r
  | some state =>
    let r := r.queueReady ssrc state
    match state.pendingReorderDeadline tuning with
    | some deadline =>
      { r with rtpReorderDeadlines := r.rtpReorderDeadlines.insert ssrc deadline }
    | none => { r with rtpReorderDeadlines := (r.rtpReorderDeadlines.remove ssrc).2 }

/-- A stream has moved on, and its schedules are brought up to date. -/
def update (ssrc : UInt32) (state : ReceiveSsrcState ρ) : ReceiveState ρ :=
  refreshSsrcSchedules tuning { r with ssrc := r.ssrc.insert ssrc state } ssrc

def pushMediaPacket (packet : PendingMediaPacket ρ) (now : ℕ) :
    Except RtpError (Option (PendingMediaFrame ρ)) × ReceiveState ρ :=
  let ssrc := packet.rtp.ssrc
  let (_, frame, state) := ((r.ssrc.lookup ssrc).getD {}).pushMediaPacket tuning packet now
  (frame, r.update tuning ssrc state)

/-- `prune_ssrcs`, without the queues that are left out. -/
def pruneSsrcs (removedSsrcs : List UInt32) : ReceiveState ρ :=
  if removedSsrcs.isEmpty then r
  else
    { ssrc := r.ssrc.retain fun ssrc => ssrc ∉ removedSsrcs
      queuedReadySsrcs := r.queuedReadySsrcs.filter fun ssrc => ssrc ∉ removedSsrcs
      readySsrcs := r.readySsrcs.filter fun ssrc => ssrc ∉ removedSsrcs
      rtpReorderDeadlines := removedSsrcs.foldl (fun deadlines ssrc => (deadlines.remove ssrc).2)
        r.rtpReorderDeadlines }

def pendingRtpReorderDeadline : Option ℕ := r.rtpReorderDeadlines.nextDeadline

/-- How a round of the loop of `drain_ordered_media` ends. -/
inductive Round (ρ : Type)
  | returns (result : Option (Output ρ)) (r : ReceiveState ρ)
  | continues (r : ReceiveState ρ)

/-- The state that a round leaves. -/
def Round.state : Round ρ → ReceiveState ρ
  | .returns _ r => r
  | .continues r => r

def Round.ofResult (r : ReceiveState ρ) : Except RtpError (Option (PendingMediaFrame ρ)) → Round ρ
  | .ok (some frame) => .returns (some (.ok frame)) r
  | .ok none => .continues r
  | .error error => .returns (some (.error error)) r

/-- The part of a round that hands out of a stream. -/
def popFrom (ssrc : UInt32) : Round ρ :=
  match r.ssrc.lookup ssrc with
  | none => .continues r
  | some state =>
    let (result, state) := state.popReadyBufferedFrame
    .ofResult (r.update tuning ssrc state) result

/-- The part of a round that gives up packets of a stream. -/
def expireFrom (ssrc : UInt32) (now : ℕ) : ReceiveState ρ :=
  match r.ssrc.lookup ssrc with
  | none => r.refreshSsrcSchedules tuning ssrc
  | some state => r.update tuning ssrc (state.expireMissingHead tuning ssrc now false).2

def drainRound (now : ℕ) : Round ρ :=
  match r.popReadyBufferedSsrc with
  | (some ssrc, r) => r.popFrom tuning ssrc
  | (none, r) =>
    match r.expiredMissingSsrc tuning now with
    | (some ssrc, r) => .continues (r.expireFrom tuning ssrc now)
    | (none, r) => .returns none r

end ReceiveState

/-! ### The loop ends

Every round but the last takes a packet or a frame from a stream, or a mark. A packet counts for
more than the frame that it adds. -/

/-- `expire_missing_head` does nothing, or it passes a mark that is overdue. -/
lemma expireMissingHead_cases (s : ReceiveSsrcState ρ) (ssrc : UInt32) (now : ℕ) (force : Bool) :
    (s.expireMissingHead tuning ssrc now force).2 = s ∨
    ∃ n mark, s.nextSeq = some n ∧ s.missing.lookup n = some mark ∧
      Overdue tuning now force mark ∧
      (s.expireMissingHead tuning ssrc now force).2 =
        { s with
          missing := (expireLoop tuning now force ⟨n, n, mark.userId, 0, s.missing⟩).missing
          nextSeq := some (expireLoop tuning now force ⟨n, n, mark.userId, 0, s.missing⟩).seq
          assembler := {} } := by
  rcases hnext : s.nextSeq with _ | n
  · left
    rw [ReceiveSsrcState.expireMissingHead, hnext]
  by_cases hhead : ∃ mark, s.missing.lookup n = some mark ∧ Overdue tuning now force mark
  · obtain ⟨mark, hmark, hoverdue⟩ := hhead
    exact .inr ⟨n, mark, rfl, hmark, hoverdue,
      expireMissingHead_of_overdue ssrc hnext hmark hoverdue⟩
  · left
    rw [expireMissingHead_of_not_overdue ssrc hnext fun mark hmark hoverdue =>
      hhead ⟨mark, hmark, hoverdue⟩]

variable {tuning} {now : ℕ} {ssrcs : SsrcMap ρ} {s : ReceiveSsrcState ρ} {ssrc : UInt32}
  {round : ReceiveState.Round ρ}

lemma length_expireLoop_le {force : Bool} (e : Expiry) :
    (expireLoop tuning now force e).missing.keys.length ≤ e.missing.keys.length := by
  fun_induction expireLoop tuning now force e with
  | case1 e => exact le_rfl
  | case2 e mark hmark _ ih => exact ih.trans (length_keys_erase_lt hmark).le
  | case3 e => exact le_rfl

lemma length_expireLoop_lt {force : Bool} {e : Expiry} {mark : MissingRtpPacket}
    (hmark : e.missing.lookup e.seq = some mark) (hoverdue : Overdue tuning now force mark) :
    (expireLoop tuning now force e).missing.keys.length < e.missing.keys.length := by
  rw [expireLoop]
  split
  next hnone =>
    rw [hmark] at hnone
    cases hnone
  next mark' hmark' =>
    obtain rfl := Option.some.inj (hmark.symm.trans hmark')
    rw [if_pos hoverdue]
    exact (length_expireLoop_le _).trans_lt (length_keys_erase_lt hmark)

/-- The frames that an assembler has, completed or begun. -/
def framesDue (a : RtpFrameAssembler ρ) : ℕ := a.completed.length + a.partialFrame.toList.length

/-- What a result hands out. -/
def handed : Except RtpError (Option (PendingMediaFrame ρ)) → ℕ
  | .ok none => 0
  | _ => 1

lemma framesDue_settle (a : RtpFrameAssembler ρ) (packet : PendingMediaPacket ρ) :
    framesDue (a.settle packet) ≤ framesDue a := by
  have hdrop : ∀ b : RtpFrameAssembler ρ,
      framesDue (if b.partialFrame.any fun f => !f.acceptsNext packet && f.matchesContext packet
        then { b with partialFrame := none } else b) ≤ framesDue b := by
    intro b
    split <;> simp [framesDue]
  refine (hdrop _).trans ?_
  obtain ⟨partialFrame, completed⟩ := a
  split
  · cases partialFrame <;> simp [framesDue]
  · exact le_rfl

lemma handed_popCompleted (a : RtpFrameAssembler ρ) :
    handed (.ok a.popCompleted.1) + framesDue a.popCompleted.2 = framesDue a := by
  obtain ⟨partialFrame, _ | ⟨frame, completed⟩⟩ := a
  · simp [RtpFrameAssembler.popCompleted, handed]
  · simp [RtpFrameAssembler.popCompleted, handed, framesDue]
    omega

lemma handed_append (a : RtpFrameAssembler ρ) (packet : PendingMediaPacket ρ)
    (continuesPartial : Bool) (payload : ParsedRtpPayload) :
    handed (a.append packet continuesPartial payload).1 +
      framesDue (a.append packet continuesPartial payload).2 ≤ framesDue a + 1 := by
  unfold RtpFrameAssembler.append
  dsimp only
  split
  · exact (handed_popCompleted a).le.trans (Nat.le_succ _)
  generalize (if (continuesPartial && !payload.boundary.startsFrame) = true then a.partialFrame
    else none) = continued
  generalize hb : (if continued.isSome then { a with partialFrame := none } else a) = b
  have hle : framesDue b ≤ framesDue a := by
    rw [← hb]
    split <;> simp [framesDue]
  split
  · simp only [handed]
    omega
  · rw [handed_popCompleted]
    refine le_trans ?_ (Nat.succ_le_succ hle)
    split
    · simp only [framesDue, List.length_append, List.length_singleton]
      omega
    · simp only [framesDue, Option.toList_some, List.length_singleton]
      omega

/-- A packet adds one frame at most. -/
lemma handed_pushPacket (a : RtpFrameAssembler ρ) (packet : PendingMediaPacket ρ) :
    handed (a.pushPacket packet).1 + framesDue (a.pushPacket packet).2 ≤ framesDue a + 1 := by
  have hsettle := framesDue_settle a packet
  unfold RtpFrameAssembler.pushPacket
  dsimp only
  split
  · simp only [handed]
    omega
  next payload _ =>
    have happend := handed_append (a.settle packet) packet
      ((a.settle packet).partialFrame.any fun f => f.acceptsNext packet) payload
    omega

/-- A stream has nothing to hand out: no frame is completed, and the next packet does not wait. -/
lemma not_ready_iff : s.hasReadyBufferedMedia = false ↔
    s.assembler.completed = [] ∧ ∀ n, s.nextSeq = some n → n ∉ s.pendingMedia := by
  unfold ReceiveSsrcState.hasReadyBufferedMedia
  cases s.nextSeq <;> simp [RtpFrameAssembler.hasCompletedFrame]

/-- The frames that a stream can hand out: those of its assembler, and one for every packet that
waits. -/
def ssrcDue (s : ReceiveSsrcState ρ) : ℕ := s.pendingMedia.keys.length + framesDue s.assembler

def ssrcWeight (s : ReceiveSsrcState ρ) : ℕ :=
  ssrcDue s + s.pendingMedia.keys.length + s.missing.keys.length

lemma ssrcDue_pop (h : s.hasReadyBufferedMedia = true) :
    handed s.popReadyBufferedFrame.1 + ssrcDue s.popReadyBufferedFrame.2 ≤ ssrcDue s ∧
      ssrcWeight s.popReadyBufferedFrame.2 < ssrcWeight s := by
  obtain ⟨nextSeq, missing, pendingMedia, ⟨partialFrame, completed⟩⟩ := s
  rcases completed with _ | ⟨frame, completed⟩
  · -- nothing is completed, so the next packet waits
    obtain ⟨n, rfl, hn⟩ : ∃ n, nextSeq = some n ∧ n ∈ pendingMedia := by
      simpa [ReceiveSsrcState.hasReadyBufferedMedia, RtpFrameAssembler.hasCompletedFrame,
        Option.any_eq_true] using h
    obtain ⟨packet, hpacket⟩ := mem_iff_lookup.mp hn
    have hpending := length_keys_erase_lt hpacket
    have hmissing : (missing.erase n).keys.length ≤ missing.keys.length := by
      rw [AList.keys_erase]
      exact List.length_erase_le
    have hpush := handed_pushPacket ⟨partialFrame, []⟩ packet
    simp only [ReceiveSsrcState.popReadyBufferedFrame, ReceiveSsrcState.takeReady,
      RtpFrameAssembler.popCompleted, List.head?_nil, hpacket, ReceiveSsrcState.finish, ssrcWeight,
      ssrcDue]
    omega
  · simp only [ReceiveSsrcState.popReadyBufferedFrame, ReceiveSsrcState.takeReady,
      RtpFrameAssembler.popCompleted, List.head?_cons, List.tail_cons, ReceiveSsrcState.finish,
      ssrcWeight, ssrcDue, framesDue, handed, List.length_cons]
    omega

lemma ssrcDue_expire {deadline : ℕ} (ssrc : UInt32)
    (h : s.pendingReorderDeadline tuning = some deadline) (hle : deadline ≤ now) :
    ssrcDue (s.expireMissingHead tuning ssrc now false).2 ≤ ssrcDue s ∧
      ssrcWeight (s.expireMissingHead tuning ssrc now false).2 < ssrcWeight s := by
  simp only [ReceiveSsrcState.pendingReorderDeadline, bind, Option.bind_eq_some_iff, pure,
    Option.some.injEq] at h
  obtain ⟨n, hnext, mark, hmark, rfl⟩ := h
  have hoverdue : Overdue tuning now false mark := .inr hle
  have hlt := length_expireLoop_lt (e := ⟨n, n, mark.userId, 0, s.missing⟩) hmark hoverdue
  rw [expireMissingHead_of_overdue ssrc hnext hmark hoverdue]
  simp only [ssrcWeight, ssrcDue, framesDue, RtpFrameAssembler.clear, Option.toList_none,
    List.length_nil] at hlt ⊢
  omega

/-! Sums over all streams. -/

def ssrcsSum (f : ReceiveSsrcState ρ → ℕ) (ssrcs : SsrcMap ρ) : ℕ :=
  (ssrcs.entries.map fun e => f e.2).sum

def ssrcsWeight (ssrcs : SsrcMap ρ) : ℕ := ssrcsSum ssrcWeight ssrcs

/-- The media that the streams can hand out, each packet taken for a frame. -/
def ssrcsDue (ssrcs : SsrcMap ρ) : ℕ := ssrcsSum ssrcDue ssrcs

/-- A stream that moves on takes the place of what it was. -/
lemma ssrcsSum_insert (f : ReceiveSsrcState ρ → ℕ) (h : ssrcs.lookup ssrc = some s)
    (s' : ReceiveSsrcState ρ) :
    ssrcsSum f (ssrcs.insert ssrc s') + f s = ssrcsSum f ssrcs + f s' := by
  have hmem : ssrc ∈ ssrcs.entries.keys := AList.lookup_isSome.mp (h ▸ rfl)
  obtain ⟨b, l₁, l₂, hnot, hentries, hkerase⟩ := List.exists_of_kerase hmem
  have hb : b = s := by
    rw [AList.lookup, hentries, List.dlookup_append,
      List.dlookup_eq_none.mpr hnot, Option.none_or, List.dlookup_cons_eq] at h
    exact Option.some.inj h
  subst hb
  have hinsert : (ssrcs.insert ssrc s').entries = ⟨ssrc, s'⟩ :: (l₁ ++ l₂) := by
    rw [AList.entries_insert, hkerase]
  simp only [ssrcsSum, hinsert, hentries, List.map_append, List.map_cons, List.sum_append,
    List.sum_cons]
  omega

lemma ssrc_refresh (r : ReceiveState ρ) (ssrc : UInt32) :
    (r.refreshSsrcSchedules tuning ssrc).ssrc = r.ssrc := by
  have hqueue (state : ReceiveSsrcState ρ) : (r.queueReady ssrc state).ssrc = r.ssrc := by
    unfold ReceiveState.queueReady
    split <;> rfl
  unfold ReceiveState.refreshSsrcSchedules
  split
  · rfl
  · dsimp only
    split <;> exact hqueue _

@[simp] lemma ssrc_update (r : ReceiveState ρ) (ssrc : UInt32) (state : ReceiveSsrcState ρ) :
    (r.update tuning ssrc state).ssrc = r.ssrc.insert ssrc state := ssrc_refresh _ _

/-- A stream that is taken from the queue has something to hand out. -/
lemma popReady_ready {ready ready' : List UInt32} {queued queued' : Finset UInt32}
    (h : popReady ssrcs ready queued = (some ssrc, ready', queued')) :
    ∃ s, ssrcs.lookup ssrc = some s ∧ s.hasReadyBufferedMedia = true := by
  fun_induction popReady ssrcs ready queued with
  | case1 => cases h
  | case2 queued ssrc' ready q hready =>
    obtain rfl := Option.some.inj (Prod.mk.inj h).1
    exact (Option.any_eq_true _ _).mp hready
  | case3 queued ssrc' ready q hnot ih => exact ih h

/-- A stream that is taken for its deadline has missed it. -/
lemma expiredMissing_expired {deadlines deadlines' : DeadlineSet UInt32}
    (h : expiredMissing tuning ssrcs now deadlines = (some ssrc, deadlines')) :
    ∃ s deadline, ssrcs.lookup ssrc = some s ∧ s.pendingReorderDeadline tuning = some deadline ∧
      deadline ≤ now := by
  fun_induction expiredMissing tuning ssrcs now deadlines with
  | case1 => cases h
  | case2 deadlines ssrc' d hpop hexpired =>
    cases h
    obtain ⟨deadline, hdeadline, hle⟩ := (Option.any_eq_true _ _).mp hexpired
    obtain ⟨s, hs, hpending⟩ := Option.bind_eq_some_iff.mp hdeadline
    exact ⟨s, deadline, hs, hpending, of_decide_eq_true hle⟩
  | case3 deadlines ssrc' d hpop hnot ih => exact ih h

/-- When no stream is taken for its deadline, no deadline that is left has passed. -/
lemma expiredMissing_none {deadlines deadlines' : DeadlineSet UInt32}
    (h : expiredMissing tuning ssrcs now deadlines = (none, deadlines')) :
    ∀ x deadline, deadlines'.keys.lookup x = some deadline → now < deadline := by
  fun_induction expiredMissing tuning ssrcs now deadlines with
  | case1 deadlines d hpop =>
    cases h
    obtain ⟨rfl, hlater⟩ := deadlines.popExpired_eq_none hpop
    exact hlater
  | case2 deadlines ssrc d hpop hexpired => cases h
  | case3 deadlines ssrc d hpop hnot ih => exact ih h

open ReceiveState (Round) in
/-- What a round does: it hands out of a stream that is ready, or gives up packets of one that has
missed its deadline, or finds neither. -/
inductive Rounds (tuning : ConnectionRuntimeTuning) (now : ℕ) (r : ReceiveState ρ) : Round ρ → Prop
  | pop {ssrc : UInt32} {s : ReceiveSsrcState ρ} {ready : List UInt32} {queued : Finset UInt32}
      (hpop : popReady r.ssrc r.readySsrcs r.queuedReadySsrcs = (some ssrc, ready, queued))
      (hs : r.ssrc.lookup ssrc = some s) (hready : s.hasReadyBufferedMedia = true) :
      Rounds tuning now r (.ofResult (ReceiveState.update tuning
        { r with readySsrcs := ready, queuedReadySsrcs := queued } ssrc s.popReadyBufferedFrame.2)
        s.popReadyBufferedFrame.1)
  | expire {ssrc : UInt32} {s : ReceiveSsrcState ρ} {deadline : ℕ} {ready : List UInt32}
      {queued : Finset UInt32} {deadlines : DeadlineSet UInt32}
      (hpop : popReady r.ssrc r.readySsrcs r.queuedReadySsrcs = (none, ready, queued))
      (hexpired : expiredMissing tuning r.ssrc now r.rtpReorderDeadlines = (some ssrc, deadlines))
      (hs : r.ssrc.lookup ssrc = some s)
      (hdeadline : s.pendingReorderDeadline tuning = some deadline) (hle : deadline ≤ now) :
      Rounds tuning now r (.continues (ReceiveState.update tuning
        { r with
          readySsrcs := ready, queuedReadySsrcs := queued, rtpReorderDeadlines := deadlines }
        ssrc (s.expireMissingHead tuning ssrc now false).2))
  | idle {ready : List UInt32} {queued : Finset UInt32} {deadlines : DeadlineSet UInt32}
      (hpop : popReady r.ssrc r.readySsrcs r.queuedReadySsrcs = (none, ready, queued))
      (hexpired : expiredMissing tuning r.ssrc now r.rtpReorderDeadlines = (none, deadlines)) :
      Rounds tuning now r (.returns none { r with
        readySsrcs := ready, queuedReadySsrcs := queued, rtpReorderDeadlines := deadlines })

theorem drainRound_rounds (r : ReceiveState ρ) (now : ℕ) :
    Rounds tuning now r (r.drainRound tuning now) := by
  unfold ReceiveState.drainRound ReceiveState.popReadyBufferedSsrc
  rcases hpop : popReady r.ssrc r.readySsrcs r.queuedReadySsrcs with ⟨_ | ssrc, ready, queued⟩
  · dsimp only [ReceiveState.expiredMissingSsrc]
    rcases hexpired : expiredMissing tuning r.ssrc now r.rtpReorderDeadlines with
      ⟨_ | ssrc, deadlines⟩
    · exact .idle hpop hexpired
    · obtain ⟨s, deadline, hs, hdeadline, hle⟩ := expiredMissing_expired hexpired
      simp only [ReceiveState.expireFrom, hs]
      exact .expire hpop hexpired hs hdeadline hle
  · obtain ⟨s, hs, hready⟩ := popReady_ready hpop
    simp only [ReceiveState.popFrom, hs]
    exact .pop hpop hs hready

/-- A round that hands out of a stream does not end the loop without a result. -/
lemma ofResult_ne (r r' : ReceiveState ρ)
    (result : Except RtpError (Option (PendingMediaFrame ρ))) :
    ReceiveState.Round.ofResult r result ≠ .returns none r' := by
  rcases result with _ | _ | _ <;> nofun

/-- What a round does to the streams. -/
inductive Steps (tuning : ConnectionRuntimeTuning) (now : ℕ) (ssrcs : SsrcMap ρ) :
    ReceiveState.Round ρ → Prop
  | idle {r : ReceiveState ρ} (hr : r.ssrc = ssrcs) : Steps tuning now ssrcs (.returns none r)
  | pop {r : ReceiveState ρ} {ssrc : UInt32} {s : ReceiveSsrcState ρ}
      (hs : ssrcs.lookup ssrc = some s) (hready : s.hasReadyBufferedMedia = true)
      (hr : r.ssrc = ssrcs.insert ssrc s.popReadyBufferedFrame.2) :
      Steps tuning now ssrcs (.ofResult r s.popReadyBufferedFrame.1)
  | expire {r : ReceiveState ρ} {ssrc : UInt32} {s : ReceiveSsrcState ρ} {deadline : ℕ}
      (hs : ssrcs.lookup ssrc = some s)
      (hdeadline : s.pendingReorderDeadline tuning = some deadline) (hle : deadline ≤ now)
      (hr : r.ssrc = ssrcs.insert ssrc (s.expireMissingHead tuning ssrc now false).2) :
      Steps tuning now ssrcs (.continues r)

theorem drainRound_steps (r : ReceiveState ρ) (now : ℕ) :
    Steps tuning now r.ssrc (r.drainRound tuning now) := by
  have hround : Rounds tuning now r (r.drainRound tuning now) := drainRound_rounds r now
  generalize r.drainRound tuning now = round at hround ⊢
  cases hround with
  | pop _ hs hready => exact .pop hs hready (ssrc_update _ _ _)
  | expire _ _ hs hdeadline hle => exact .expire hs hdeadline hle (ssrc_update _ _ _)
  | idle => exact .idle rfl

@[simp] lemma state_ofResult (r : ReceiveState ρ)
    (result : Except RtpError (Option (PendingMediaFrame ρ))) :
    (ReceiveState.Round.ofResult r result).state = r := by
  rcases result with _ | _ | _ <;> rfl

/-- What a round returns is no longer due, and one that does not end the loop without a result
makes the streams lighter. -/
lemma Steps.lighter (h : Steps tuning now ssrcs round) :
    ssrcsDue round.state.ssrc ≤ ssrcsDue ssrcs ∧
      (∀ x r, round = .returns (some x) r → ssrcsDue round.state.ssrc < ssrcsDue ssrcs) ∧
      ((∀ r, round ≠ .returns none r) → ssrcsWeight round.state.ssrc < ssrcsWeight ssrcs) := by
  cases h with
  | idle hr =>
    rw [ReceiveState.Round.state, hr]
    exact ⟨le_rfl, by rintro _ _ ⟨⟩, fun hround => absurd rfl (hround _)⟩
  | @pop r ssrc s hs hready hr =>
    have hsum := fun f => ssrcsSum_insert f hs s.popReadyBufferedFrame.2
    obtain ⟨hdue, hlt⟩ := ssrcDue_pop hready
    have hsumDue := hsum ssrcDue
    have hsumWeight := hsum ssrcWeight
    rw [state_ofResult, hr, ssrcsDue, ssrcsDue, ssrcsWeight, ssrcsWeight]
    refine ⟨by omega, fun x r' hreturns => ?_, fun _ => by omega⟩
    have hone : handed s.popReadyBufferedFrame.1 = 1 := by
      rcases hresult : s.popReadyBufferedFrame.1 with _ | _ | _
      · rfl
      · rw [hresult] at hreturns
        cases hreturns
      · rfl
    omega
  | @expire r ssrc s deadline hs hdeadline hle hr =>
    have hsum := fun f => ssrcsSum_insert f hs (s.expireMissingHead tuning ssrc now false).2
    obtain ⟨hdue, hlt⟩ := ssrcDue_expire ssrc hdeadline hle
    have hsumDue := hsum ssrcDue
    have hsumWeight := hsum ssrcWeight
    rw [ReceiveState.Round.state, hr, ssrcsDue, ssrcsDue, ssrcsWeight, ssrcsWeight]
    exact ⟨by omega, by rintro _ _ ⟨⟩, fun _ => by omega⟩

/-- A round that does not end the loop without a result makes the streams lighter. -/
lemma ssrcsWeight_round {r : ReceiveState ρ} (h : r.drainRound tuning now = round)
    (hround : ∀ r, round ≠ .returns none r) :
    ssrcsWeight round.state.ssrc < ssrcsWeight r.ssrc := by
  subst h
  exact (drainRound_steps r now).lighter.2.2 hround

variable (tuning)

def ReceiveState.drainOrderedMedia (now : ℕ) (r : ReceiveState ρ) :
    Option (Output ρ) × ReceiveState ρ :=
  match _h : r.drainRound tuning now with
  | .returns result r => (result, r)
  | .continues r => drainOrderedMedia now r
termination_by ssrcsWeight r.ssrc
decreasing_by exact ssrcsWeight_round _h nofun

variable {tuning}

/-- What the rounds keep, the loop keeps, and it returns what its last round returns. -/
lemma drainOrderedMedia_inv {r r' : ReceiveState ρ} {x : Option (Output ρ)}
    {I : ReceiveState ρ → Prop} (hround : ∀ r, I r → I (r.drainRound tuning now).state) (h : I r)
    (hdrain : r.drainOrderedMedia tuning now = (x, r')) :
    I r' ∧ ∃ r₀, I r₀ ∧ r₀.drainRound tuning now = .returns x r' := by
  fun_induction ReceiveState.drainOrderedMedia tuning now r with
  | case1 r result r₁ hr =>
    cases hdrain
    have hnext := hround r h
    rw [hr] at hnext
    exact ⟨hnext, r, h, hr⟩
  | case2 r r₁ hr ih =>
    have hnext := hround r h
    rw [hr] at hnext
    exact ih hnext hdrain

end Cacophony.Streams
