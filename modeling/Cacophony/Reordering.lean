import Mathlib.Data.Finset.Image
import Mathlib.Order.Interval.Finset.Nat
import Cacophony.FramePackets
import Cacophony.InOrder

/-!
Packets of a block out of order.

The first packet of the block comes first, the others in any order and as often as they like, all
within the time that the reorder buffer waits. As long as the block is not longer than the buffer
and than half of the sequence numbers, what is handed out is what an assembler makes of the packets
in order.
-/

namespace Cacophony.Streams

open Transport RtpPayload Assembler Reorder Deadlines

variable {ρ : Type} {first : UInt16} {P : List (PendingMediaPacket ρ)}
  {arrived : PendingMediaPacket ρ → Prop} {now i j : ℕ} {s : ReceiveSsrcState ρ}
  {p q : PendingMediaPacket ρ} {outs : List (Output ρ)} {tuning : ConnectionRuntimeTuning}

/-! ### What waits -/

/-- Packet `i` is next, and all that came of those behind it waits. When all went out, the first
packet of a block of the greatest length may be taken for one that is early. -/
structure Awaits (first : UInt16) (P : List (PendingMediaPacket ρ))
    (arrived : PendingMediaPacket ρ → Prop) (now : ℕ) (s : ReceiveSsrcState ρ) (i : ℕ) : Prop where
  next : s.nextSeq = some (number first i)
  pos : 0 < i
  le : i ≤ P.length
  pending : ∀ k p, s.pendingMedia.lookup k = some p →
    ∃ j, P[j]? = some p ∧ k = number first j ∧ (i ≤ j ∨ i = P.length ∧ j = 0)
  waiting : ∀ j p, i ≤ j → P[j]? = some p → arrived p →
    s.pendingMedia.lookup (number first j) = some p
  missing : ∀ k mark, s.missing.lookup k = some mark → mark.detectedAt = now

/-- The packet that is next, if it waits. -/
lemma Awaits.getElem?_eq (h : Awaits first P arrived now s i) (hlen : P.length ≤ 2 ^ 15 + 1)
    (hp : s.pendingMedia.lookup (number first i) = some p) : P[i]? = some p := by
  obtain ⟨j, hj, hk, -⟩ := h.pending _ p hp
  have hlt := (List.getElem?_eq_some_iff.mp hj).1
  have hle := h.le
  obtain rfl := number_inj (by omega) (by omega) hk
  exact hj

/-- Packet `i` goes out. -/
lemma Awaits.advance (h : Awaits first P arrived now s i) (hlen : P.length ≤ 2 ^ 15 + 1)
    (hp : P[i]? = some p) :
    Awaits first P arrived now
      { s with
        pendingMedia := s.pendingMedia.erase (number first i)
        missing := s.missing.erase (number first i)
        nextSeq := some (number first i + 1) } (i + 1) where
  next := by rw [number_succ]
  pos := Nat.succ_pos i
  le := (List.getElem?_eq_some_iff.mp hp).1
  pending k q hq := by
    have hi := (List.getElem?_eq_some_iff.mp hp).1
    obtain ⟨hk, hq⟩ := lookup_of_lookup_erase hq
    obtain ⟨j, hj, rfl, hle | ⟨hend, -⟩⟩ := h.pending k q hq
    · have hne : j ≠ i := fun heq => hk (heq ▸ rfl)
      exact ⟨j, hj, rfl, .inl (by omega)⟩
    · omega
  waiting j q hle hj hq := by
    have hlt := (List.getElem?_eq_some_iff.mp hj).1
    have hne : number first j ≠ number first i := by
      intro heq
      have := number_inj (by omega) (by omega) heq
      omega
    rw [AList.lookup_erase_ne hne]
    exact h.waiting j q (by omega) hj hq
  missing k mark hmark := h.missing k mark (lookup_of_lookup_erase hmark).2

/-- The stream has handed out, or has ready, what an assembler makes of the packets before `i`. -/
def InStep (first : UInt16) (P : List (PendingMediaPacket ρ))
    (arrived : PendingMediaPacket ρ → Prop) (now : ℕ) (s : ReceiveSsrcState ρ)
    (outs : List (Output ρ)) : Prop :=
  ∃ i, Awaits first P arrived now s i ∧ emptied s.assembler = fed {} (P.take i) ∧
    outs ++ s.assembler.completed.map .ok = emitted {} (P.take i)

/-- Packet `i` goes to the assembler. -/
lemma inStep_finish (h : Awaits first P arrived now s (i + 1)) (hp : P[i]? = some p)
    (hassembler : s.assembler = fed {} (P.take i)) (houts : outs = emitted {} (P.take i)) :
    InStep first P arrived now (s.finish (.packet p)).2
      (outs ++ produced (s.finish (.packet p)).1) := by
  have htake : P.take (i + 1) = P.take i ++ [p] := by
    rw [List.take_add_one, hp]
    rfl
  refine ⟨i + 1, ⟨h.next, h.pos, h.le, h.pending, h.waiting, h.missing⟩, ?_, ?_⟩
  · rw [htake, fed_append, ← hassembler]
    rfl
  · rw [htake, emitted_append, ← hassembler, houts, emitted, emitted, List.append_nil, handOut,
      List.append_assoc]
    rfl

/-! ### Between two packets -/

lemma InStep.pop (h : InStep first P arrived now s outs) (hlen : P.length ≤ 2 ^ 15 + 1) :
    InStep first P arrived now s.popReadyBufferedFrame.2
      (outs ++ produced s.popReadyBufferedFrame.1) := by
  obtain ⟨i, hs, hassembler, houts⟩ := h
  rcases hcompleted : s.assembler.completed with _ | ⟨frame, completed⟩
  · have hempty : s.assembler = fed {} (P.take i) := by
      rw [← hassembler, emptied, ← hcompleted]
    rw [hcompleted, List.map_nil, List.append_nil] at houts
    rcases hpending : s.pendingMedia.lookup (number first i) with _ | p
    · rw [pop_of_lookup_none hcompleted hs.next hpending, produced, List.append_nil]
      exact ⟨i, hs, hassembler, by rw [hcompleted, List.map_nil, List.append_nil, houts]⟩
    · have hp := hs.getElem?_eq hlen hpending
      rw [pop_of_lookup hcompleted hs.next hpending]
      exact inStep_finish (hs.advance hlen hp) hp hempty houts
  · rw [pop_of_completed hcompleted]
    refine ⟨i, ⟨hs.next, hs.pos, hs.le, hs.pending, hs.waiting, hs.missing⟩, hassembler, ?_⟩
    rw [← houts, hcompleted, List.append_assoc]
    rfl

lemma keeps_inStep (hlen : P.length ≤ 2 ^ 15 + 1) (httl : 0 < tuning.rtpReorderTtl)
    (ssrc : UInt32) :
    Keeps tuning ssrc (fun _ => False) (· = now) (InStep first P arrived now) where
  push h := h.elim
  pop h := h.pop hlen
  expire {s outs t} ht h := by
    subst ht
    obtain ⟨i, hs, hassembler, houts⟩ := h
    -- a mark that was made now is not overdue
    rw [expireMissingHead_of_not_overdue ssrc hs.next]
    · exact ⟨i, hs, hassembler, houts⟩
    · rintro mark hmark (hforce | hoverdue)
      · cases hforce
      · have := hs.missing _ mark hmark
        omega

/-! ### The next packet -/

/-- All that waits is behind packet `i`, so the buffer is not full. -/
lemma Awaits.length_pending_le (h : Awaits first P arrived now s i) (hlong : 1 < P.length)
    (hmax : P.length ≤ tuning.rtpReorderBufferMaxFrames + 1) :
    s.pendingMedia.keys.length ≤ tuning.rtpReorderBufferMaxFrames := by
  have hpos := h.pos
  obtain ⟨T, hT, hkeys⟩ : ∃ T : Finset ℕ, T.card ≤ tuning.rtpReorderBufferMaxFrames ∧
      ∀ k p, s.pendingMedia.lookup k = some p → ∃ j ∈ T, number first j = k := by
    rcases h.le.lt_or_eq with hlt | hend
    · refine ⟨Finset.Ico i P.length, by rw [Nat.card_Ico]; omega, fun k p hp => ?_⟩
      obtain ⟨j, hj, rfl, hle | ⟨hend, -⟩⟩ := h.pending k p hp
      · exact ⟨j, Finset.mem_Ico.mpr ⟨hle, (List.getElem?_eq_some_iff.mp hj).1⟩, rfl⟩
      · omega
    · refine ⟨{0}, by rw [Finset.card_singleton]; omega, fun k p hp => ?_⟩
      obtain ⟨j, hj, rfl, hle | ⟨-, rfl⟩⟩ := h.pending k p hp
      · have := (List.getElem?_eq_some_iff.mp hj).1
        omega
      · exact ⟨0, Finset.mem_singleton_self 0, rfl⟩
  have hsub : s.pendingMedia.keys.toFinset ⊆ T.image (number first) := by
    intro k hk
    obtain ⟨p, hp⟩ := mem_iff_lookup.mp (AList.mem_keys.mpr (List.mem_toFinset.mp hk))
    exact Finset.mem_image.mpr (hkeys k p hp)
  calc s.pendingMedia.keys.length
      = s.pendingMedia.keys.toFinset.card :=
        (List.toFinset_card_of_nodup (AList.keys_nodup _)).symm
    _ ≤ (T.image (number first)).card := Finset.card_le_card hsub
    _ ≤ T.card := Finset.card_image_le
    _ ≤ tuning.rtpReorderBufferMaxFrames := hT

/-- One more packet came; it waits if it is still to go out. -/
lemma Awaits.arrive (h : Awaits first P arrived now s i)
    (hq : ∀ j, i ≤ j → P[j]? = some q → s.pendingMedia.lookup (number first j) = some q) :
    Awaits first P (fun p => p = q ∨ arrived p) now s i where
  next := h.next
  pos := h.pos
  le := h.le
  pending := h.pending
  waiting j p hle hj hp := by
    rcases hp with rfl | hp
    · exact hq j hle hj
    · exact h.waiting j p hle hj hp
  missing := h.missing

/-- A packet that is early, or taken for one. -/
lemma Awaits.buffer (h : Awaits first P arrived now s i) (hlen : P.length ≤ 2 ^ 15 + 1)
    (hnum : Numbered first P) (hj : P[j]? = some q) (hearly : i ≤ j ∨ i = P.length ∧ j = 0) :
    Awaits first P (fun p => p = q ∨ arrived p) now (s.buffer (number first i) q now) i := by
  have hseq := hnum j q hj
  have hbuffer : Awaits first P arrived now (s.buffer (number first i) q now) i :=
    { next := h.next
      pos := h.pos
      le := h.le
      pending := fun k p hp => by
        rw [ReceiveSsrcState.buffer, lookup_orInsert] at hp
        split at hp
        next hk =>
          cases hp
          exact ⟨j, hj, hk.1.trans hseq, hearly⟩
        next => exact h.pending k p hp
      waiting := fun j' p hle hj' hp => by
        have hold := h.waiting j' p hle hj' hp
        rw [ReceiveSsrcState.buffer, lookup_orInsert, if_neg]
        · exact hold
        · rintro ⟨heq, hout⟩
          exact hout (heq ▸ mem_iff_lookup.mpr ⟨p, hold⟩)
      missing := fun k mark hmark => by
        rw [ReceiveSsrcState.buffer, lookup_markMissing] at hmark
        split at hmark
        next =>
          cases hmark
          rfl
        next => exact h.missing k mark hmark }
  refine hbuffer.arrive fun j' _ hj' => ?_
  rw [← hnum j' q hj', ReceiveSsrcState.buffer, lookup_orInsert]
  split
  next => rfl
  next hin =>
    -- what waits under the number is the packet
    obtain ⟨p, hp⟩ := mem_iff_lookup.mp (not_not.mp fun hout => hin ⟨rfl, hout⟩)
    obtain ⟨j'', hj'', hk, -⟩ := h.pending _ p hp
    have hlt := (List.getElem?_eq_some_iff.mp hj).1
    have hlt'' := (List.getElem?_eq_some_iff.mp hj'').1
    obtain rfl := number_inj (by omega) (by omega) (hseq.symm.trans hk)
    exact hp.trans (hj''.symm.trans hj)

/-- A packet comes when nothing is ready. -/
lemma InStep.push (h : InStep first P arrived now s outs) (hready : s.hasReadyBufferedMedia = false)
    (hlen : P.length ≤ 2 ^ 15 + 1) (hmax : P.length ≤ tuning.rtpReorderBufferMaxFrames + 1)
    (hnum : Numbered first P) (hq : q ∈ P) :
    InStep first P (fun p => p = q ∨ arrived p) now (s.pushMediaPacket tuning q now).2.2
      (outs ++ produced (s.pushMediaPacket tuning q now).2.1) := by
  obtain ⟨i, hs, hassembler, houts⟩ := h
  obtain ⟨j, hj⟩ := List.getElem?_of_mem hq
  have hseq := hnum j q hj
  have hjlt := (List.getElem?_eq_some_iff.mp hj).1
  have hle := hs.le
  have hpos := hs.pos
  have hcompleted := (not_ready_iff.mp hready).1
  -- a packet in another place has another number
  have hplace {j' : ℕ} (hj' : P[j']? = some q) : j' = j := by
    have hlt := (List.getElem?_eq_some_iff.mp hj').1
    exact number_inj (by omega) (by omega) ((hnum j' q hj').symm.trans hseq)
  have hahead := ahead_number first (show i < 65536 by omega) (show j < 65536 by omega)
  rw [← hseq] at hahead
  by_cases hnext : j = i
  · subst hnext
    have hempty : s.assembler = fed {} (P.take j) := by
      rw [← hassembler, emptied, ← hcompleted]
    rw [hcompleted, List.map_nil, List.append_nil] at houts
    rw [push_next hs.next hseq]
    refine inStep_finish ((hs.advance hlen hj).arrive fun j' hle' hj' => ?_) hj hempty houts
    have := hplace hj'
    omega
  · by_cases hearly : ahead (number first i) q.rtp.seq < 0x8000
    · have hcase : i ≤ j ∨ i = P.length ∧ j = 0 := by
        split at hahead <;> omega
      have hne : q.rtp.seq ≠ number first i := by
        refine ne_of_ahead_pos ?_
        split at hahead <;> omega
      have hnear : ahead (number first i) q.rtp.seq ≤ tuning.rtpReorderBufferMaxFrames := by
        split at hahead <;> omega
      have hbuffer := hs.buffer hlen hnum hj hcase
      have hlong : 1 < P.length := by
        split at hahead <;> omega
      have hroom := hbuffer.length_pending_le hlong hmax
      rw [push_early hs.next hne hearly hnear, if_neg (not_lt.mpr hroom)]
      exact InStep.pop ⟨i, hbuffer, hassembler, houts⟩ hlen
    · rw [push_late hs.next (not_lt.mp hearly), produced, List.append_nil]
      refine ⟨i, hs.arrive fun j' hle' hj' => ?_, hassembler, houts⟩
      have := hplace hj'
      rw [if_pos (by omega)] at hahead
      omega

/-! ### All packets -/

/-- The stream is in step with an assembler, and all that is ready was taken. -/
structure Rests (first : UInt16) (P : List (PendingMediaPacket ρ))
    (arrived : PendingMediaPacket ρ → Prop) (now : ℕ) (ssrc : UInt32) (r : ReceiveState ρ)
    (outs : List (Output ρ)) : Prop where
  holds : Holds ssrc (InStep first P arrived now) r outs
  queued : QueuedBut none r
  settled : Settled r

variable {r : ReceiveState ρ} {ssrc : UInt32} {qs : List (PendingMediaPacket ρ)}

/-- A push that keeps in step, and the calls behind it. -/
lemma rests_of_push {outs' : List (Output ρ)} (hlen : P.length ≤ 2 ^ 15 + 1)
    (httl : 0 < tuning.rtpReorderTtl) (honly : Only ssrc r) (hqueued : QueuedBut none r)
    (hssrc : q.rtp.ssrc = ssrc)
    (hpush : InStep first P arrived now ((stream ssrc r).pushMediaPacket tuning q now).2.2
      (outs ++ produced ((stream ssrc r).pushMediaPacket tuning q now).2.1))
    (houts : outs' = produced (r.pushMediaPacket tuning q now).1 ++
      (drainAll tuning now (r.pushMediaPacket tuning q now).2).1) :
    Rests first P arrived now ssrc (drainAll tuning now (r.pushMediaPacket tuning q now).2).2
      (outs ++ outs') := by
  subst hssrc
  have hheld : Holds q.rtp.ssrc (InStep first P arrived now) (r.pushMediaPacket tuning q now).2
      (outs ++ produced (r.pushMediaPacket tuning q now).1) :=
    .of_insert honly (ssrc_update _ _ _) hpush
  obtain ⟨hqueued, hsettled⟩ := (hqueued.push tuning q now).drainAll tuning now
  refine ⟨?_, hqueued, hsettled⟩
  rw [houts, ← List.append_assoc]
  exact hheld.drainAll (keeps_inStep hlen httl _) now rfl

lemma Rests.deliverAt (h : Rests first P arrived now ssrc r outs) (hlen : P.length ≤ 2 ^ 15 + 1)
    (hmax : P.length ≤ tuning.rtpReorderBufferMaxFrames + 1) (httl : 0 < tuning.rtpReorderTtl)
    (hnum : Numbered first P) (hqs : ∀ q ∈ qs, q ∈ P ∧ q.rtp.ssrc = ssrc) :
    ∃ arrived' r', (∀ p, p ∈ qs ∨ arrived p → arrived' p) ∧
      Rests first P arrived' now ssrc r' (outs ++ (deliverAt tuning now r qs).1) := by
  induction qs generalizing r outs arrived with
  | nil =>
    refine ⟨arrived, r, fun p hp => hp.resolve_left List.not_mem_nil, ?_⟩
    rw [Streams.deliverAt, List.append_nil]
    exact h
  | cons q qs ih =>
    obtain ⟨⟨hq, hssrc⟩, hqs⟩ := List.forall_mem_cons.mp hqs
    have hpush := h.holds.holds.push (h.settled.stream ssrc) hlen hmax hnum hq
    have hstep := rests_of_push hlen httl h.holds.only h.queued hssrc hpush rfl
    obtain ⟨arrived', r', harrived, hrest⟩ := ih hstep hqs
    refine ⟨arrived', r', fun p hp => harrived p ?_, ?_⟩
    · rcases hp with hp | hp
      · rcases List.mem_cons.mp hp with rfl | hp
        · exact .inr (.inl rfl)
        · exact .inl hp
      · exact .inr (.inr hp)
    · rw [List.append_assoc, List.append_assoc] at hrest
      exact hrest

/-- The first packet of a block. -/
lemma rests_first (hlen : (q :: P).length ≤ 2 ^ 15 + 1) (httl : 0 < tuning.rtpReorderTtl)
    (hnum : Numbered first (q :: P)) (hssrc : q.rtp.ssrc = ssrc) (order : HashOrder UInt32)
    (now : ℕ) : Rests first (q :: P) (· = q) now ssrc
      (drainAll tuning now ((ReceiveState.new order).pushMediaPacket tuning q now).2).2
      (produced ((ReceiveState.new order).pushMediaPacket tuning q now).1 ++
        (drainAll tuning now ((ReceiveState.new order).pushMediaPacket tuning q now).2).1) := by
  have hseq := hnum 0 q rfl
  have hawaits : Awaits first (q :: P) (· = q) now { nextSeq := some (q.rtp.seq + 1) } (0 + 1) :=
    { next := by rw [hseq, number_succ]
      pos := Nat.one_pos
      le := Nat.succ_pos _
      pending := fun k p hp => by simp at hp
      waiting := by
        rintro j p hle hj rfl
        have hlt := (List.getElem?_eq_some_iff.mp hj).1
        have := number_inj (by omega) (by omega) ((hnum j p hj).symm.trans hseq)
        omega
      missing := fun k mark hmark => by simp at hmark }
  have hpush : InStep first (q :: P) (· = q) now
      ((stream ssrc (.new order)).pushMediaPacket tuning q now).2.2
      ([] ++ produced ((stream ssrc (.new order)).pushMediaPacket tuning q now).2.1) := by
    have hstream : stream ssrc (.new order : ReceiveState ρ) = {} := rfl
    rw [hstream, push_first rfl]
    exact inStep_finish hawaits rfl rfl rfl
  have honly : Only ssrc (.new order : ReceiveState ρ) := fun x hx =>
    absurd hx (by simp [ReceiveState.new])
  have hrests := rests_of_push hlen httl honly (queuedBut_new order) hssrc hpush rfl
  exact hrests

/-- When all packets came, all went out. -/
lemma Rests.eq_emitted (h : Rests first P arrived now ssrc r outs) (harrived : ∀ p ∈ P, arrived p) :
    outs = emitted {} P := by
  obtain ⟨i, hs, -, houts⟩ := h.holds.holds
  obtain ⟨hcompleted, hnone⟩ := not_ready_iff.mp (h.settled.stream ssrc)
  obtain rfl : i = P.length := by
    refine hs.le.eq_of_not_lt fun hlt => hnone _ hs.next ?_
    have hi := List.getElem?_eq_getElem hlt
    exact mem_iff_lookup.mpr ⟨_, hs.waiting i _ le_rfl hi (harrived _ (List.mem_of_getElem? hi))⟩
  rwa [hcompleted, List.map_nil, List.append_nil, List.take_length] at houts

/-- The first packet of the block comes first, and all come at least once. -/
structure Shuffles (P arrivals : List (PendingMediaPacket ρ)) : Prop where
  head?_eq : arrivals.head? = P.head?
  mem_iff : ∀ q, q ∈ arrivals ↔ q ∈ P

/-- **Reordering.** A block that is not longer than the buffer, nor than half of the sequence
numbers, comes out the same in any order and with any duplicates. -/
theorem deliverAt_eq_of_shuffles {arrivals : List (PendingMediaPacket ρ)} (h : Shuffles P arrivals)
    (hnum : Numbered first P) (hssrc : ∀ q ∈ P, q.rtp.ssrc = ssrc)
    (hmax : P.length ≤ tuning.rtpReorderBufferMaxFrames + 1) (hlen : P.length ≤ 2 ^ 15 + 1)
    (httl : 0 < tuning.rtpReorderTtl) (order : HashOrder UInt32) (now : ℕ) :
    (deliverAt tuning now (.new order) arrivals).1 = (deliverAt tuning now (.new order) P).1 := by
  rw [(calm_new order ssrc).deliverAt (.inl rfl) hnum hssrc tuning now]
  rcases P with _ | ⟨p, P⟩
  · rw [List.head?_eq_none_iff.mp h.head?_eq]
    rfl
  · rcases arrivals with _ | ⟨q, qs⟩
    · cases h.head?_eq
    obtain rfl := Option.some.inj h.head?_eq
    have hqs : ∀ p ∈ qs, p ∈ q :: P ∧ p.rtp.ssrc = ssrc := fun p hp =>
      have hp := (h.mem_iff p).mp (List.mem_cons_of_mem _ hp)
      ⟨hp, hssrc p hp⟩
    have hfirst := rests_first hlen httl hnum (hssrc q List.mem_cons_self) order now
    obtain ⟨arrived, r, harrived, hrest⟩ := hfirst.deliverAt hlen hmax httl hnum hqs
    rw [List.append_assoc] at hrest
    refine hrest.eq_emitted fun p hp => harrived p ?_
    exact (List.mem_cons.mp ((h.mem_iff p).mpr hp)).symm

/-! ### Longer blocks -/

/-- A packet that is half of the sequence numbers ahead is taken for an old one. -/
lemma Calm.late {n : UInt16} {a : RtpFrameAssembler ρ} (h : Calm ssrc (some n) a r)
    (ha : a.completed = []) (hssrc : q.rtp.ssrc = ssrc) (hlate : 0x8000 ≤ ahead n q.rtp.seq)
    (tuning : ConnectionRuntimeTuning) (now : ℕ) :
    Calm ssrc (some n) a (drainAll tuning now (r.pushMediaPacket tuning q now).2).2 ∧
      produced (r.pushMediaPacket tuning q now).1 ++
        (drainAll tuning now (r.pushMediaPacket tuning q now).2).1 = [] := by
  obtain ⟨f, completed⟩ := a
  obtain rfl : completed = [] := ha
  exact h.step hssrc (push_late rfl hlate now)

/-- An Opus packet is a frame of its own. -/
lemma length_emitted_opus (hqs : ∀ q ∈ qs, q.codec = .opus) :
    (emitted {} qs).length = qs.length := by
  induction qs with
  | nil => rfl
  | cons q qs ih =>
    obtain ⟨hq, hqs⟩ := List.forall_mem_cons.mp hqs
    have hbears : FramePackets.Bears .opus (q.encryptedPayload, q.rtp.marker) q := ⟨hq, rfl, rfl⟩
    have hreads : FramePackets.Reads .opus (q.encryptedPayload, q.rtp.marker) (fun _ => true) true
        q.encryptedPayload := fun _ => ⟨.raw _, rfl, fun _ => rfl⟩
    obtain ⟨f, -, hpush⟩ := FramePackets.pushPacket_start hbears hreads rfl
    obtain ⟨hemitted, hfed⟩ := emitted_singleton hpush rfl
    have hsplit : emitted {} (q :: qs) = emitted {} [q] ++ emitted (fed {} [q]) qs :=
      emitted_append {} [q] qs
    rw [hsplit, hemitted, hfed, List.length_append, ih hqs, List.length_cons, produced,
      List.length_singleton, Nat.add_comm]

def opusPacket (i : ℕ) : PendingMediaPacket UInt16 :=
  Stream.packet ⟨⟨2, false, false, false, 120, 0, 0, 1, 12, 12⟩, none, false, id⟩ .opus
    (UInt16.ofNat i) ([1], false)

/-- The packets `0` to `n`. -/
def opusBlock (n : ℕ) : List (PendingMediaPacket UInt16) := (List.range (n + 1)).map opusPacket

lemma numbered_opusBlock (n : ℕ) : Numbered 0 (opusBlock n) := by
  intro i q hq
  obtain ⟨j, hj, rfl⟩ := Option.map_eq_some_iff.mp ((List.getElem?_map ..).symm.trans hq)
  obtain ⟨-, rfl⟩ := List.getElem?_eq_some_iff.mp hj
  simp [number, opusPacket, Stream.packet]

lemma length_emitted_opusBlock (n : ℕ) : (emitted {} (opusBlock n)).length = n + 1 := by
  rw [length_emitted_opus, opusBlock, List.length_map, List.length_range]
  intro q hq
  obtain ⟨i, -, rfl⟩ := List.mem_map.mp hq
  rfl

/-- Packet `0`, packet `n + 1`, and then the others. -/
def lastSecond (n : ℕ) : List (PendingMediaPacket UInt16) :=
  opusPacket 0 :: opusPacket (n + 1) :: (opusBlock n).tail

lemma opusBlock_eq (n : ℕ) : opusBlock n = opusPacket 0 :: (opusBlock n).tail := by
  rw [opusBlock, List.range_succ_eq_map]
  rfl

lemma shuffles_lastSecond (n : ℕ) : Shuffles (opusBlock (n + 1)) (lastSecond n) := by
  have hblock : opusBlock (n + 1) = opusBlock n ++ [opusPacket (n + 1)] := by
    rw [opusBlock, List.range_succ, List.map_append]
    rfl
  refine ⟨?_, fun q => ?_⟩
  · rw [hblock, opusBlock_eq]
    rfl
  · rw [hblock, opusBlock_eq, lastSecond]
    simp only [List.mem_cons, List.mem_append, List.not_mem_nil, or_false]
    tauto

lemma ssrc_opusBlock (n : ℕ) : ∀ q ∈ opusBlock n, q.rtp.ssrc = 1 := by
  intro q hq
  obtain ⟨i, -, rfl⟩ := List.mem_map.mp hq
  rfl

/-- Three packets, the last one second. -/
theorem deliverAt_lastSecond :
    (deliverAt .default 0 {} (lastSecond 1)).1 = (deliverAt .default 0 {} (opusBlock 2)).1 :=
  deliverAt_eq_of_shuffles (shuffles_lastSecond 1) (numbered_opusBlock 2) (ssrc_opusBlock 2)
    (by decide) (by decide) (by decide) (.listed _) 0

/-- When the last packet is half of the sequence numbers ahead, it is dropped. -/
lemma deliverAt_lastSecond_long {n : ℕ} (hhalf : 0x8000 ≤ n) (hn : n < 65535)
    (tuning : ConnectionRuntimeTuning) :
    (deliverAt tuning 0 (.new (.listed _)) (lastSecond n)).1 = emitted {} (opusBlock n) := by
  have hlate : 0x8000 ≤ ahead ((opusPacket 0).rtp.seq + 1) (opusPacket (n + 1)).rtp.seq := by
    have hahead := ahead_number 0 (show 1 < 65536 by decide) (show n + 1 < 65536 by omega)
    rw [if_pos (by omega), number, number, UInt16.zero_add, UInt16.zero_add] at hahead
    exact hhalf.trans hahead.ge
  have hnum := numbered_opusBlock n
  have hssrc := ssrc_opusBlock n
  rw [opusBlock_eq] at hnum hssrc
  obtain ⟨hfirst, hout⟩ := (calm_new (.listed _) 1).push (q := opusPacket 0) rfl (.inl rfl) tuning 0
  obtain ⟨hcalm, hdropped⟩ := hfirst.late rfl rfl hlate tuning 0
  rw [lastSecond, deliverAt_cons, deliverAt_cons, hout, hdropped, List.nil_append,
    hcalm.deliverAt (.inr rfl) (numbered_cons.mp hnum).2 (List.forall_mem_cons.mp hssrc).2,
    opusBlock_eq n, emitted, List.tail_cons]

/-- The block is within the buffer, but one packet too long for the sequence numbers. -/
theorem longBlock_differs : Shuffles (opusBlock 32769) (lastSecond 32768) ∧
    Numbered 0 (opusBlock 32769) ∧ (opusBlock 32769).length = 32769 + 1 ∧
    (deliverAt ⟨1, 32769⟩ 0 (.new (.listed _)) (lastSecond 32768)).1 ≠
      (deliverAt ⟨1, 32769⟩ 0 (.new (.listed _)) (opusBlock 32769)).1 := by
  refine ⟨shuffles_lastSecond 32768, numbered_opusBlock 32769, ?_, fun heq => ?_⟩
  · rw [opusBlock, List.length_map, List.length_range]
  · rw [deliverAt_lastSecond_long le_rfl (by decide),
      (calm_new (.listed _) 1).deliverAt (.inl rfl) (numbered_opusBlock 32769)
        (ssrc_opusBlock 32769)] at heq
    have hlen := congrArg List.length heq
    rw [length_emitted_opusBlock, length_emitted_opusBlock] at hlen
    omega

end Cacophony.Streams
