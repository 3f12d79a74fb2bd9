import Cacophony.StreamRuns

/-!
Packets with consecutive sequence numbers, in any order, more than once or not at all.

The assembler is given packets of the block in their order. Where some are left out it is cleared,
so that it sees stretches of the block without a gap, one after the other. What feeding it, clearing
it and taking frames from it keep, every run keeps.
-/

namespace Cacophony.Streams

open Transport RtpPayload Assembler Reorder Deadlines

variable {ρ : Type} {first : UInt16} {P Q : List (PendingMediaPacket ρ)} {i j : ℕ}

/-! ### Sequence numbers of a block -/

/-- The sequence number of packet `i`. -/
def number (first : UInt16) (i : ℕ) : UInt16 := first + UInt16.ofNat i

def Numbered (first : UInt16) (P : List (PendingMediaPacket ρ)) : Prop :=
  ∀ i p, P[i]? = some p → p.rtp.seq = number first i

lemma number_succ (first : UInt16) (i : ℕ) : number first i + 1 = number first (i + 1) := by
  rw [number, number, UInt16.ofNat_add, UInt16.add_assoc]
  rfl

lemma number_add_one (first : UInt16) (i : ℕ) : number (first + 1) i = number first (i + 1) := by
  rw [number, number, UInt16.ofNat_add, UInt16.add_assoc, UInt16.add_comm 1]
  rfl

lemma numbered_cons {q : PendingMediaPacket ρ} :
    Numbered first (q :: P) ↔ first = q.rtp.seq ∧ Numbered (first + 1) P := by
  constructor
  · intro h
    refine ⟨((h 0 q rfl).trans (UInt16.add_zero first)).symm, fun i p hp => ?_⟩
    rw [number_add_one]
    exact h (i + 1) p hp
  · rintro ⟨hq, h⟩ (_ | i) p hp
    · obtain rfl := Option.some.inj hp
      exact hq.symm.trans (UInt16.add_zero first).symm
    · rw [← number_add_one]
      exact h i p hp

/-- The packets behind the first ones. -/
lemma Numbered.append_right (h : Numbered first (P ++ Q)) : Numbered (number first P.length) Q := by
  induction P generalizing first with
  | nil =>
    have hzero : number first 0 = first := UInt16.add_zero first
    rw [List.length_nil, hzero]
    exact h
  | cons p P ih =>
    have hrest := ih (numbered_cons.mp h).2
    rwa [number_add_one] at hrest

lemma Numbered.append_left (h : Numbered first (P ++ Q)) : Numbered first P := by
  intro i p hp
  refine h i p ?_
  rw [List.getElem?_append_left (List.getElem?_eq_some_iff.mp hp).1]
  exact hp

lemma ahead_number (first : UInt16) (hi : i < 65536) (hj : j < 65536) :
    ahead (number first i) (number first j) = if i ≤ j then j - i else 65536 + j - i := by
  have hahead : ahead first (number first j) = j := ahead_ofNat hj
  split
  next hle => rw [number, ahead_add (by omega), hahead]
  next hlt =>
    rw [number, ahead_add_of_lt (by omega) (by omega), hahead]
    omega

lemma number_inj (hi : i < 65536) (hj : j < 65536) (h : number first i = number first j) :
    i = j := by
  have hzero := ahead_number first hi hj
  rw [h, ahead_self] at hzero
  split at hzero <;> omega

lemma Numbered.nodup (h : Numbered first P) (hlen : P.length ≤ 65536) : P.Nodup := by
  rw [List.nodup_iff_getElem?_ne_getElem?]
  intro i j hij hj heq
  have hi := List.getElem?_eq_getElem (hij.trans hj)
  have hnumber := (h i _ hi).symm.trans (h j _ (heq ▸ hi))
  have := number_inj (by omega) (by omega) hnumber
  omega

/-! ### What a packet does -/

section Push

variable {tuning : ConnectionRuntimeTuning} {s : ReceiveSsrcState ρ} {n : UInt16}
  {p : PendingMediaPacket ρ}

lemma push_first (hnext : s.nextSeq = none) (now : ℕ) :
    (s.pushMediaPacket tuning p now).2 =
      ReceiveSsrcState.finish { s with nextSeq := some (p.rtp.seq + 1) } (.packet p) := by
  simp only [ReceiveSsrcState.pushMediaPacket, ReceiveSsrcState.place, hnext]

lemma push_next (hnext : s.nextSeq = some n) (hseq : p.rtp.seq = n) (now : ℕ) :
    (s.pushMediaPacket tuning p now).2 =
      ReceiveSsrcState.finish
        { s with
          missing := s.missing.erase n
          pendingMedia := s.pendingMedia.erase n
          nextSeq := some (n + 1) } (.packet p) := by
  simp only [ReceiveSsrcState.pushMediaPacket, ReceiveSsrcState.place, hnext, hseq, if_true]

lemma lt_half_iff (n k : UInt16) : k - n < 0x8000 ↔ ahead n k < 0x8000 := UInt16.lt_iff_toNat_lt

lemma ne_of_ahead_pos (h : 0 < ahead n p.rtp.seq) : p.rtp.seq ≠ n := by
  intro heq
  rw [heq, ahead_self] at h
  exact lt_irrefl _ h

lemma push_late (hnext : s.nextSeq = some n) (hahead : 0x8000 ≤ ahead n p.rtp.seq) (now : ℕ) :
    (s.pushMediaPacket tuning p now).2 = (.ok none, s) := by
  have hne : p.rtp.seq ≠ n := ne_of_ahead_pos (by omega)
  have hlate : ¬ p.rtp.seq - n < 0x8000 := by
    rw [lt_half_iff]
    omega
  simp only [ReceiveSsrcState.pushMediaPacket, ReceiveSsrcState.place, hnext, if_neg hne,
    if_neg hlate, ReceiveSsrcState.finish]

lemma push_far (hnext : s.nextSeq = some n) (hahead : ahead n p.rtp.seq < 0x8000)
    (hfar : tuning.rtpReorderBufferMaxFrames < ahead n p.rtp.seq) (now : ℕ) :
    (s.pushMediaPacket tuning p now).2 =
      ReceiveSsrcState.finish { nextSeq := some (p.rtp.seq + 1) } (.packet p) := by
  have hne : p.rtp.seq ≠ n := ne_of_ahead_pos (by omega)
  have hfar' : tuning.rtpReorderBufferMaxFrames < (p.rtp.seq - n).toNat := hfar
  simp only [ReceiveSsrcState.pushMediaPacket, ReceiveSsrcState.place, hnext, if_neg hne,
    if_pos ((lt_half_iff _ _).mpr hahead), if_pos hfar', RtpFrameAssembler.clear]

lemma push_early (hnext : s.nextSeq = some n) (hne : p.rtp.seq ≠ n)
    (hahead : ahead n p.rtp.seq < 0x8000)
    (hnear : ahead n p.rtp.seq ≤ tuning.rtpReorderBufferMaxFrames) (now : ℕ) :
    (s.pushMediaPacket tuning p now).2 =
      (if tuning.rtpReorderBufferMaxFrames < (s.buffer n p now).pendingMedia.keys.length then
        ((s.buffer n p now).expireMissingHead tuning p.rtp.ssrc now true).2
      else s.buffer n p now).popReadyBufferedFrame := by
  have hnear' : ¬ tuning.rtpReorderBufferMaxFrames < (p.rtp.seq - n).toNat := not_lt.mpr hnear
  simp only [ReceiveSsrcState.pushMediaPacket, ReceiveSsrcState.place, hnext, if_neg hne,
    if_pos ((lt_half_iff _ _).mpr hahead), if_neg hnear', ReceiveSsrcState.popReadyBufferedFrame]
  split <;> rfl

/-! What is ready. -/

lemma pop_of_completed {frame : PendingMediaFrame ρ} {frames : List (PendingMediaFrame ρ)}
    (hcompleted : s.assembler.completed = frame :: frames) :
    s.popReadyBufferedFrame =
      (.ok (some frame), { s with assembler := { s.assembler with completed := frames } }) := by
  simp only [ReceiveSsrcState.popReadyBufferedFrame, ReceiveSsrcState.takeReady,
    RtpFrameAssembler.popCompleted, hcompleted, List.head?_cons, List.tail_cons,
    ReceiveSsrcState.finish]

lemma pop_of_lookup (hcompleted : s.assembler.completed = []) (hnext : s.nextSeq = some n)
    (hpending : s.pendingMedia.lookup n = some p) :
    s.popReadyBufferedFrame = ReceiveSsrcState.finish
      { s with
        pendingMedia := s.pendingMedia.erase n
        missing := s.missing.erase n
        nextSeq := some (n + 1) } (.packet p) := by
  simp only [ReceiveSsrcState.popReadyBufferedFrame, ReceiveSsrcState.takeReady,
    RtpFrameAssembler.popCompleted, hcompleted, List.head?_nil, hnext, hpending]

lemma pop_of_lookup_none (hcompleted : s.assembler.completed = []) (hnext : s.nextSeq = some n)
    (hpending : s.pendingMedia.lookup n = none) : s.popReadyBufferedFrame = (.ok none, s) := by
  simp only [ReceiveSsrcState.popReadyBufferedFrame, ReceiveSsrcState.takeReady,
    RtpFrameAssembler.popCompleted, hcompleted, List.head?_nil, hnext, hpending,
    ReceiveSsrcState.finish]

end Push

/-! ### The reorder buffer on a block -/

/-- All that the reorder buffer holds is of the block, and packet `i` is next. -/
structure Within (first : UInt16) (P : List (PendingMediaPacket ρ))
    (arrived : PendingMediaPacket ρ → Prop) (s : ReceiveSsrcState ρ) (i : ℕ) : Prop where
  next : s.nextSeq = some (number first i)
  le : i ≤ P.length
  pending : ∀ k p, s.pendingMedia.lookup k = some p →
    arrived p ∧ ∃ j, P[j]? = some p ∧ k = number first j
  missing : ∀ k ∈ s.missing, ∃ j < P.length, k = number first j

/-- `Φ` relates the assembler before packet `i` to the output so far, and is kept by all that can
happen to the assembler. -/
structure Follows (P : List (PendingMediaPacket ρ)) (arrived : PendingMediaPacket ρ → Prop)
    (Φ : ℕ → RtpFrameAssembler ρ → List (Output ρ) → Prop) : Prop where
  init : Φ 0 {} []
  feed : ∀ {i a outs p}, P[i]? = some p → arrived p → Φ i a outs →
    Φ (i + 1) (a.pushPacket p).2 (outs ++ produced (a.pushPacket p).1)
  clear : ∀ {i a outs}, Φ i a outs → Φ i {} outs
  skip : ∀ {i outs}, i < P.length → Φ i {} outs → Φ (i + 1) {} outs
  pop : ∀ {i a outs frame frames}, a.completed = frame :: frames → Φ i a outs →
    Φ i { a with completed := frames } (outs ++ [.ok frame])

variable {tuning : ConnectionRuntimeTuning} {arrived : PendingMediaPacket ρ → Prop}
  {Φ : ℕ → RtpFrameAssembler ρ → List (Output ρ) → Prop} {s : ReceiveSsrcState ρ}
  {outs : List (Output ρ)} {p : PendingMediaPacket ρ}

lemma Follows.jump (h : Follows P arrived Φ) {a : RtpFrameAssembler ρ} (hle : i ≤ j)
    (hj : j ≤ P.length) (hΦ : Φ i a outs) : Φ j {} outs := by
  induction j, hle using Nat.le_induction with
  | base => exact h.clear hΦ
  | succ j hle ih => exact h.skip (by omega) (ih (by omega))

/-- Before any packet, or with packet `i` next and `Φ` of the assembler. -/
inductive Tracks (first : UInt16) (P : List (PendingMediaPacket ρ))
    (arrived : PendingMediaPacket ρ → Prop)
    (Φ : ℕ → RtpFrameAssembler ρ → List (Output ρ) → Prop) (s : ReceiveSsrcState ρ)
    (outs : List (Output ρ)) : Prop
  | fresh (hs : s = {}) (houts : outs = [])
  | within {i : ℕ} (hs : Within first P arrived s i) (hΦ : Φ i s.assembler outs)

/-- A packet that is next goes to the assembler. -/
lemma tracks_finish_packet (h : Follows P arrived Φ) (hs : Within first P arrived s (i + 1))
    (hΦ : Φ i s.assembler outs) (hp : P[i]? = some p) (harrived : arrived p) :
    Tracks first P arrived Φ (s.finish (.packet p)).2
      (outs ++ produced (s.finish (.packet p)).1) :=
  .within (i := i + 1) ⟨hs.next, hs.le, hs.pending, hs.missing⟩ (h.feed hp harrived hΦ)

/-- Packet `i` leaves the reorder buffer. -/
lemma Within.advance (hs : Within first P arrived s i) (hp : P[i]? = some p) :
    Within first P arrived
      { s with
        pendingMedia := s.pendingMedia.erase (number first i)
        missing := s.missing.erase (number first i)
        nextSeq := some (number first i + 1) } (i + 1) where
  next := by rw [number_succ]
  le := (List.getElem?_eq_some_iff.mp hp).1
  pending k q hq := hs.pending k q (lookup_of_lookup_erase hq).2
  missing k hk := hs.missing k (AList.mem_erase.mp hk).2

lemma tracks_pop (h : Follows P arrived Φ) (hlen : P.length < 2 ^ 15)
    (hs : Within first P arrived s i) (hΦ : Φ i s.assembler outs) :
    Tracks first P arrived Φ s.popReadyBufferedFrame.2
      (outs ++ produced s.popReadyBufferedFrame.1) := by
  rcases hcompleted : s.assembler.completed with _ | ⟨frame, frames⟩
  · rcases hpending : s.pendingMedia.lookup (number first i) with _ | p
    · rw [pop_of_lookup_none hcompleted hs.next hpending, produced, List.append_nil]
      exact .within hs hΦ
    · obtain ⟨harrived, j, hj, hk⟩ := hs.pending _ _ hpending
      have hjlt := (List.getElem?_eq_some_iff.mp hj).1
      have hle := hs.le
      obtain rfl := number_inj (by omega) (by omega) hk
      rw [pop_of_lookup hcompleted hs.next hpending]
      exact tracks_finish_packet h (hs.advance hj) hΦ hj harrived
  · rw [pop_of_completed hcompleted]
    exact .within ⟨hs.next, hs.le, hs.pending, hs.missing⟩ (h.pop hcompleted hΦ)

lemma expireLoop_within (hlen : P.length < 2 ^ 15) (now : ℕ) (force : Bool) (e : Expiry)
    (hseq : e.seq = number first i) (hle : i ≤ P.length)
    (hmissing : ∀ k ∈ e.missing, ∃ j < P.length, k = number first j) :
    ∃ i', i ≤ i' ∧ i' ≤ P.length ∧ (expireLoop tuning now force e).seq = number first i' ∧
      ∀ k ∈ (expireLoop tuning now force e).missing, ∃ j < P.length, k = number first j := by
  fun_induction expireLoop tuning now force e generalizing i with
  | case1 e => exact ⟨i, le_rfl, hle, hseq, hmissing⟩
  | case2 e mark hmark _ ih =>
    obtain ⟨j, hj, heq⟩ := hmissing e.seq (mem_iff_lookup.mpr ⟨mark, hmark⟩)
    rw [hseq] at heq
    obtain rfl := number_inj (by omega) (by omega) heq
    have hpass : (e.pass mark).seq = number first (i + 1) := by
      rw [Expiry.pass, hseq, number_succ]
    obtain ⟨i', hi', hrest⟩ := ih hpass hj fun k hk => hmissing k (AList.mem_erase.mp hk).2
    exact ⟨i', by omega, hrest⟩
  | case3 e => exact ⟨i, le_rfl, hle, hseq, hmissing⟩

/-- Packets that are given up are left out, and the assembler is cleared. -/
lemma within_expire (h : Follows P arrived Φ) (hlen : P.length < 2 ^ 15) (ssrc : UInt32) (now : ℕ)
    (force : Bool) (hs : Within first P arrived s i) (hΦ : Φ i s.assembler outs) :
    ∃ i', Within first P arrived (s.expireMissingHead tuning ssrc now force).2 i' ∧
      Φ i' (s.expireMissingHead tuning ssrc now force).2.assembler outs := by
  rcases expireMissingHead_cases tuning s ssrc now force with
    hsame | ⟨n, mark, hnext, hmark, hoverdue, heq⟩
  · rw [hsame]
    exact ⟨i, hs, hΦ⟩
  · obtain rfl : n = number first i := Option.some.inj (hnext.symm.trans hs.next)
    obtain ⟨i', hi', hle, hseq, hmissing⟩ := expireLoop_within hlen now force
      ⟨number first i, number first i, mark.userId, 0, s.missing⟩ rfl hs.le hs.missing
    rw [heq]
    exact ⟨i', ⟨congrArg some hseq, hle, hs.pending, hmissing⟩, h.jump hi' hle hΦ⟩

/-- A packet that comes early waits, and the numbers before it are those of the block. -/
lemma Within.buffer (hs : Within first P arrived s i) (now : ℕ) (hlen : P.length < 2 ^ 15)
    (hp : P[j]? = some p) (hseq : p.rtp.seq = number first j) (harrived : arrived p) (hlt : i < j) :
    Within first P arrived (s.buffer (number first i) p now) i where
  next := hs.next
  le := hs.le
  pending k q hq := by
    rw [ReceiveSsrcState.buffer, lookup_orInsert] at hq
    split at hq
    next hk =>
      cases hq
      exact ⟨harrived, j, hp, hk.1.trans hseq⟩
    next => exact hs.pending k q hq
  missing k hk := by
    have hj := (List.getElem?_eq_some_iff.mp hp).1
    obtain ⟨mark, hmark⟩ := mem_iff_lookup.mp hk
    rw [ReceiveSsrcState.buffer, lookup_markMissing] at hmark
    split at hmark
    next hnew =>
      have hahead : (p.rtp.seq - number first i).toNat = j - i := by
        rw [hseq]
        exact (ahead_number first (by omega) (by omega)).trans (if_pos hlt.le)
      rw [hahead] at hnew
      have hoffset : ahead (number first i) k < 65536 := ahead_lt _ _
      refine ⟨i + ahead (number first i) k, by omega, ?_⟩
      rw [number, UInt16.ofNat_add, ← UInt16.add_assoc]
      exact (eq_add_ofNat_iff hoffset).mpr rfl
    next => exact hs.missing k (mem_iff_lookup.mpr ⟨mark, hmark⟩)

/-- The buffer starts again, empty, behind packet `j`. -/
lemma within_restart (hnum : Numbered first P) {j : ℕ} (hj : P[j]? = some p) :
    Within first P arrived { nextSeq := some (p.rtp.seq + 1) } (j + 1) where
  next := by rw [hnum j p hj, number_succ]
  le := (List.getElem?_eq_some_iff.mp hj).1
  pending k q hq := by simp at hq
  missing k hk := by simp at hk

lemma tracks_push (h : Follows P arrived Φ) (hlen : P.length < 2 ^ 15) (hnum : Numbered first P)
    (hp : p ∈ P) (harrived : arrived p) (now : ℕ) (hT : Tracks first P arrived Φ s outs) :
    Tracks first P arrived Φ (s.pushMediaPacket tuning p now).2.2
      (outs ++ produced (s.pushMediaPacket tuning p now).2.1) := by
  obtain ⟨j, hj⟩ := List.getElem?_of_mem hp
  have hseq := hnum j p hj
  have hjlt := (List.getElem?_eq_some_iff.mp hj).1
  cases hT with
  | fresh hs houts =>
    subst hs houts
    rw [push_first rfl]
    exact tracks_finish_packet h (within_restart hnum hj)
      (h.jump (Nat.zero_le j) hjlt.le h.init) hj harrived
  | @within i hs hΦ =>
    have hle := hs.le
    have hahead := ahead_number first (show i < 65536 by omega)
      (show j < 65536 by omega)
    rw [← hseq] at hahead
    rcases lt_trichotomy j i with hlt | rfl | hlt
    · -- the packet is behind
      rw [if_neg (by omega)] at hahead
      rw [push_late hs.next (by omega), produced, List.append_nil]
      exact .within hs hΦ
    · rw [push_next hs.next hseq]
      exact tracks_finish_packet h (hs.advance hj) hΦ hj harrived
    · rw [if_pos hlt.le] at hahead
      by_cases hfar : tuning.rtpReorderBufferMaxFrames < ahead (number first i) p.rtp.seq
      · -- the packet is too far ahead, and all that waits is dropped
        rw [push_far hs.next (by omega) hfar]
        exact tracks_finish_packet h (within_restart hnum hj) (h.jump hlt.le hjlt.le hΦ) hj
          harrived
      · have hne : p.rtp.seq ≠ number first i := ne_of_ahead_pos (by omega)
        have hbuffer := hs.buffer now hlen hj hseq harrived hlt
        rw [push_early hs.next hne (by omega) (not_lt.mp hfar)]
        split
        · obtain ⟨i', hwithin, hΦ'⟩ := within_expire h hlen p.rtp.ssrc now true hbuffer hΦ
          exact tracks_pop h hlen hwithin hΦ'
        · exact tracks_pop h hlen hbuffer hΦ

/-- **Blocks.** What is kept by feeding the assembler the packets in order, by clearing it and by
taking frames from it, is kept by every call. -/
theorem keeps_tracks (h : Follows P arrived Φ) (hlen : P.length < 2 ^ 15)
    (hnum : Numbered first P) (ssrc : UInt32) :
    Keeps tuning ssrc (fun p => p ∈ P ∧ arrived p) (fun _ => True)
      (Tracks first P arrived Φ) where
  push hp _ hT := tracks_push h hlen hnum hp.1 hp.2 _ hT
  pop hT := by
    cases hT with
    | fresh hs houts =>
      subst hs houts
      exact .fresh rfl rfl
    | within hs hΦ => exact tracks_pop h hlen hs hΦ
  expire {s outs now} _ hT := by
    cases hT with
    | fresh hs houts =>
      subst hs houts
      exact .fresh rfl rfl
    | within hs hΦ =>
      obtain ⟨i', hwithin, hΦ'⟩ := within_expire h hlen ssrc now false hs hΦ
      exact .within hwithin hΦ'

/-- What the outputs of a run are, by what `Φ` says of them. -/
theorem Follows.delivers (h : Follows P arrived Φ) (hlen : P.length < 2 ^ 15)
    (hnum : Numbered first P) {ssrc : UInt32} (hssrc : ∀ p ∈ P, p.rtp.ssrc = ssrc) {t : ℕ}
    {ps : List (PendingMediaPacket ρ)} (hps : ∀ p ∈ ps, p ∈ P ∧ arrived p) {xs : List (Output ρ)}
    {order : HashOrder UInt32} (hrun : Delivers tuning t (.new order) ps xs) :
    ∃ i a, Φ i a xs := by
  have hholds : Holds ssrc (Tracks first P arrived Φ) (.new order) [] :=
    holds_new order (.fresh rfl rfl)
  obtain ⟨s, hs⟩ := hholds.delivers (keeps_tracks h hlen hnum ssrc)
    (fun _ => trivial) (fun p hp => ⟨hps p hp, hssrc p (hps p hp).1⟩) hrun
  rw [List.nil_append] at hs
  cases hs with
  | fresh _ houts => exact ⟨0, {}, houts ▸ h.init⟩
  | within _ hΦ => exact ⟨_, _, hΦ⟩

end Cacophony.Streams
