import Cacophony.Reorder

/-!
The window of a reorder buffer.

Seen from `next_seq`, the marks are a stretch of sequence numbers without a gap, and they were
made in that order. A packet that waits is in that stretch or right behind it, and so it can be
marked although it is there; a run of expired marks can take `next_seq` past it.
-/

namespace Cacophony.Reorder

open Assembler

/-! ### Sequence numbers -/

/-- How far `k` is ahead of `n`. -/
def ahead (n k : UInt16) : ℕ := (k - n).toNat

variable {n k : UInt16} {c : ℕ}

lemma ahead_eq (n k : UInt16) : ahead n k = (65536 - n.toNat + k.toNat) % 65536 :=
  UInt16.toNat_sub k n

lemma ahead_lt (n k : UInt16) : ahead n k < 65536 := (k - n).toNat_lt

@[simp] lemma ahead_self (n : UInt16) : ahead n n = 0 := by
  rw [ahead, UInt16.sub_self]
  rfl

lemma ahead_eq_zero : ahead n k = 0 ↔ k = n := by
  constructor
  · intro h
    rw [ahead_eq] at h
    have := n.toNat_lt
    have := k.toNat_lt
    exact UInt16.toNat_inj.mp (by omega)
  · rintro rfl
    exact ahead_self k

lemma ahead_ne_zero (h : k ≠ n) : ahead n k ≠ 0 := mt ahead_eq_zero.mp h

lemma ahead_ofNat (h : c < 65536) : ahead n (n + UInt16.ofNat c) = c := by
  have := n.toNat_lt
  rw [ahead_eq, UInt16.toNat_add, UInt16.toNat_ofNat']
  omega

lemma ahead_add (h : c ≤ ahead n k) : ahead (n + UInt16.ofNat c) k = ahead n k - c := by
  have := ahead_lt n k
  have := n.toNat_lt
  have := k.toNat_lt
  rw [ahead_eq] at *
  rw [ahead_eq, UInt16.toNat_add, UInt16.toNat_ofNat']
  omega

lemma ahead_add_of_lt (h : ahead n k < c) (hc : c ≤ 65536) :
    ahead (n + UInt16.ofNat c) k = ahead n k + 65536 - c := by
  have := n.toNat_lt
  have := k.toNat_lt
  rw [ahead_eq] at h
  rw [ahead_eq, ahead_eq, UInt16.toNat_add, UInt16.toNat_ofNat']
  omega

lemma ahead_succ (h : k ≠ n) : ahead (n + 1) k = ahead n k - 1 :=
  ahead_add (Nat.one_le_iff_ne_zero.mpr (ahead_ne_zero h))

lemma ahead_succ_self (n : UInt16) : ahead (n + 1) n = 65535 := by
  have h := ahead_add_of_lt (n := n) (k := n) (c := 1) (by simp) (by decide)
  rwa [ahead_self] at h

lemma add_ofNat_zero (n : UInt16) : n + UInt16.ofNat 0 = n := UInt16.add_zero n

lemma add_ofNat_succ (n : UInt16) (c : ℕ) : n + UInt16.ofNat (c + 1) = n + 1 + UInt16.ofNat c := by
  rw [UInt16.add_assoc, Nat.add_comm, UInt16.ofNat_add]
  rfl

/-! ### Maps -/

variable {α : Type} {m : SeqMap α} {x y : α}

lemma lookup_orInsert (key : UInt16) (value : α) (m : SeqMap α) :
    (orInsert key value m).lookup k = if k = key ∧ key ∉ m then some value else m.lookup k := by
  unfold orInsert
  by_cases hmem : key ∈ m
  · simp [hmem]
  · by_cases hk : k = key
    · subst hk
      simp [hmem]
    · simp [hmem, hk]

lemma lookup_of_lookup_erase (h : (m.erase n).lookup k = some x) :
    k ≠ n ∧ m.lookup k = some x := by
  have hk : k ≠ n := by
    rintro rfl
    rw [AList.lookup_erase] at h
    cases h
  exact ⟨hk, by rwa [AList.lookup_erase_ne hk] at h⟩

lemma mem_iff_lookup : k ∈ m ↔ ∃ x, m.lookup k = some x := by
  rw [← AList.lookup_isSome, Option.isSome_iff_exists]

lemma eq_add_ofNat_iff (h : c < 65536) : k = n + UInt16.ofNat c ↔ ahead n k = c := by
  constructor
  · rintro rfl
    exact ahead_ofNat h
  · rintro rfl
    rw [ahead, UInt16.ofNat_toNat, UInt16.add_comm, UInt16.sub_add_cancel]

/-- The marks of a stretch; those that are there stay as they are. -/
lemma lookup_markMissing (expected forward : UInt16) (userId : Option UInt64) (detectedAt : ℕ)
    (missing : SeqMap MissingRtpPacket) :
    (ReceiveSsrcState.markMissing expected forward userId detectedAt missing).lookup k =
      if ahead expected k < forward.toNat ∧ k ∉ missing then some ⟨userId, detectedAt⟩
      else missing.lookup k := by
  have hlt := forward.toNat_lt
  unfold ReceiveSsrcState.markMissing
  generalize forward.toNat = f at hlt
  induction f generalizing k with
  | zero => simp
  | succ f ih =>
    rw [List.range_succ, List.foldl_append, List.foldl_cons, List.foldl_nil, lookup_orInsert]
    by_cases hk : ahead expected k = f
    · -- the number marked in this round
      rw [← (eq_add_ofNat_iff (by omega)).mpr hk]
      have hsame := ih (k := k) (by omega)
      rw [if_neg (by omega)] at hsame
      by_cases hmem : k ∈ missing
      · have hmem' := AList.lookup_isSome.mp (hsame ▸ AList.lookup_isSome.mpr hmem)
        rw [if_neg fun h => h.2 hmem', if_neg fun h => h.2 hmem, hsame]
      · rw [AList.lookup_eq_none.mpr hmem] at hsame
        rw [if_pos ⟨rfl, AList.lookup_eq_none.mp hsame⟩, if_pos ⟨by omega, hmem⟩]
    · have hround : ahead expected k < f ↔ ahead expected k < f + 1 := by omega
      rw [if_neg fun h => hk ((eq_add_ofNat_iff (by omega)).mp h.1), ih (by omega)]
      simp only [hround]

/-! ### The window -/

variable {ρ : Type} {tuning : ConnectionRuntimeTuning} {now L : ℕ}
  {missing missing' : SeqMap MissingRtpPacket} {pending : SeqMap (PendingMediaPacket ρ)}

/-- How far ahead of `next_seq` a packet may be to wait. -/
def ConnectionRuntimeTuning.limit (tuning : ConnectionRuntimeTuning) : ℕ :=
  min tuning.rtpReorderBufferMaxFrames 0x7fff

/-- The numbers from `n` on up to `n + L` are marked, and packets wait there. -/
structure Window (tuning : ConnectionRuntimeTuning) (now : ℕ) (n : UInt16) (L : ℕ)
    (missing : SeqMap MissingRtpPacket) (pending : SeqMap (PendingMediaPacket ρ)) : Prop where
  le : L ≤ tuning.limit
  marked : ∀ k, k ∈ missing ↔ ahead n k < L
  sorted : ∀ i j x y, missing.lookup i = some x → missing.lookup j = some y →
    ahead n i ≤ ahead n j → x.detectedAt ≤ y.detectedAt
  past : ∀ k x, missing.lookup k = some x → x.detectedAt ≤ now
  seqs : ∀ k p, pending.lookup k = some p → p.rtp.seq = k
  near : ∀ k ∈ pending, ahead n k ≤ L

namespace Window

lemma empty (tuning : ConnectionRuntimeTuning) (now : ℕ) (n : UInt16) :
    Window tuning now n 0 ∅ (∅ : SeqMap (PendingMediaPacket ρ)) where
  le := Nat.zero_le _
  marked k := by simp
  sorted i j x y hx := by simp at hx
  past k x hx := by simp at hx
  seqs k p hp := by simp at hp
  near k hk := by simp at hk

lemma mono (w : Window tuning now n L missing pending) {now' : ℕ} (h : now ≤ now') :
    Window tuning now' n L missing pending :=
  { w with past := fun k x hx => (w.past k x hx).trans h }

lemma lt (w : Window tuning now n L missing pending) : L < 65536 :=
  (w.le.trans (Nat.min_le_right _ _)).trans_lt (by decide)

/-- The window moves on over numbers for which no packet waits. -/
lemma pass (w : Window tuning now n L missing pending) (hc : c < 65536)
    (hmissing : ∀ k, missing'.lookup k = if ahead n k < c then none else missing.lookup k)
    (hpending : ∀ k ∈ pending, c ≤ ahead n k) :
    Window tuning now (n + UInt16.ofNat c) (L - c) missing' pending := by
  -- the marks that are left are old ones, and further on than `c`
  have hold {k x} (h : missing'.lookup k = some x) : c ≤ ahead n k ∧ missing.lookup k = some x := by
    rw [hmissing] at h
    split at h
    · cases h
    · exact ⟨not_lt.mp ‹_›, h⟩
  refine ⟨(Nat.sub_le _ _).trans w.le, fun k => ?_, fun i j x y hx hy hij => ?_,
    fun k x hx => w.past k x (hold hx).2, w.seqs, fun k hk => ?_⟩
  · have hL := w.lt
    rw [← AList.lookup_isSome, hmissing]
    by_cases hk : ahead n k < c
    · rw [if_pos hk, ahead_add_of_lt hk (by omega)]
      exact iff_of_false Bool.false_ne_true (by omega)
    · rw [if_neg hk, AList.lookup_isSome, w.marked, ahead_add (not_lt.mp hk)]
      omega
  · obtain ⟨hi, hx⟩ := hold hx
    obtain ⟨hj, hy⟩ := hold hy
    rw [ahead_add hi, ahead_add hj] at hij
    exact w.sorted i j x y hx hy (by omega)
  · rw [ahead_add (hpending k hk)]
    exact Nat.sub_le_sub_right (w.near k hk) c

/-- The packet that comes next is taken out, if it waits, and the window moves on by one. -/
lemma advance (w : Window tuning now n L missing pending) :
    Window tuning now (n + 1) (L - 1) (missing.erase n) (pending.erase n) := by
  have hpending : Window tuning now n L missing (pending.erase n) :=
    { w with
      seqs := fun k p hp => w.seqs k p (lookup_of_lookup_erase hp).2
      near := fun k hk => w.near k (AList.mem_erase.mp hk).2 }
  have hne (k) (hk : k ∈ pending.erase n) : 1 ≤ ahead n k :=
    Nat.one_le_iff_ne_zero.mpr (ahead_ne_zero (AList.mem_erase.mp hk).1)
  refine hpending.pass (c := 1) (by decide) (fun k => ?_) hne
  by_cases hk : k = n
  · rw [hk, AList.lookup_erase, ahead_self, if_pos Nat.zero_lt_one]
  · have hpos := ahead_ne_zero hk
    rw [AList.lookup_erase_ne hk, if_neg (by omega)]

/-- A packet that is ahead of `next_seq` waits. -/
lemma buffer {s : ReceiveSsrcState ρ} (w : Window tuning now n L s.missing s.pendingMedia)
    {packet : PendingMediaPacket ρ} (hle : ahead n packet.rtp.seq ≤ tuning.limit) :
    Window tuning now n (max L (ahead n packet.rtp.seq)) (s.buffer n packet now).missing
      (s.buffer n packet now).pendingMedia := by
  -- a mark is an old one, or it is made now for a number that had none
  have hmark {k x} (h : (s.buffer n packet now).missing.lookup k = some x) :
      s.missing.lookup k = some x ∨ x.detectedAt = now ∧ k ∉ s.missing := by
    rw [ReceiveSsrcState.buffer, lookup_markMissing] at h
    split at h
    next hnew => exact .inr ⟨by rw [← Option.some.inj h], hnew.2⟩
    next => exact .inl h
  refine ⟨max_le w.le hle, fun k => ?_, fun i j x y hx hy hij => ?_, fun k x hx => ?_,
    fun k p hp => ?_, fun k hk => ?_⟩
  · rw [← AList.lookup_isSome, ReceiveSsrcState.buffer, lookup_markMissing, lt_max_iff, ← w.marked]
    split
    next hnew => exact iff_of_true rfl (.inr hnew.1)
    next hold =>
      rw [AList.lookup_isSome]
      refine ⟨.inl, Or.rec id fun hlt => ?_⟩
      by_contra hmem
      exact hold ⟨hlt, hmem⟩
  · rcases hmark hy with hy | ⟨hy, -⟩
    · rcases hmark hx with hx | ⟨-, hnew⟩
      · exact w.sorted i j x y hx hy hij
      · have hj : ahead n j < L := (w.marked j).mp (mem_iff_lookup.mpr ⟨y, hy⟩)
        exact absurd ((w.marked i).mpr (hij.trans_lt hj)) hnew
    · rw [hy]
      rcases hmark hx with hx | ⟨hx, -⟩
      · exact w.past i x hx
      · exact hx.le
  · rcases hmark hx with hx | ⟨hx, -⟩
    · exact w.past k x hx
    · exact hx.le
  · rw [ReceiveSsrcState.buffer, lookup_orInsert] at hp
    split at hp
    next hnew => rw [← Option.some.inj hp, hnew.1]
    next => exact w.seqs k p hp
  · rw [← AList.lookup_isSome, ReceiveSsrcState.buffer, lookup_orInsert] at hk
    split at hk
    next hnew => exact hnew.1 ▸ le_max_right _ _
    next => exact (w.near k (AList.lookup_isSome.mp hk)).trans (le_max_left _ _)

end Window

/-! ### Expired marks -/

variable {force : Bool} {x : MissingRtpPacket}

/-- The loop passes the first `c` marks, all of them overdue; the next is not. -/
structure Passes (tuning : ConnectionRuntimeTuning) (now : ℕ) (force : Bool) (n : UInt16)
    (missing missing' : SeqMap MissingRtpPacket) (c : ℕ) : Prop where
  marks : ∀ k, missing'.lookup k = if ahead n k < c then none else missing.lookup k
  overdue : ∀ k x, ahead n k < c → missing.lookup k = some x → Overdue tuning now force x
  stops : ∀ x, missing.lookup (n + UInt16.ofNat c) = some x → ¬ Overdue tuning now force x

lemma Passes.zero (h : ∀ x, missing.lookup n = some x → ¬ Overdue tuning now force x) :
    Passes tuning now force n missing missing 0 where
  marks k := by simp
  overdue k x hk := absurd hk (Nat.not_lt_zero _)
  stops x hx := h x (by rwa [add_ofNat_zero] at hx)

lemma Passes.succ (hx : missing.lookup n = some x) (hoverdue : Overdue tuning now force x)
    (hc : c < 65535) (h : Passes tuning now force (n + 1) (missing.erase n) missing' c) :
    Passes tuning now force n missing missing' (c + 1) := by
  have hne : n + UInt16.ofNat (c + 1) ≠ n := by
    intro heq
    have := ahead_ofNat (n := n) (show c + 1 < 65536 by omega)
    rw [heq, ahead_self] at this
    omega
  refine ⟨fun k => ?_, fun k y hk hy => ?_, fun y hy => ?_⟩
  · rw [h.marks]
    by_cases hk : k = n
    · subst hk
      simp [ahead_succ_self]
    · have := ahead_succ hk
      have := ahead_ne_zero hk
      rw [AList.lookup_erase_ne hk]
      congr 1
      simp only [eq_iff_iff]
      omega
  · by_cases hkn : k = n
    · subst hkn
      exact Option.some.inj (hx.symm.trans hy) ▸ hoverdue
    · have := ahead_succ hkn
      have := ahead_ne_zero hkn
      exact h.overdue k y (by omega) (by rwa [AList.lookup_erase_ne hkn])
  · exact h.stops y (by rwa [← add_ofNat_succ, AList.lookup_erase_ne hne])

/-- The loop of `expire_missing_head` on marks without a gap. -/
lemma expireLoop_passes (e : Expiry) (hL : L < 65536)
    (hmarked : ∀ k, k ∈ e.missing ↔ ahead e.seq k < L) :
    ∃ c ≤ L, (expireLoop tuning now force e).seq = e.seq + UInt16.ofNat c ∧
      Passes tuning now force e.seq e.missing (expireLoop tuning now force e).missing c := by
  fun_induction expireLoop tuning now force e generalizing L with
  | case1 e hnone =>
    refine ⟨0, Nat.zero_le _, by simp, .zero fun x hx => ?_⟩
    rw [hnone] at hx
    cases hx
  | case2 e x hx hoverdue ih =>
    have hpos : 0 < L := by
      have := (hmarked e.seq).mp (mem_iff_lookup.mpr ⟨x, hx⟩)
      omega
    have hmarked' (k) : k ∈ e.missing.erase e.seq ↔ ahead (e.seq + 1) k < L - 1 := by
      rw [AList.mem_erase, hmarked]
      by_cases hk : k = e.seq
      · simp [hk, ahead_succ_self]
        omega
      · have := ahead_succ hk
        have := ahead_ne_zero hk
        rw [and_iff_right hk]
        omega
    obtain ⟨c, hc, hseq, hpasses⟩ := ih (by omega) hmarked'
    exact ⟨c + 1, by omega, hseq.trans (add_ofNat_succ e.seq c).symm,
      hpasses.succ hx hoverdue (by omega)⟩
  | case3 e x hx hnot =>
    exact ⟨0, Nat.zero_le _, by simp, .zero fun y hy => Option.some.inj (hx.symm.trans hy) ▸ hnot⟩

lemma expireLoop_missingPackets_ne_zero (e : Expiry) (h : e.missingPackets ≠ 0) :
    (expireLoop tuning now force e).missingPackets ≠ 0 := by
  fun_induction expireLoop tuning now force e with
  | case1 e => exact h
  | case2 e x hx hoverdue ih =>
    apply ih
    unfold Expiry.pass
    dsimp only
    split
    · decide
    next hne =>
      intro hzero
      have hlt := e.missingPackets.toNat_lt
      have hmod := congrArg UInt16.toNat hzero
      rw [UInt16.toNat_add] at hmod
      refine hne (UInt16.toNat_inj.mp ?_)
      change (e.missingPackets.toNat + 1) % 65536 = 0 at hmod
      change e.missingPackets.toNat = 65535
      omega
  | case3 e => exact h

variable {s : ReceiveSsrcState ρ}

lemma expireMissingHead_of_not_overdue (ssrc : UInt32) (hnext : s.nextSeq = some n)
    (h : ∀ x, s.missing.lookup n = some x → ¬ Overdue tuning now force x) :
    s.expireMissingHead tuning ssrc now force = (none, s) := by
  unfold ReceiveSsrcState.expireMissingHead
  rw [hnext]
  dsimp only
  split
  · rfl
  next x hx => rw [if_neg (h x hx)]

lemma expireMissingHead_of_overdue (ssrc : UInt32) (hnext : s.nextSeq = some n)
    (hx : s.missing.lookup n = some x) (hoverdue : Overdue tuning now force x) :
    (s.expireMissingHead tuning ssrc now force).2 =
      { s with
        missing := (expireLoop tuning now force ⟨n, n, x.userId, 0, s.missing⟩).missing
        nextSeq := some (expireLoop tuning now force ⟨n, n, x.userId, 0, s.missing⟩).seq
        assembler := s.assembler.clear } := by
  -- the first mark is passed, so the count is not zero
  have hcount :
      (expireLoop tuning now force ⟨n, n, x.userId, 0, s.missing⟩).missingPackets ≠ 0 := by
    rw [expireLoop]
    split
    next hnone =>
      rw [hx] at hnone
      cases hnone
    next y hy =>
      obtain rfl := Option.some.inj (hx.symm.trans hy)
      rw [if_pos hoverdue]
      exact expireLoop_missingPackets_ne_zero _ (by simp [Expiry.pass])
  unfold ReceiveSsrcState.expireMissingHead
  simp only [hnext, hx, if_pos hoverdue, if_neg hcount]

/-- `expire_missing_head` moves `next_seq` past the marks that are overdue. -/
lemma expireMissingHead_passes (ssrc : UInt32) (hnext : s.nextSeq = some n)
    (w : Window tuning now n L s.missing s.pendingMedia) (force : Bool) :
    ∃ c ≤ L, (s.expireMissingHead tuning ssrc now force).2.nextSeq = some (n + UInt16.ofNat c) ∧
      (s.expireMissingHead tuning ssrc now force).2.pendingMedia = s.pendingMedia ∧
      Passes tuning now force n s.missing
        (s.expireMissingHead tuning ssrc now force).2.missing c := by
  by_cases hhead : ∃ x, s.missing.lookup n = some x ∧ Overdue tuning now force x
  · obtain ⟨x, hx, hoverdue⟩ := hhead
    rw [expireMissingHead_of_overdue ssrc hnext hx hoverdue]
    obtain ⟨c, hc, hseq, hpasses⟩ :=
      expireLoop_passes ⟨n, n, x.userId, 0, s.missing⟩ w.lt w.marked
    exact ⟨c, hc, congrArg some hseq, rfl, hpasses⟩
  · have hnot (x) (hx : s.missing.lookup n = some x) : ¬ Overdue tuning now force x :=
      fun hoverdue => hhead ⟨x, hx, hoverdue⟩
    rw [expireMissingHead_of_not_overdue ssrc hnext hnot]
    exact ⟨0, Nat.zero_le _, by rw [add_ofNat_zero, hnext], rfl, .zero hnot⟩

/-- From `s` to `s'`, `next_seq` has moved past a packet that waits. -/
def Skips (s s' : ReceiveSsrcState ρ) : Prop :=
  ∃ n n' k, s.nextSeq = some n ∧ s'.nextSeq = some n' ∧ k ∈ s.pendingMedia ∧
    ahead n k < ahead n n'

/-- **Skipped packets.** A packet is skipped exactly when one that waits has a mark that is
overdue. -/
theorem skips_iff (ssrc : UInt32) (hnext : s.nextSeq = some n)
    (w : Window tuning now n L s.missing s.pendingMedia) (force : Bool) :
    Skips s (s.expireMissingHead tuning ssrc now force).2 ↔
      ∃ k x, k ∈ s.pendingMedia ∧ s.missing.lookup k = some x ∧ Overdue tuning now force x := by
  obtain ⟨c, hc, hnext', -, hpasses⟩ := expireMissingHead_passes ssrc hnext w force
  have hL := w.lt
  have hc' : ahead n (n + UInt16.ofNat c) = c := ahead_ofNat (by omega)
  constructor
  · rintro ⟨m, m', k, hm, hm', hk, hlt⟩
    obtain rfl := Option.some.inj (hnext.symm.trans hm)
    obtain rfl := Option.some.inj (hnext'.symm.trans hm')
    rw [hc'] at hlt
    obtain ⟨x, hx⟩ := mem_iff_lookup.mp ((w.marked k).mpr (by omega))
    exact ⟨k, x, hk, hx, hpasses.overdue k x hlt hx⟩
  · rintro ⟨k, x, hk, hx, hoverdue⟩
    refine ⟨n, _, k, hnext, hnext', hk, ?_⟩
    rw [hc']
    by_contra hle
    -- the mark at which the loop stops was made before the one of `k`
    have hkL := (w.marked k).mp (mem_iff_lookup.mpr ⟨x, hx⟩)
    obtain ⟨y, hy⟩ := mem_iff_lookup.mp ((w.marked (n + UInt16.ofNat c)).mpr (by omega))
    have hsorted := w.sorted _ k y x hy hx (by omega)
    refine hpasses.stops y hy (hoverdue.imp_right fun hx => ?_)
    omega

/-- When none is skipped, the window moves on. -/
lemma Window.expire (ssrc : UInt32) (hnext : s.nextSeq = some n)
    (w : Window tuning now n L s.missing s.pendingMedia) {force : Bool}
    (h : ¬ Skips s (s.expireMissingHead tuning ssrc now force).2) :
    ∃ n' L', (s.expireMissingHead tuning ssrc now force).2.nextSeq = some n' ∧
      Window tuning now n' L' (s.expireMissingHead tuning ssrc now force).2.missing
        (s.expireMissingHead tuning ssrc now force).2.pendingMedia := by
  obtain ⟨c, hc, hnext', hpending, hpasses⟩ := expireMissingHead_passes ssrc hnext w force
  have hL := w.lt
  refine ⟨_, L - c, hnext', ?_⟩
  rw [hpending]
  refine w.pass (by omega) hpasses.marks fun k hk => ?_
  by_contra hlt
  refine h ⟨n, _, k, hnext, hnext', hk, ?_⟩
  rw [ahead_ofNat (by omega)]
  omega

end Cacophony.Reorder
