import Cacophony.ReorderWindow
import Cacophony.Runs

/-!
Runs of a reorder buffer: calls at any times, in any order.

A packet that waits is skipped when its own number is marked as missing and the mark expires with
those before it. Marks are made for a whole gap, whether a packet of it waits or not, so this
happens; in a run in which it does not, every packet is handed on to the assembler or waits for
its turn, unless it came late, came twice or was dropped by a jump.
-/

namespace Cacophony.Reorder

open Runs Assembler

variable {ρ : Type} (tuning : ConnectionRuntimeTuning)

inductive Op (ρ : Type)
  | push (packet : PendingMediaPacket ρ)
  | pop
  | expire (ssrc : UInt32) (force : Bool)

/-- A call, some time after the one before. -/
structure Call (ρ : Type) where
  delay : ℕ
  op : Op ρ

/-- A buffer, and the time of the last call. -/
structure Clocked (ρ : Type) where
  now : ℕ := 0
  state : ReceiveSsrcState ρ := {}

/-- A call up to the assembler. -/
def place (s : ReceiveSsrcState ρ) (now : ℕ) : Op ρ → Outlet ρ × ReceiveSsrcState ρ
  | .push packet => (s.place tuning packet now).2
  | .pop => s.takeReady
  | .expire ssrc force => (.frame none, (s.expireMissingHead tuning ssrc now force).2)

def apply (s : ReceiveSsrcState ρ) (now : ℕ) : Op ρ → ReceiveSsrcState ρ
  | .push packet => (s.pushMediaPacket tuning packet now).2.2
  | .pop => s.popReadyBufferedFrame.2
  | .expire ssrc force => (s.expireMissingHead tuning ssrc now force).2

def step (b : Clocked ρ) (c : Call ρ) : Clocked ρ :=
  ⟨b.now + c.delay, apply tuning b.state (b.now + c.delay) c.op⟩

/-! ### What a run should keep -/

/-- The packet waits, and is one too many. -/
def Overfills (s : ReceiveSsrcState ρ) (now : ℕ) (packet : PendingMediaPacket ρ)
    (expected : UInt16) : Prop :=
  packet.rtp.seq ≠ expected ∧ ahead expected packet.rtp.seq ≤ tuning.limit ∧
    tuning.rtpReorderBufferMaxFrames < (s.buffer expected packet now).pendingMedia.keys.length

/-- The call runs `expire_missing_head` in the state `t`. -/
inductive Expires (s : ReceiveSsrcState ρ) (now : ℕ) :
    Op ρ → ReceiveSsrcState ρ → UInt32 → Bool → Prop
  | push {packet : PendingMediaPacket ρ} {expected : UInt16} (hnext : s.nextSeq = some expected)
      (h : Overfills tuning s now packet expected) :
      Expires s now (.push packet) (s.buffer expected packet now) packet.rtp.ssrc true
  | expire (ssrc : UInt32) (force : Bool) : Expires s now (.expire ssrc force) s ssrc force

/-- The packets that wait are at most as far ahead as the buffer is long. -/
def Near (s : ReceiveSsrcState ρ) : Prop :=
  ∀ n k, s.nextSeq = some n → k ∈ s.pendingMedia → ahead n k ≤ tuning.rtpReorderBufferMaxFrames

/-- A call that expires marks does not skip a packet, and those that wait are near. -/
def KeepsStep (b : Clocked ρ) (c : Call ρ) : Prop :=
  Near tuning (step tuning b c).state ∧
    ∀ t ssrc force, Expires tuning b.state (b.now + c.delay) c.op t ssrc force →
      ¬ Skips t (t.expireMissingHead tuning ssrc (b.now + c.delay) force).2

/-- Why a packet is not handed on. -/
inductive Lost (s : ReceiveSsrcState ρ) : Op ρ → PendingMediaPacket ρ → Prop
  | late {n : UInt16} {p : PendingMediaPacket ρ} (hnext : s.nextSeq = some n)
      (h : 0x8000 ≤ ahead n p.rtp.seq) : Lost s (.push p) p
  /-- A packet with its number waits already. -/
  | duplicate {n : UInt16} {p : PendingMediaPacket ρ} (hnext : s.nextSeq = some n)
      (hne : p.rtp.seq ≠ n) (hwaits : p.rtp.seq ∈ s.pendingMedia) : Lost s (.push p) p
  /-- It is the next one and has not been taken out when it comes again. -/
  | replaced {p q : PendingMediaPacket ρ} (hnext : s.nextSeq = some q.rtp.seq)
      (hwaits : s.pendingMedia.lookup p.rtp.seq = some p) (h : p.rtp.seq = q.rtp.seq) :
      Lost s (.push q) p
  | jump {n : UInt16} {p q : PendingMediaPacket ρ} (hnext : s.nextSeq = some n)
      (hwaits : s.pendingMedia.lookup p.rtp.seq = some p)
      (h : tuning.rtpReorderBufferMaxFrames < ahead n q.rtp.seq)
      (hlt : ahead n q.rtp.seq < 0x8000) :
      Lost s (.push q) p

/-- The packet goes to the assembler with this call, or is lost by it. -/
def Leaves (p : PendingMediaPacket ρ) (b : Clocked ρ) (c : Call ρ) : Prop :=
  (place tuning b.state (b.now + c.delay) c.op).1 = .packet p ∨ Lost tuning b.state c.op p

/-- The packet waits for its turn, which comes when the packets before it come or expire. -/
def Waits (s : ReceiveSsrcState ρ) (p : PendingMediaPacket ρ) : Prop :=
  ∃ n, s.nextSeq = some n ∧ s.pendingMedia.lookup p.rtp.seq = some p ∧
    ahead n p.rtp.seq ≤ tuning.rtpReorderBufferMaxFrames ∧
    (p.rtp.seq = n ∨ (s.pendingReorderDeadline tuning).isSome)

/-- Every packet that is pushed leaves sooner or later, or waits at the end. -/
def Accounted (b : Clocked ρ) (cs : List (Call ρ)) : Prop :=
  ∀ pre c post p, cs = pre ++ c :: post → c.op = .push p →
    Sometime (step tuning) (Leaves tuning p) (run (step tuning) b pre) (c :: post) ∨
      Waits tuning (run (step tuning) b cs).state p

/-- No packet that the buffer holds is skipped in the run. -/
def KeepsPackets (cs : List (Call ρ)) : Prop :=
  Along (step tuning) (KeepsStep tuning) {} cs ∧ Accounted tuning {} cs

/-- No push overfills the buffer, and no packet that waits has an expired mark when marks
expire. -/
def Timely (b : Clocked ρ) (c : Call ρ) : Prop :=
  match c.op with
  | .push packet => ∀ expected, b.state.nextSeq = some expected →
      ¬ Overfills tuning b.state (b.now + c.delay) packet expected
  | .pop => True
  | .expire _ force => ∀ k x, k ∈ b.state.pendingMedia → b.state.missing.lookup k = some x →
      ¬ Overdue tuning (b.now + c.delay) force x

/-! ### What a push does -/

variable {tuning} {s : ReceiveSsrcState ρ} {now L : ℕ} {n : UInt16}
  {p packet : PendingMediaPacket ρ}

/-- All that `push_media_packet` can do before it comes to the assembler. -/
inductive Placed (tuning : ConnectionRuntimeTuning) (s : ReceiveSsrcState ρ)
    (packet : PendingMediaPacket ρ) (now : ℕ) : Outlet ρ × ReceiveSsrcState ρ → Prop
  | first (hnext : s.nextSeq = none) : Placed tuning s packet now
      (.packet packet, { s with nextSeq := some (packet.rtp.seq + 1) })
  | expected (hnext : s.nextSeq = some packet.rtp.seq) : Placed tuning s packet now
      (.packet packet,
        { s with
          missing := s.missing.erase packet.rtp.seq
          pendingMedia := s.pendingMedia.erase packet.rtp.seq
          nextSeq := some (packet.rtp.seq + 1) })
  | jump {n : UInt16} (hnext : s.nextSeq = some n)
      (h : tuning.rtpReorderBufferMaxFrames < ahead n packet.rtp.seq)
      (hlt : ahead n packet.rtp.seq < 0x8000) : Placed tuning s packet now
      (.packet packet,
        { missing := ∅, pendingMedia := ∅, assembler := s.assembler.clear
          nextSeq := some (packet.rtp.seq + 1) })
  | waits {n : UInt16} (hnext : s.nextSeq = some n) (hne : packet.rtp.seq ≠ n)
      (hle : ahead n packet.rtp.seq ≤ tuning.limit) (h : ¬ Overfills tuning s now packet n) :
      Placed tuning s packet now
      (s.buffer n packet now).takeReady
  | overfills {n : UInt16} (hnext : s.nextSeq = some n) (h : Overfills tuning s now packet n) :
      Placed tuning s packet now
      ((s.buffer n packet now).expireMissingHead tuning packet.rtp.ssrc now true).2.takeReady
  | late {n : UInt16} (hnext : s.nextSeq = some n) (h : 0x8000 ≤ ahead n packet.rtp.seq) :
      Placed tuning s packet now (.frame none, s)

lemma placed (tuning : ConnectionRuntimeTuning) (s : ReceiveSsrcState ρ)
    (packet : PendingMediaPacket ρ) (now : ℕ) :
    Placed tuning s packet now (s.place tuning packet now).2 := by
  unfold ReceiveSsrcState.place
  rcases hnext : s.nextSeq with _ | n
  · exact .first hnext
  dsimp only
  by_cases hseq : packet.rtp.seq = n
  · rw [if_pos hseq]
    exact .expected (hseq ▸ hnext)
  rw [if_neg hseq]
  by_cases hlate : packet.rtp.seq - n < 0x8000
  · have hlt : ahead n packet.rtp.seq < 0x8000 := UInt16.lt_iff_toNat_lt.mp hlate
    rw [if_pos hlate]
    by_cases hjump : tuning.rtpReorderBufferMaxFrames < (packet.rtp.seq - n).toNat
    · rw [if_pos hjump]
      exact .jump hnext hjump hlt
    · have hle : ahead n packet.rtp.seq ≤ tuning.limit := le_min (not_lt.mp hjump) (by omega)
      rw [if_neg hjump]
      split
      next hfull => exact .overfills hnext ⟨hseq, hle, hfull⟩
      next hfits => exact .waits hnext hseq hle fun h => hfits h.2.2
  · rw [if_neg hlate]
    exact .late hnext (not_lt.mp fun hlt => hlate (UInt16.lt_iff_toNat_lt.mpr hlt))

/-! ### The state along a run -/

/-- The marks and the packets that wait are a window, or nothing has come yet. -/
def Sound (tuning : ConnectionRuntimeTuning) (now : ℕ) (s : ReceiveSsrcState ρ) : Prop :=
  match s.nextSeq with
  | none => s.missing = ∅ ∧ s.pendingMedia = ∅
  | some n => ∃ L, Window tuning now n L s.missing s.pendingMedia

lemma Sound.of_window (hnext : s.nextSeq = some n)
    (w : Window tuning now n L s.missing s.pendingMedia) : Sound tuning now s := by
  rw [Sound, hnext]
  exact ⟨L, w⟩

lemma Sound.window (h : Sound tuning now s) (hnext : s.nextSeq = some n) :
    ∃ L, Window tuning now n L s.missing s.pendingMedia := by
  rwa [Sound, hnext] at h

lemma Sound.mono (h : Sound tuning now s) {now' : ℕ} (hle : now ≤ now') : Sound tuning now' s := by
  unfold Sound at h ⊢
  split
  next hnext => rwa [hnext] at h
  next n hnext =>
    rw [hnext] at h
    exact h.imp fun L w => w.mono hle

lemma Sound.finish (h : Sound tuning now s) (outlet : Outlet ρ) :
    Sound tuning now (s.finish outlet).2 := by
  cases outlet <;> exact h

lemma Sound.takeReady (h : Sound tuning now s) : Sound tuning now s.takeReady.2 := by
  unfold ReceiveSsrcState.takeReady
  split
  · exact h
  · split
    · exact h
    next n hnext =>
      split
      · exact h
      · obtain ⟨L, w⟩ := h.window hnext
        exact .of_window rfl w.advance

lemma Sound.buffer (h : Sound tuning now s) (hnext : s.nextSeq = some n)
    (hle : ahead n packet.rtp.seq ≤ tuning.limit) : Sound tuning now (s.buffer n packet now) := by
  obtain ⟨L, w⟩ := h.window hnext
  exact .of_window hnext (w.buffer hle)

lemma Sound.expire (h : Sound tuning now s) {ssrc : UInt32} {force : Bool}
    (hskips : ¬ Skips s (s.expireMissingHead tuning ssrc now force).2) :
    Sound tuning now (s.expireMissingHead tuning ssrc now force).2 := by
  rcases hnext : s.nextSeq with _ | n
  · rwa [ReceiveSsrcState.expireMissingHead, hnext]
  · obtain ⟨L, w⟩ := h.window hnext
    obtain ⟨n', L', hnext', w'⟩ := w.expire ssrc hnext hskips
    exact .of_window hnext' w'

lemma Sound.near (h : Sound tuning now s) : Near tuning s := by
  intro n k hnext hk
  obtain ⟨L, w⟩ := h.window hnext
  exact (w.near k hk).trans (w.le.trans (Nat.min_le_left _ _))

/-- A window that has more packets than the buffer is long has the one that is expected. -/
lemma Window.mem_of_length_lt {missing : SeqMap MissingRtpPacket}
    {pending : SeqMap (PendingMediaPacket ρ)} (w : Window tuning now n L missing pending)
    (h : tuning.rtpReorderBufferMaxFrames < pending.keys.length) : n ∈ pending := by
  by_contra hmem
  -- otherwise the packets are at distances from 1 to the limit, each at its own
  have hinj : Function.Injective (ahead n) := fun i j hij => by
    have hsub : i - n = j - n := UInt16.toNat_inj.mp hij
    rw [← UInt16.sub_add_cancel i n, hsub, UInt16.sub_add_cancel]
  have hnodup : (pending.keys.map (ahead n)).Nodup := pending.keys_nodup.map hinj
  have hsubset : pending.keys.map (ahead n) ⊆ List.range' 1 tuning.rtpReorderBufferMaxFrames := by
    intro d hd
    obtain ⟨k, hk, rfl⟩ := List.mem_map.mp hd
    have hle := (w.near k hk).trans (w.le.trans (Nat.min_le_left _ _))
    have hne : ahead n k ≠ 0 := ahead_ne_zero fun heq => hmem (heq ▸ hk)
    rw [List.mem_range'_1]
    omega
  have hlen := (hnodup.subperm hsubset).length_le
  rw [List.length_map, List.length_range'] at hlen
  omega

/-- A push that overfills the buffer skips the packet that is expected. -/
lemma Overfills.skips (hs : Sound tuning now s) (hnext : s.nextSeq = some n)
    (h : Overfills tuning s now packet n) :
    Skips (s.buffer n packet now)
      ((s.buffer n packet now).expireMissingHead tuning packet.rtp.ssrc now true).2 := by
  obtain ⟨hne, hle, hfull⟩ := h
  obtain ⟨L, w⟩ := hs.window hnext
  have w' := w.buffer hle
  have hpos := ahead_ne_zero hne
  have hmarked : n ∈ (s.buffer n packet now).missing := by
    rw [w'.marked, ahead_self]
    omega
  obtain ⟨x, hx⟩ := mem_iff_lookup.mp hmarked
  have hnext' : (s.buffer n packet now).nextSeq = some n := hnext
  exact (skips_iff packet.rtp.ssrc hnext' w' true).mpr
    ⟨n, x, w'.mem_of_length_lt hfull, hx, .inl rfl⟩

variable {b : Clocked ρ} {c : Call ρ} {r : Outlet ρ × ReceiveSsrcState ρ}

/-- A call skips nothing exactly when it is timely. -/
lemma timely_iff (hs : Sound tuning (b.now + c.delay) b.state) :
    Timely tuning b c ↔
      ∀ t ssrc force, Expires tuning b.state (b.now + c.delay) c.op t ssrc force →
        ¬ Skips t (t.expireMissingHead tuning ssrc (b.now + c.delay) force).2 := by
  unfold Timely
  rcases c.op with packet | _ | ⟨ssrc, force⟩
  · constructor
    · intro h t ssrc force he
      cases he with
      | push hnext hover => exact absurd hover (h _ hnext)
    · intro h expected hnext hover
      exact h _ _ _ (.push hnext hover) (hover.skips hs hnext)
  · refine iff_of_true trivial fun t ssrc force he => ?_
    cases he
  · constructor
    · intro h t ssrc force he
      cases he with
      | expire =>
        rintro hskips
        obtain ⟨n, n', k, hnext, hrest⟩ := id hskips
        obtain ⟨L, w⟩ := hs.window hnext
        obtain ⟨k, x, hk, hx, hoverdue⟩ := (skips_iff _ hnext w _).mp hskips
        exact h k x hk hx hoverdue
    · intro h k x hk hx hoverdue
      rcases hnext : b.state.nextSeq with _ | n
      · rw [Sound, hnext] at hs
        rw [hs.2] at hk
        exact absurd hk (AList.notMem_empty k)
      · obtain ⟨L, w⟩ := hs.window hnext
        exact h _ _ _ (.expire ssrc force)
          ((skips_iff ssrc hnext w force).mpr ⟨k, x, hk, hx, hoverdue⟩)

lemma Sound.placed (hs : Sound tuning now s)
    (hfits : ∀ n, s.nextSeq = some n → ¬ Overfills tuning s now packet n)
    (h : Placed tuning s packet now r) : Sound tuning now r.2 := by
  cases h with
  | first hnext =>
    rw [Sound, hnext] at hs
    obtain ⟨hmissing, hpending⟩ := hs
    refine .of_window (L := 0) rfl ?_
    rw [hmissing, hpending]
    exact .empty ..
  | expected hnext =>
    obtain ⟨L, w⟩ := hs.window hnext
    exact .of_window rfl w.advance
  | jump hnext h hlt => exact .of_window rfl (.empty ..)
  | waits hnext hne hle h => exact (hs.buffer hnext hle).takeReady
  | overfills hnext h => exact absurd h (hfits _ hnext)
  | late hnext h => exact hs

/-- A timely call keeps the window. -/
lemma Sound.step (hs : Sound tuning b.now b.state) (ht : Timely tuning b c) :
    Sound tuning (step tuning b c).now (step tuning b c).state := by
  have hs := hs.mono (Nat.le_add_right b.now c.delay)
  have hkeeps := (timely_iff hs).mp ht
  unfold Timely at ht
  unfold Reorder.step apply
  rcases hop : c.op with packet | _ | ⟨ssrc, force⟩
  · rw [hop] at ht
    exact (hs.placed ht (Reorder.placed ..)).finish _
  · exact hs.takeReady.finish _
  · rw [hop] at hkeeps
    exact hs.expire (hkeeps _ _ _ (.expire ssrc force))

lemma sound_start (tuning : ConnectionRuntimeTuning) :
    Sound tuning ({} : Clocked ρ).now ({} : Clocked ρ).state := ⟨rfl, rfl⟩

/-! ### Where packets go -/

lemma expireMissingHead_pendingMedia (ssrc : UInt32) (force : Bool) :
    (s.expireMissingHead tuning ssrc now force).2.pendingMedia = s.pendingMedia := by
  unfold ReceiveSsrcState.expireMissingHead
  split
  · rfl
  · split
    · rfl
    · dsimp only
      split_ifs <;> rfl

lemma takeReady_of_lookup {k : UInt16} (h : s.pendingMedia.lookup k = some p) :
    s.takeReady.1 = .packet p ∨ s.takeReady.2.pendingMedia.lookup k = some p := by
  unfold ReceiveSsrcState.takeReady
  split
  · exact .inr h
  · split
    · exact .inr h
    next n hnext =>
      split
      · exact .inr h
      next q hq =>
        by_cases hk : k = n
        · subst hk
          exact .inl (congrArg Outlet.packet (Option.some.inj (hq.symm.trans h)))
        · exact .inr (by rwa [AList.lookup_erase_ne hk])

/-- What waits behind a push waited before, or is the packet. -/
lemma buffer_of_lookup (h : s.pendingMedia.lookup p.rtp.seq = some p ∨
      packet = p ∧ p.rtp.seq ∉ s.pendingMedia) :
    (s.buffer n packet now).pendingMedia.lookup p.rtp.seq = some p := by
  rw [ReceiveSsrcState.buffer, lookup_orInsert]
  rcases h with h | ⟨rfl, hnew⟩
  · rw [if_neg, h]
    rintro ⟨hk, hnew⟩
    rw [← hk] at hnew
    exact hnew (mem_iff_lookup.mpr ⟨p, h⟩)
  · rw [if_pos ⟨rfl, hnew⟩]

lemma Placed.leaves_or_waits (hr : Placed tuning s packet now r)
    (h : s.pendingMedia.lookup p.rtp.seq = some p ∨ packet = p) :
    (r.1 = .packet p ∨ Lost tuning s (.push packet) p) ∨
      r.2.pendingMedia.lookup p.rtp.seq = some p := by
  -- a packet that stays in the buffer can still be the next one
  have hbuffer {t : ReceiveSsrcState ρ} {n : UInt16} (hnext : s.nextSeq = some n)
      (hne : packet.rtp.seq ≠ n) (ht : t.pendingMedia = (s.buffer n packet now).pendingMedia) :
      (t.takeReady.1 = .packet p ∨ Lost tuning s (.push packet) p) ∨
        t.takeReady.2.pendingMedia.lookup p.rtp.seq = some p := by
    by_cases hdup : packet = p ∧ p.rtp.seq ∈ s.pendingMedia
    · obtain ⟨rfl, hmem⟩ := hdup
      exact .inl (.inr (.duplicate hnext hne hmem))
    · have hwaits : t.pendingMedia.lookup p.rtp.seq = some p :=
        ht ▸ buffer_of_lookup (h.imp_right fun heq => ⟨heq, fun hmem => hdup ⟨heq, hmem⟩⟩)
      exact (takeReady_of_lookup hwaits).imp_left .inl
  cases hr with
  | first hnext =>
    rcases h with h | rfl
    · exact .inr h
    · exact .inl (.inl rfl)
  | expected hnext =>
    rcases h with h | rfl
    · by_cases hseq : p.rtp.seq = packet.rtp.seq
      · exact .inl (.inr (.replaced hnext h hseq))
      · exact .inr (by rwa [AList.lookup_erase_ne hseq])
    · exact .inl (.inl rfl)
  | jump hnext hfar hlt =>
    rcases h with h | rfl
    · exact .inl (.inr (.jump hnext h hfar hlt))
    · exact .inl (.inl rfl)
  | waits hnext hne hle hfits => exact hbuffer hnext hne rfl
  | overfills hnext hfull => exact hbuffer hnext hfull.1 (expireMissingHead_pendingMedia ..)
  | late hnext hlate =>
    rcases h with h | rfl
    · exact .inr h
    · exact .inl (.inr (.late hnext hlate))

lemma step_pendingMedia (b : Clocked ρ) (c : Call ρ) :
    (step tuning b c).state.pendingMedia =
      (place tuning b.state (b.now + c.delay) c.op).2.pendingMedia := by
  have hfinish (s : ReceiveSsrcState ρ) (outlet) :
      (s.finish outlet).2.pendingMedia = s.pendingMedia := by
    cases outlet <;> rfl
  unfold step apply place
  cases c.op with
  | push packet => exact hfinish ..
  | pop => exact hfinish ..
  | expire ssrc force => rfl

/-- A packet that waits or is pushed goes to the assembler, is lost for a reason, or waits. -/
lemma leaves_or_waits
    (h : b.state.pendingMedia.lookup p.rtp.seq = some p ∨ c.op = .push p) :
    Leaves tuning p b c ∨ (step tuning b c).state.pendingMedia.lookup p.rtp.seq = some p := by
  rw [step_pendingMedia, Leaves]
  cases hop : c.op with
  | push packet =>
    rw [hop, Op.push.injEq] at h
    exact (placed tuning b.state packet _).leaves_or_waits h
  | pop =>
    have h := h.resolve_right (by simp [hop])
    exact (takeReady_of_lookup h).imp_left .inl
  | expire ssrc force =>
    have h := h.resolve_right (by simp [hop])
    exact .inr (by rwa [place, expireMissingHead_pendingMedia])

lemma Sound.waits (hs : Sound tuning now s) (h : s.pendingMedia.lookup p.rtp.seq = some p) :
    Waits tuning s p := by
  have hmem := mem_iff_lookup.mpr ⟨p, h⟩
  rcases hnext : s.nextSeq with _ | n
  · rw [Sound, hnext] at hs
    rw [hs.2] at hmem
    exact absurd hmem (AList.notMem_empty _)
  · refine ⟨n, hnext, h, hs.near n _ hnext hmem, ?_⟩
    by_cases hseq : p.rtp.seq = n
    · exact .inl hseq
    · -- the expected number is marked, since a packet waits behind it
      obtain ⟨L, w⟩ := hs.window hnext
      have hle := w.near _ hmem
      have hne := ahead_ne_zero hseq
      obtain ⟨x, hx⟩ := mem_iff_lookup.mp ((w.marked n).mpr (by rw [ahead_self]; omega))
      exact .inr (by simp [ReceiveSsrcState.pendingReorderDeadline, hnext, hx])

/-! ### Runs -/

variable {cs : List (Call ρ)}

/-- In a timely run every packet is accounted for. -/
lemma accounted_of_timely (h : Along (step tuning) (Timely tuning) {} cs) :
    Accounted tuning {} cs := by
  intro pre c post p hcs hpush
  have hsound : Sound tuning _ (run (step tuning) {} cs).state :=
    run_inv (I := fun b => Sound tuning b.now b.state) (fun _ _ hs ht => hs.step ht)
      (sound_start tuning) h
  have hfirst : Leaves tuning p (run (step tuning) {} pre) c ∨ _ := leaves_or_waits (.inr hpush)
  rcases hfirst with hleaves | hwaits
  · exact .inl (.inl hleaves)
  · refine (sometime_or_run (I := fun b => b.state.pendingMedia.lookup p.rtp.seq = some p)
      (fun _ _ hp => leaves_or_waits (.inl hp)) post hwaits).imp .inr fun hend => hsound.waits ?_
    rwa [hcs, run_append]

/-- **The jitter buffer.** A run skips no packet that the buffer holds, keeps all of them near and
hands on or accounts for every packet, exactly when no push overfills the buffer and no packet
that waits has an expired mark when marks expire. -/
theorem keepsPackets_iff (tuning : ConnectionRuntimeTuning) (cs : List (Call ρ)) :
    KeepsPackets tuning cs ↔ Along (step tuning) (Timely tuning) {} cs := by
  have htimely (b : Clocked ρ) (c : Call ρ) (hs : Sound tuning b.now b.state) :=
    timely_iff (c := c) (hs.mono (Nat.le_add_right b.now c.delay))
  constructor
  · rintro ⟨hkeeps, -⟩
    exact hkeeps.imp (I := fun b => Sound tuning b.now b.state)
      (fun b c hs hk => hs.step ((htimely b c hs).mpr hk.2))
      (fun b c hs hk => (htimely b c hs).mpr hk.2) (sound_start tuning)
  · intro h
    refine ⟨?_, accounted_of_timely h⟩
    exact h.imp (I := fun b => Sound tuning b.now b.state) (fun b c hs ht => hs.step ht)
      (fun b c hs ht => ⟨(hs.step ht).near, (htimely b c hs).mp ht⟩) (sound_start tuning)

def opusPacket (seq : UInt16) : PendingMediaPacket Unit where
  raw := ()
  rtp := ⟨2, false, false, false, 120, seq, 0, 7, 12, 12⟩
  userId := none
  codec := .opus
  encryptedPayload := [0xf8]
  dave := false

/-- Packet 1 does not come, 2 and 3 do, and 60 ms later the marks expire. -/
def lateWakeUp : List (Call Unit) :=
  [⟨0, .push (opusPacket 0)⟩, ⟨0, .push (opusPacket 2)⟩, ⟨0, .push (opusPacket 3)⟩,
    ⟨60 * 10 ^ 6, .expire 7 false⟩]

/-- Packet 2 is skipped. -/
theorem lateWakeUp_skips : ¬ KeepsPackets .default lateWakeUp := by
  rintro ⟨⟨-, -, -, ⟨hnear, -⟩, -⟩, -⟩
  exact absurd (hnear 3 2 (by decide +kernel) (by decide +kernel)) (by decide)

end Cacophony.Reorder
