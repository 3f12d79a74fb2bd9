import Cacophony.Provenance
import Cacophony.Schedules

/-!
Streams keep to themselves: what the buffers of a stream hold, and what they hand out, is of the
SSRC that the stream is kept under.
-/

namespace Cacophony.Streams

open Transport RtpPayload Assembler Reorder
open Deadlines Runs

variable {ρ : Type} {x : UInt32} {tuning : ConnectionRuntimeTuning}

/-! ### A stream -/

/-- The frames of an assembler are of an SSRC. -/
structure Assembles (x : UInt32) (a : RtpFrameAssembler ρ) : Prop where
  begun : ∀ f, a.partialFrame = some f → f.rtp.ssrc = x
  completed : ∀ f ∈ a.completed, f.rtp.ssrc = x

/-- So are the packets that wait for it. -/
structure OfSsrc (x : UInt32) (s : ReceiveSsrcState ρ) : Prop where
  packets : ∀ seq packet, s.pendingMedia.lookup seq = some packet → packet.rtp.ssrc = x
  assembler : Assembles x s.assembler

def outletSsrc : Outlet ρ → Option UInt32
  | .frame frame => frame.map (·.rtp.ssrc)
  | .packet packet => some packet.rtp.ssrc

variable {a : RtpFrameAssembler ρ} {packet : PendingMediaPacket ρ} {s : ReceiveSsrcState ρ}

lemma assembles_of_none (hbegun : a.partialFrame = none) (h : ∀ f ∈ a.completed, f.rtp.ssrc = x) :
    Assembles x a := by
  refine ⟨fun f hf => ?_, h⟩
  rw [hbegun] at hf
  cases hf

lemma assembles_empty : Assembles x ({} : RtpFrameAssembler ρ) :=
  assembles_of_none rfl fun _ hf => absurd hf List.not_mem_nil

lemma Assembles.settle (h : Assembles x a) (packet : PendingMediaPacket ρ) :
    Assembles x (a.settle packet) := by
  rcases settle_cases a packet with hsettle | hsettle | ⟨f, hf, hsettle⟩
  · rwa [hsettle]
  · rw [hsettle]
    exact assembles_of_none rfl h.completed
  · rw [hsettle]
    refine assembles_of_none rfl fun g hg => ?_
    rcases List.mem_append.mp hg with hg | hg
    · exact h.completed g hg
    · rw [List.mem_singleton.mp hg]
      exact h.begun f hf

lemma Assembles.takes {c : Push ρ} {b : RtpFrameAssembler ρ} (h : Assembles x a)
    (hpacket : c.packet.rtp.ssrc = x) (hb : Takes c a b) : Assembles x b := by
  have hsnoc {frame : PendingMediaFrame ρ} (hframe : frame.rtp.ssrc = x) :
      ∀ f ∈ a.completed ++ [frame], f.rtp.ssrc = x := by
    intro f hf
    rcases List.mem_append.mp hf with hf | hf
    · exact h.completed f hf
    · rwa [List.mem_singleton.mp hf]
  cases hb with
  | skip => exact h
  | drop => exact assembles_of_none rfl h.completed
  | start =>
    refine ⟨fun f hf => ?_, h.completed⟩
    rw [← Option.some.inj hf]
    exact hpacket
  | whole => exact ⟨h.begun, hsnoc hpacket⟩
  | more hf =>
    have hbegun := h.begun _ hf
    refine ⟨fun g hg => ?_, h.completed⟩
    rw [← Option.some.inj hg]
    exact hbegun
  | last hf =>
    have hbegun := h.begun _ hf
    exact assembles_of_none rfl (hsnoc hbegun)

lemma Assembles.popCompleted (h : Assembles x a) :
    Assembles x a.popCompleted.2 ∧ ∀ f, a.popCompleted.1 = some f → f.rtp.ssrc = x :=
  ⟨⟨h.begun, fun f hf => h.completed f (List.mem_of_mem_tail hf)⟩,
    fun f hf => h.completed f (List.mem_of_mem_head? hf)⟩

lemma Assembles.pushPacket (h : Assembles x a) (hpacket : packet.rtp.ssrc = x) :
    Assembles x (a.pushPacket packet).2 ∧
      ∀ f, (a.pushPacket packet).1 = .ok (some f) → f.rtp.ssrc = x := by
  obtain ⟨b, hb, ⟨error, hpush⟩ | hpush⟩ := takes_pushPacket a packet
  · rw [hpush]
    refine ⟨(h.settle packet).takes hpacket hb, fun f hf => ?_⟩
    cases hf
  · rw [hpush]
    have hpop := ((h.settle packet).takes hpacket hb).popCompleted
    exact ⟨hpop.1, fun f hf => hpop.2 f (Except.ok.inj hf)⟩

lemma ofSsrc_fresh : OfSsrc x ({} : ReceiveSsrcState ρ) :=
  ⟨fun _ _ h => absurd h (by simp), assembles_empty⟩

lemma outletSsrc_none {y : UInt32} (h : outletSsrc (.frame none : Outlet ρ) = some y) : y = x := by
  cases h

lemma OfSsrc.takeReady (h : OfSsrc x s) :
    OfSsrc x s.takeReady.2 ∧ ∀ y, outletSsrc s.takeReady.1 = some y → y = x := by
  have hcompleted := h.assembler.popCompleted
  unfold ReceiveSsrcState.takeReady
  split
  next frame assembler hpop =>
    rw [hpop] at hcompleted
    refine ⟨⟨h.packets, hcompleted.1⟩, fun y hy => ?_⟩
    rw [← Option.some.inj hy]
    exact hcompleted.2 frame rfl
  · split
    · exact ⟨h, fun _ => outletSsrc_none⟩
    next seq _ =>
      split
      · exact ⟨h, fun _ => outletSsrc_none⟩
      next packet hpacket =>
        refine ⟨⟨fun seq' packet' hlookup => ?_, h.assembler⟩, fun y hy => ?_⟩
        · exact h.packets seq' packet' (lookup_of_lookup_erase hlookup).2
        · rw [← Option.some.inj hy]
          exact h.packets seq packet hpacket

lemma OfSsrc.finish {outlet : Outlet ρ} (h : OfSsrc x s)
    (houtlet : ∀ y, outletSsrc outlet = some y → y = x) :
    OfSsrc x (s.finish outlet).2 ∧ ∀ f, (s.finish outlet).1 = .ok (some f) → f.rtp.ssrc = x := by
  cases outlet with
  | frame frame =>
    refine ⟨h, fun f hf => houtlet _ ?_⟩
    rw [outletSsrc, Except.ok.inj hf, Option.map_some]
  | packet packet =>
    have hpush := h.assembler.pushPacket (houtlet _ rfl)
    exact ⟨⟨h.packets, hpush.1⟩, hpush.2⟩

lemma OfSsrc.pop (h : OfSsrc x s) : OfSsrc x s.popReadyBufferedFrame.2 ∧
    ∀ f, s.popReadyBufferedFrame.1 = .ok (some f) → f.rtp.ssrc = x :=
  h.takeReady.1.finish h.takeReady.2

lemma OfSsrc.expire (h : OfSsrc x s) (ssrc : UInt32) (now : ℕ) (force : Bool) :
    OfSsrc x (s.expireMissingHead tuning ssrc now force).2 := by
  rcases expireMissingHead_cases tuning s ssrc now force with hsame | ⟨n, mark, -, -, -, hexpired⟩
  · rwa [hsame]
  · rw [hexpired]
    exact ⟨h.packets, assembles_empty⟩

lemma OfSsrc.buffer (h : OfSsrc x s) (hpacket : packet.rtp.ssrc = x) (expected : UInt16)
    (now : ℕ) : OfSsrc x (s.buffer expected packet now) := by
  refine ⟨fun seq packet' hlookup => ?_, h.assembler⟩
  dsimp only [ReceiveSsrcState.buffer, orInsert] at hlookup
  split at hlookup
  · exact h.packets seq packet' hlookup
  · by_cases hseq : seq = packet.rtp.seq
    · rw [hseq, AList.lookup_insert, Option.some.injEq] at hlookup
      rwa [← hlookup]
    · rw [AList.lookup_insert_ne hseq] at hlookup
      exact h.packets seq packet' hlookup

lemma OfSsrc.place (h : OfSsrc x s) (hpacket : packet.rtp.ssrc = x) (now : ℕ) :
    OfSsrc x (s.place tuning packet now).2.2 ∧
      ∀ y, outletSsrc (s.place tuning packet now).2.1 = some y → y = x := by
  have hself : ∀ y, outletSsrc (.packet packet) = some y → y = x := by
    intro y hy
    rw [← Option.some.inj hy, hpacket]
  unfold ReceiveSsrcState.place
  dsimp only
  split
  · exact ⟨⟨h.packets, h.assembler⟩, hself⟩
  next expected _ =>
    split
    · refine ⟨⟨fun seq packet' hlookup => ?_, h.assembler⟩, hself⟩
      exact h.packets seq packet' (lookup_of_lookup_erase hlookup).2
    · split
      · split
        · exact ⟨⟨fun _ _ hlookup => absurd hlookup (by simp), assembles_empty⟩, hself⟩
        · split
          · exact ((h.buffer hpacket expected now).expire _ now true).takeReady
          · exact (h.buffer hpacket expected now).takeReady
      · exact ⟨h, fun _ => outletSsrc_none⟩

lemma OfSsrc.push (h : OfSsrc x s) (hpacket : packet.rtp.ssrc = x) (now : ℕ) :
    OfSsrc x (s.pushMediaPacket tuning packet now).2.2 :=
  ((h.place hpacket now).1.finish (h.place hpacket now).2).1

/-! ### All streams -/

variable {r : ReceiveState ρ} {now : ℕ}

/-- Every stream has what is of its SSRC, and there is no stream under the `removed` SSRCs. -/
structure Keyed (removed : List UInt32) (r : ReceiveState ρ) : Prop where
  ofSsrc : ∀ x s, r.ssrc.lookup x = some s → OfSsrc x s
  gone : ∀ x ∈ removed, r.ssrc.lookup x = none

variable {removed : List UInt32}

lemma keyed_new (order : HashOrder UInt32) : Keyed [] (.new order : ReceiveState ρ) :=
  ⟨fun _ _ h => absurd h (by simp [ReceiveState.new]), fun _ h => absurd h List.not_mem_nil⟩

lemma Keyed.of_insert {r' : ReceiveState ρ} (h : Keyed removed r)
    (hr : r'.ssrc = r.ssrc.insert x s) (hx : x ∉ removed) (hs : OfSsrc x s) :
    Keyed removed r' where
  ofSsrc := by
    intro y s' hs'
    rw [hr] at hs'
    by_cases hy : y = x
    · rw [hy, AList.lookup_insert, Option.some.injEq] at hs'
      rwa [hy, ← hs']
    · rw [AList.lookup_insert_ne hy] at hs'
      exact h.ofSsrc y s' hs'
  gone := by
    intro y hy
    have hne : y ≠ x := fun heq => hx (heq ▸ hy)
    rw [hr, AList.lookup_insert_ne hne]
    exact h.gone y hy

lemma Keyed.notMem (h : Keyed removed r) (hs : r.ssrc.lookup x = some s) : x ∉ removed := by
  intro hx
  rw [h.gone x hx] at hs
  cases hs

/-- A packet of another stream. -/
lemma Keyed.push (h : Keyed removed r) (hpacket : packet.rtp.ssrc ∉ removed) (now : ℕ) :
    Keyed removed (r.pushMediaPacket tuning packet now).2 := by
  have hstream : OfSsrc packet.rtp.ssrc ((r.ssrc.lookup packet.rtp.ssrc).getD {}) := by
    rcases hs : r.ssrc.lookup packet.rtp.ssrc with _ | s
    · exact ofSsrc_fresh
    · exact h.ofSsrc _ s hs
  exact h.of_insert (ssrc_update _ _ _) hpacket (hstream.push rfl now)

variable (tuning) in
/-- A frame that a round hands out is of a stream that is kept. -/
lemma Keyed.round (h : Keyed removed r) (now : ℕ) :
    Keyed removed (r.drainRound tuning now).state ∧
      ∀ frame r', r.drainRound tuning now = .returns (some (.ok frame)) r' →
        frame.rtp.ssrc ∉ removed := by
  have hsteps : Steps tuning now r.ssrc (r.drainRound tuning now) := drainRound_steps r now
  generalize r.drainRound tuning now = round at hsteps ⊢
  cases hsteps with
  | idle hr =>
    refine ⟨⟨hr ▸ h.ofSsrc, hr ▸ h.gone⟩, fun frame r' hround => ?_⟩
    cases hround
  | @pop r' ssrc s hs hready hr =>
    have hpop := (h.ofSsrc ssrc s hs).pop
    refine ⟨?_, fun frame r'' hround => ?_⟩
    · rw [state_ofResult]
      exact h.of_insert hr (h.notMem hs) hpop.1
    · rcases hresult : s.popReadyBufferedFrame.1 with error | _ | frame'
      · rw [hresult] at hround
        cases hround
      · rw [hresult] at hround
        cases hround
      · rw [hresult] at hround
        cases hround
        rw [hpop.2 frame hresult]
        exact h.notMem hs
  | expire hs _ _ hr =>
    refine ⟨h.of_insert hr (h.notMem hs) ((h.ofSsrc _ _ hs).expire _ now false), ?_⟩
    intro frame r' hround
    cases hround

lemma Keyed.drain (h : Keyed removed r) (now : ℕ) :
    Keyed removed (r.drainOrderedMedia tuning now).2 :=
  (drainOrderedMedia_inv (fun _ h => (h.round tuning now).1) h rfl).1

lemma lookup_pruneSsrcs (r : ReceiveState ρ) (removed : List UInt32) (x : UInt32) :
    (r.pruneSsrcs removed).ssrc.lookup x = if x ∈ removed then none else r.ssrc.lookup x := by
  unfold ReceiveState.pruneSsrcs
  split
  next hnil => rw [List.isEmpty_iff.mp hnil, if_neg List.not_mem_nil]
  · rw [lookup_retain]
    by_cases hx : x ∈ removed <;> simp [hx]

/-- The streams that are removed are gone. -/
lemma Keyed.prune {kept : List UInt32} (h : Keyed kept r) (removed : List UInt32) :
    Keyed (kept ++ removed) (r.pruneSsrcs removed) where
  ofSsrc := by
    intro y s hs
    rw [lookup_pruneSsrcs] at hs
    split at hs
    · cases hs
    · exact h.ofSsrc y s hs
  gone := by
    intro y hy
    rw [lookup_pruneSsrcs]
    split
    · rfl
    next hnot => exact h.gone y ((List.mem_append.mp hy).resolve_right hnot)

lemma Keyed.mono {less : List UInt32} (h : Keyed removed r) (hsub : ∀ x ∈ less, x ∈ removed) :
    Keyed less r :=
  ⟨h.ofSsrc, fun x hx => h.gone x (hsub x hx)⟩

/-- Streams are keyed by their SSRCs after any calls. -/
theorem keyed_run (tuning : ConnectionRuntimeTuning) (order : HashOrder UInt32)
    (calls : List (ReceiveCall ρ)) :
    Keyed [] (run (ClockedState.step tuning) (.start order) calls).state := by
  refine run_inv_of_step (I := fun b : ClockedState ρ => Keyed [] b.state) ?_ calls
    (keyed_new order)
  intro b c h
  unfold ClockedState.step ReceiveState.apply
  cases c.op with
  | push packet => exact h.push List.not_mem_nil _
  | drain => exact h.drain _
  | prune removed => exact (h.prune removed).mono (List.nil_subset _)

end Cacophony.Streams
