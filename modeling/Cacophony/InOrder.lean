import Cacophony.Blocks
import Cacophony.ReadyQueue

/-!
Packets of a stream in order.

With none left out, each goes to the assembler at once, and all frames that it completes are handed
out before the next one comes.
-/

namespace Cacophony.Streams

open Transport RtpPayload Assembler Reorder Deadlines

variable {ρ : Type} {tuning : ConnectionRuntimeTuning} {r : ReceiveState ρ} {ssrc : UInt32}
  {now : ℕ} {a : RtpFrameAssembler ρ} {q : PendingMediaPacket ρ} {P : List (PendingMediaPacket ρ)}
  {outs : List (Output ρ)}

/-! ### An assembler of its own -/

/-- The assembler without the frames it has completed. -/
def emptied (a : RtpFrameAssembler ρ) : RtpFrameAssembler ρ := { a with completed := [] }

/-- What a packet makes the assembler hand out, with all frames that it completes. -/
def handOut (a : RtpFrameAssembler ρ) (q : PendingMediaPacket ρ) : List (Output ρ) :=
  produced (a.pushPacket q).1 ++ (a.pushPacket q).2.completed.map .ok

/-- What the assembler hands out for packets in a row. -/
def emitted (a : RtpFrameAssembler ρ) : List (PendingMediaPacket ρ) → List (Output ρ)
  | [] => []
  | q :: qs => handOut a q ++ emitted (emptied (a.pushPacket q).2) qs

def fed (a : RtpFrameAssembler ρ) : List (PendingMediaPacket ρ) → RtpFrameAssembler ρ
  | [] => a
  | q :: qs => fed (emptied (a.pushPacket q).2) qs

lemma emitted_append (a : RtpFrameAssembler ρ) (ps qs : List (PendingMediaPacket ρ)) :
    emitted a (ps ++ qs) = emitted a ps ++ emitted (fed a ps) qs := by
  induction ps generalizing a with
  | nil => rfl
  | cons p ps ih =>
    rw [List.cons_append, emitted, ih, ← List.append_assoc]
    rfl

lemma fed_append (a : RtpFrameAssembler ρ) (ps qs : List (PendingMediaPacket ρ)) :
    fed a (ps ++ qs) = fed (fed a ps) qs := by
  induction ps generalizing a with
  | nil => rfl
  | cons p ps ih => exact ih _

/-- A packet that leaves no completed frame behind. -/
lemma emitted_singleton {result : Except RtpError (Option (PendingMediaFrame ρ))}
    {a' : RtpFrameAssembler ρ} (h : a.pushPacket q = (result, a')) (ha : a'.completed = []) :
    emitted a [q] = produced result ∧ fed a [q] = a' := by
  obtain ⟨f, completed⟩ := a'
  obtain rfl : completed = [] := ha
  rw [emitted, emitted, handOut, fed, fed, h]
  exact ⟨by simp, rfl⟩

/-! ### A stream without gaps -/

/-- Nothing waits and nothing is missing. The frames that are completed are the rest of `total`. -/
def Flows (next : Option UInt16) (f : Option (PartialRtpFrame ρ)) (total : List (Output ρ))
    (s : ReceiveSsrcState ρ) (outs : List (Output ρ)) : Prop :=
  ∃ completed, s = ⟨next, ∅, ∅, ⟨f, completed⟩⟩ ∧ outs ++ completed.map .ok = total

variable {next : Option UInt16} {f : Option (PartialRtpFrame ρ)} {total : List (Output ρ)}

lemma keeps_flows (tuning : ConnectionRuntimeTuning) (ssrc : UInt32) (next : Option UInt16)
    (f : Option (PartialRtpFrame ρ)) (total : List (Output ρ)) :
    Keeps tuning ssrc (fun _ => False) (fun _ => True) (Flows next f total) where
  push h := h.elim
  pop {s outs} h := by
    obtain ⟨_ | ⟨frame, completed⟩, rfl, hout⟩ := h
    · refine ⟨[], ?_, ?_⟩
      · cases next <;> rfl
      · have hnone : (ReceiveSsrcState.popReadyBufferedFrame
            (⟨next, ∅, ∅, ⟨f, []⟩⟩ : ReceiveSsrcState ρ)).1 = .ok none := by
          cases next <;> rfl
        rw [hnone, produced, List.append_nil]
        exact hout
    · refine ⟨completed, rfl, ?_⟩
      rw [← hout, List.append_assoc]
      rfl
  expire {s outs now} _ h := by
    obtain ⟨completed, rfl, hout⟩ := h
    refine ⟨completed, ?_, hout⟩
    cases next <;> rfl

/-- The stream is at rest. -/
structure Calm (ssrc : UInt32) (next : Option UInt16) (a : RtpFrameAssembler ρ)
    (r : ReceiveState ρ) : Prop where
  only : Only ssrc r
  stream_eq : stream ssrc r = ⟨next, ∅, ∅, a⟩
  queued : QueuedBut none r

lemma calm_new (order : HashOrder UInt32) (ssrc : UInt32) :
    Calm ssrc none {} (.new order : ReceiveState ρ) :=
  ⟨fun x hx => absurd hx (by simp [ReceiveState.new]), rfl, queuedBut_new order⟩

lemma Holds.drainAll {packets : PendingMediaPacket ρ → Prop} {times : ℕ → Prop}
    {J : ReceiveSsrcState ρ → List (Output ρ) → Prop} (h : Holds ssrc J r outs)
    (hk : Keeps tuning ssrc packets times J) (now : ℕ) (hnow : times now) :
    Holds ssrc J (drainAll tuning now r).2 (outs ++ (drainAll tuning now r).1) := by
  fun_induction Streams.drainAll tuning now r generalizing outs with
  | case1 r r' hdrain => exact h.drain hk hnow hdrain
  | case2 r x r' hdrain xs r'' hrest ih =>
    have hnext := ih (h.drain hk hnow hdrain)
    rw [hrest, List.append_assoc] at hnext
    exact hnext

/-- Nothing is ready in the stream when nothing is in any. -/
lemma Settled.stream (h : Settled r) (ssrc : UInt32) :
    (stream ssrc r).hasReadyBufferedMedia = false := by
  rw [Streams.stream]
  rcases hs : r.ssrc.lookup ssrc with _ | s
  · rfl
  · exact h ssrc s hs

/-- A packet that leaves nothing waiting, and the calls that take what it completes. -/
lemma Calm.step (h : Calm ssrc next a r) (hssrc : q.rtp.ssrc = ssrc) {next' : Option UInt16}
    {a' : RtpFrameAssembler ρ} {result : Except RtpError (Option (PendingMediaFrame ρ))}
    (hstep : ((⟨next, ∅, ∅, a⟩ : ReceiveSsrcState ρ).pushMediaPacket tuning q now).2 =
      (result, ⟨next', ∅, ∅, a'⟩)) :
    Calm ssrc next' (emptied a') (drainAll tuning now (r.pushMediaPacket tuning q now).2).2 ∧
      produced (r.pushMediaPacket tuning q now).1 ++
        (drainAll tuning now (r.pushMediaPacket tuning q now).2).1 =
      produced result ++ a'.completed.map .ok := by
  subst hssrc
  rw [← h.stream_eq] at hstep
  have hresult : (r.pushMediaPacket tuning q now).1 = result := congrArg Prod.fst hstep
  have hpushed : Holds q.rtp.ssrc
      (Flows next' a'.partialFrame (produced result ++ a'.completed.map .ok))
      (r.pushMediaPacket tuning q now).2 (produced (r.pushMediaPacket tuning q now).1) := by
    refine .of_insert h.only (ssrc_update _ _ _) ⟨a'.completed, congrArg Prod.snd hstep, ?_⟩
    rw [hresult]
  have hdrained := hpushed.drainAll (keeps_flows tuning _ _ _ _) now trivial
  obtain ⟨hqueued, hsettled⟩ := (h.queued.push tuning q now).drainAll tuning now
  obtain ⟨completed, hstream, hout⟩ := hdrained.holds
  have hready := hsettled.stream q.rtp.ssrc
  rw [hstream] at hready
  obtain rfl : completed = [] := (not_ready_iff.mp hready).1
  refine ⟨⟨hdrained.only, hstream, hqueued⟩, ?_⟩
  rw [← hout, List.map_nil, List.append_nil]

/-- The next packet, and all that it completes. -/
lemma Calm.push (h : Calm ssrc next a r) (hssrc : q.rtp.ssrc = ssrc)
    (hnext : next = none ∨ next = some q.rtp.seq) (tuning : ConnectionRuntimeTuning) (now : ℕ) :
    Calm ssrc (some (q.rtp.seq + 1)) (emptied (a.pushPacket q).2)
        (drainAll tuning now (r.pushMediaPacket tuning q now).2).2 ∧
      produced (r.pushMediaPacket tuning q now).1 ++
        (drainAll tuning now (r.pushMediaPacket tuning q now).2).1 = handOut a q := by
  refine h.step hssrc ?_
  rcases hnext with rfl | rfl
  · exact push_first rfl now
  · exact push_next rfl rfl now

/-- **In order.** Packets without a gap make a stream hand out what an assembler of its own does. -/
theorem Calm.deliverAt (h : Calm ssrc next a r) {first : UInt16}
    (hnext : next = none ∨ next = some first) (hnum : Numbered first P)
    (hssrc : ∀ q ∈ P, q.rtp.ssrc = ssrc) (tuning : ConnectionRuntimeTuning) (now : ℕ) :
    (deliverAt tuning now r P).1 = emitted a P := by
  induction P generalizing r next a first with
  | nil => rfl
  | cons q qs ih =>
    obtain ⟨hq, hqs⟩ := List.forall_mem_cons.mp hssrc
    obtain ⟨rfl, hnum⟩ := numbered_cons.mp hnum
    obtain ⟨hcalm, hout⟩ := h.push hq hnext tuning now
    rw [deliverAt_cons, hout, ih hcalm (.inr rfl) hnum hqs, emitted]

end Cacophony.Streams
