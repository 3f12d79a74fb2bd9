import Cacophony.Streams

/-!
Packets of one stream, pushed one after the other.

After each packet `drain_ordered_media` is called until it returns nothing, and it may be called so
at other times as well. What holds of the stream and of its output, and is kept by each call on the
reorder buffer, holds after every such run.
-/

namespace Cacophony.Streams

open Transport RtpPayload Assembler Reorder Deadlines

variable {ρ : Type} (tuning : ConnectionRuntimeTuning)

/-- What a call hands out. -/
def produced : Except RtpError (Option (PendingMediaFrame ρ)) → List (Output ρ)
  | .ok none => []
  | .ok (some frame) => [.ok frame]
  | .error error => [.error error]

/-! ### Runs -/

/-- Calls of `drain_ordered_media` until it returns nothing, from one instant to another. -/
inductive Drains : ℕ → ReceiveState ρ → List (Output ρ) → ℕ → ReceiveState ρ → Prop
  | done {t t' : ℕ} {r r' : ReceiveState ρ} (ht : t ≤ t')
      (h : r.drainOrderedMedia tuning t' = (none, r')) : Drains t r [] t' r'
  | more {t t' t'' : ℕ} {r r' r'' : ReceiveState ρ} {x : Output ρ} {xs : List (Output ρ)}
      (ht : t ≤ t') (h : r.drainOrderedMedia tuning t' = (some x, r'))
      (hrest : Drains t' r' xs t'' r'') : Drains t r (x :: xs) t'' r''

/-- The packets are pushed in this order, and the outputs are what the calls return. -/
inductive Delivers : ℕ → ReceiveState ρ → List (PendingMediaPacket ρ) → List (Output ρ) → Prop
  | done {t : ℕ} {r : ReceiveState ρ} : Delivers t r [] []
  | push {t t' t'' : ℕ} {r r' : ReceiveState ρ} {packet : PendingMediaPacket ρ}
      {packets : List (PendingMediaPacket ρ)} {xs ys : List (Output ρ)} (ht : t ≤ t')
      (hdrains : Drains tuning t' (r.pushMediaPacket tuning packet t').2 xs t'' r')
      (hrest : Delivers t'' r' packets ys) :
      Delivers t r (packet :: packets)
        (produced (r.pushMediaPacket tuning packet t').1 ++ (xs ++ ys))
  | wake {t t' : ℕ} {r r' : ReceiveState ρ} {packets : List (PendingMediaPacket ρ)}
      {xs ys : List (Output ρ)} (hdrains : Drains tuning t r xs t' r')
      (hrest : Delivers t' r' packets ys) : Delivers t r packets (xs ++ ys)

variable {tuning}

lemma ssrcsWeight_drain {now : ℕ} {r r' : ReceiveState ρ} {x : Output ρ}
    (h : r.drainOrderedMedia tuning now = (some x, r')) :
    ssrcsWeight r'.ssrc < ssrcsWeight r.ssrc := by
  fun_induction ReceiveState.drainOrderedMedia tuning now r with
  | case1 r result r₁ hround =>
    cases h
    exact ssrcsWeight_round hround (by rintro _ ⟨⟩)
  | case2 r r₁ hround ih => exact (ih h).trans (ssrcsWeight_round hround (by rintro _ ⟨⟩))

variable (tuning)

/-- `drain_ordered_media` until it returns nothing, all at one instant. -/
def drainAll (now : ℕ) (r : ReceiveState ρ) : List (Output ρ) × ReceiveState ρ :=
  match _h : r.drainOrderedMedia tuning now with
  | (none, r) => ([], r)
  | (some x, r) =>
    let (xs, r) := drainAll now r
    (x :: xs, r)
termination_by ssrcsWeight r.ssrc
decreasing_by exact ssrcsWeight_drain _h

/-- The packets are pushed in this order, all at one instant. -/
def deliverAt (now : ℕ) (r : ReceiveState ρ) :
    List (PendingMediaPacket ρ) → List (Output ρ) × ReceiveState ρ
  | [] => ([], r)
  | packet :: packets =>
    let (result, r) := r.pushMediaPacket tuning packet now
    let (xs, r) := drainAll tuning now r
    let (ys, r) := deliverAt now r packets
    (produced result ++ (xs ++ ys), r)

variable {tuning}

lemma deliverAt_cons (now : ℕ) (r : ReceiveState ρ) (q : PendingMediaPacket ρ)
    (qs : List (PendingMediaPacket ρ)) :
    (deliverAt tuning now r (q :: qs)).1 =
      produced (r.pushMediaPacket tuning q now).1 ++
          (drainAll tuning now (r.pushMediaPacket tuning q now).2).1 ++
        (deliverAt tuning now (drainAll tuning now (r.pushMediaPacket tuning q now).2).2 qs).1 :=
  (List.append_assoc ..).symm

lemma drains_drainAll (now : ℕ) (r : ReceiveState ρ) :
    Drains tuning now r (drainAll tuning now r).1 now (drainAll tuning now r).2 := by
  fun_induction drainAll tuning now r with
  | case1 r r' h => exact .done le_rfl h
  | case2 r x r' h xs r'' hrest ih =>
    rw [hrest] at ih
    exact .more le_rfl h ih

lemma delivers_deliverAt (now : ℕ) (r : ReceiveState ρ) (packets : List (PendingMediaPacket ρ)) :
    Delivers tuning now r packets (deliverAt tuning now r packets).1 := by
  induction packets generalizing r with
  | nil => exact .done
  | cons packet packets ih => exact .push le_rfl (drains_drainAll _ _) (ih _)

/-! ### One stream -/

/-- No other stream has sent anything. -/
def Only (ssrc : UInt32) (r : ReceiveState ρ) : Prop := ∀ x ∈ r.ssrc, x = ssrc

def stream (ssrc : UInt32) (r : ReceiveState ρ) : ReceiveSsrcState ρ :=
  (r.ssrc.lookup ssrc).getD {}

/-- `J` relates a reorder buffer to what it has handed out, and every call keeps it. -/
structure Keeps (tuning : ConnectionRuntimeTuning) (ssrc : UInt32)
    (packets : PendingMediaPacket ρ → Prop) (times : ℕ → Prop)
    (J : ReceiveSsrcState ρ → List (Output ρ) → Prop) : Prop where
  push : ∀ {s outs packet now}, packets packet → times now → J s outs →
    J (s.pushMediaPacket tuning packet now).2.2
      (outs ++ produced (s.pushMediaPacket tuning packet now).2.1)
  pop : ∀ {s outs}, J s outs →
    J s.popReadyBufferedFrame.2 (outs ++ produced s.popReadyBufferedFrame.1)
  expire : ∀ {s outs now}, times now → J s outs →
    J (s.expireMissingHead tuning ssrc now false).2 outs

/-- `J` holds of the only stream. -/
structure Holds (ssrc : UInt32) (J : ReceiveSsrcState ρ → List (Output ρ) → Prop)
    (r : ReceiveState ρ) (outs : List (Output ρ)) : Prop where
  only : Only ssrc r
  holds : J (stream ssrc r) outs

variable {ssrc : UInt32} {packets : PendingMediaPacket ρ → Prop} {times : ℕ → Prop}
  {J : ReceiveSsrcState ρ → List (Output ρ) → Prop} {r r' : ReceiveState ρ}
  {s : ReceiveSsrcState ρ} {outs xs ys : List (Output ρ)} {now : ℕ}

lemma Holds.of_insert (h : Only ssrc r) (hr : r'.ssrc = r.ssrc.insert ssrc s) (hs : J s outs) :
    Holds ssrc J r' outs where
  only x hx := by
    rw [hr, AList.mem_insert] at hx
    exact hx.elim id (h x)
  holds := by
    rw [stream, hr, AList.lookup_insert]
    exact hs

lemma Holds.push (h : Holds ssrc J r outs) (hk : Keeps tuning ssrc packets times J)
    {packet : PendingMediaPacket ρ} (hpacket : packets packet) (hssrc : packet.rtp.ssrc = ssrc)
    (hnow : times now) :
    Holds ssrc J (r.pushMediaPacket tuning packet now).2
      (outs ++ produced (r.pushMediaPacket tuning packet now).1) := by
  subst hssrc
  exact .of_insert h.only (ssrc_update _ _ _) (hk.push hpacket hnow h.holds)

lemma stream_of_lookup {x : UInt32} (h : Only ssrc r) (hs : r.ssrc.lookup x = some s) :
    x = ssrc ∧ stream ssrc r = s := by
  obtain rfl := h x (AList.lookup_isSome.mp (hs ▸ rfl))
  exact ⟨rfl, by rw [stream, hs, Option.getD_some]⟩

/-- What a round hands out. -/
def roundOutput : ReceiveState.Round ρ → List (Output ρ)
  | .returns x _ => x.toList
  | .continues _ => []

@[simp] lemma roundOutput_ofResult (r : ReceiveState ρ)
    (result : Except RtpError (Option (PendingMediaFrame ρ))) :
    roundOutput (.ofResult r result) = produced result := by
  rcases result with _ | _ | _ <;> rfl

/-- One round of the loop. -/
lemma Holds.steps {round : ReceiveState.Round ρ} (h : Holds ssrc J r outs)
    (hk : Keeps tuning ssrc packets times J) (hnow : times now)
    (hsteps : Steps tuning now r.ssrc round) :
    Holds ssrc J round.state (outs ++ roundOutput round) := by
  cases hsteps with
  | idle hr =>
    rw [roundOutput, Option.toList_none, List.append_nil]
    exact ⟨fun x hx => h.only x (hr ▸ hx), by
      rw [ReceiveState.Round.state, stream, hr]
      exact h.holds⟩
  | pop hs hready hr =>
    obtain ⟨rfl, hstream⟩ := stream_of_lookup h.only hs
    rw [state_ofResult, roundOutput_ofResult]
    exact .of_insert h.only hr (hk.pop (hstream ▸ h.holds))
  | expire hs hdeadline hle hr =>
    obtain ⟨rfl, hstream⟩ := stream_of_lookup h.only hs
    rw [roundOutput, List.append_nil]
    exact .of_insert h.only hr (hk.expire hnow (hstream ▸ h.holds))

lemma Holds.drain {x : Option (Output ρ)} (h : Holds ssrc J r outs)
    (hk : Keeps tuning ssrc packets times J) (hnow : times now)
    (hdrain : r.drainOrderedMedia tuning now = (x, r')) : Holds ssrc J r' (outs ++ x.toList) := by
  fun_induction ReceiveState.drainOrderedMedia tuning now r with
  | case1 r result r₁ hround =>
    cases hdrain
    have hnext := h.steps hk hnow (drainRound_steps r now)
    rwa [hround] at hnext
  | case2 r r₁ hround ih =>
    have hnext := h.steps hk hnow (drainRound_steps r now)
    rw [hround, roundOutput, List.append_nil] at hnext
    exact ih hnext hdrain

lemma Holds.drains {t t' : ℕ} (h : Holds ssrc J r outs) (hk : Keeps tuning ssrc packets times J)
    (htimes : ∀ t, times t) (hdrains : Drains tuning t r xs t' r') :
    Holds ssrc J r' (outs ++ xs) := by
  induction hdrains generalizing outs with
  | done _ hdrain => exact h.drain hk (htimes _) hdrain
  | more _ hdrain _ ih =>
    have hnext := ih (h.drain hk (htimes _) hdrain)
    rwa [Option.toList_some, List.append_assoc] at hnext

/-- **Runs of one stream.** What every call keeps holds after every run. -/
theorem Holds.delivers {t : ℕ} {ps : List (PendingMediaPacket ρ)} (h : Holds ssrc J r outs)
    (hk : Keeps tuning ssrc packets times J) (htimes : ∀ t, times t)
    (hpackets : ∀ p ∈ ps, packets p ∧ p.rtp.ssrc = ssrc) (hrun : Delivers tuning t r ps xs) :
    ∃ s, J s (outs ++ xs) := by
  induction hrun generalizing outs with
  | done => exact ⟨_, by rw [List.append_nil]; exact h.holds⟩
  | @push _ t' _ _ _ _ _ _ _ _ hdrains _ ih =>
    obtain ⟨hp, hps⟩ := List.forall_mem_cons.mp hpackets
    have hpush := h.push hk hp.1 hp.2 (htimes t')
    have hnext := ih (hpush.drains hk htimes hdrains) hps
    rwa [List.append_assoc, List.append_assoc] at hnext
  | wake hdrains _ ih =>
    have hnext := ih (h.drains hk htimes hdrains) hpackets
    rwa [List.append_assoc] at hnext

lemma holds_new (order : HashOrder UInt32) (h : J {} []) : Holds ssrc J (.new order) [] :=
  ⟨fun x hx => absurd hx (by simp [ReceiveState.new]), h⟩

end Cacophony.Streams
