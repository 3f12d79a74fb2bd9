import Cacophony.PumpMoves

/-!
How far a pump comes with the lists of the gateway state.

The gateway state lists the proposals payloads and holds the last commit and welcome. The
coordinator remembers what it has taken of them by a counter and by copies of the messages, and
forgets both when it follows a new prepared epoch. `Progress` is what remains of a pump when
everything else is left out, and a pump that succeeds is a function of it.
-/

namespace Cacophony.PumpProgress

open Progs Gateway Coordinator PumpMoves

/-! ### What a pump hands over -/

def payload? : Action → Option Bytes
  | .processProposals p _ => some p
  | _ => none

def message? : Action → Option PendingDaveMlsMessage
  | .processMls m _ => some m
  | _ => none

/-- The progress of a pump: the fields of the coordinator that remember it, and what the pump
has handed to the session so far. -/
structure Progress where
  externalSenderSet : Bool
  processedProposals : ℕ
  processedMls : DaveMlsSlots PendingDaveMlsMessage
  preparedEpoch : Option DavePreparedEpoch
  payloads : List Bytes
  messages : List PendingDaveMlsMessage

variable {σ ε α : Type}

def progress (w : Pump σ) : Progress where
  externalSenderSet := w.coord.externalSenderSet
  processedProposals := w.coord.processedProposals
  processedMls := w.coord.processedMls
  preparedEpoch := w.coord.preparedEpoch
  payloads := w.actions.filterMap payload?
  messages := w.actions.filterMap message?

/-- The progress does not see a change of other parts. -/
lemma progress_change {S : Session σ ε} {part : Part} {w w' : Pump σ} (hc : Change S part w w')
    (hpart : part ∈ [.mode, .sender, .unready, .ready, .keyPackage, .commands]) :
    progress w' = progress w := by
  cases hc with
  | setMode | activate | createKeyPackage => simp [progress, after, payload?, message?]
  | applied | unready | ready | sent | push => rfl
  | _ => simp at hpart

lemma keeps_of_makes {S : Session σ ε} {x : PumpM σ ε α} {parts : List Part}
    (hx : Makes (Touches S parts) x)
    (hparts : parts ⊆ [.mode, .sender, .unready, .ready, .keyPackage, .commands]) :
    Keeps progress x :=
  hx.keeps fun _ _ ⟨_, hpart, hc⟩ => progress_change hc (hparts hpart)

lemma keeps_activateExecuted (S : Session σ ε) (dave : DaveInternalState) :
    Keeps progress (activateSenderIfTransitionExecuted S dave) :=
  keeps_of_makes (makes_activateExecuted S dave) (by decide)

lemma keeps_markTransitionReady (S : Session σ ε) (t v : Option UInt16) :
    Keeps progress (markTransitionReady S t v) :=
  keeps_of_makes (makes_markTransitionReady S t v) (by decide)

lemma keeps_setPassthroughMode (S : Session σ ε) (mode : PassthroughMode) :
    Keeps progress (setPassthroughMode S mode) :=
  keeps_of_makes (makes_setPassthroughMode S mode) (by decide)

/-- A call that hands nothing over. -/
lemma keeps_call {f : σ → α × σ} {action : α → Action} (hp : ∀ r, payload? (action r) = none)
    (hm : ∀ r, message? (action r) = none) : Keeps progress (call f action : PumpM σ ε α) :=
  moves_modifyGet fun w => by simp [progress, hp, hm]

lemma keeps_orThrow (wrap : ε → DaveError ε) (r : Except ε α) :
    Keeps progress (orThrow wrap r : PumpM σ ε α) := by
  cases r with
  | ok a => exact keeps_pure a
  | error e => exact moves_throw _

/-! ### The progress of a pump -/

/-- What `sync_prepared_epoch` does to the progress, apart from the external sender. -/
def Progress.sync (dave : DaveInternalState) (v : Progress) : Progress :=
  if v.preparedEpoch = DavePreparedEpoch.fromState dave then v
  else
    match DavePreparedEpoch.fromState dave with
    | none => { v with preparedEpoch := none }
    | some p => { v with
        processedProposals := 0, processedMls := {}, preparedEpoch := some p }

/-- The body of the loop over the pending messages. -/
def Progress.take (v : Progress) (m : PendingDaveMlsMessage) : Progress :=
  if v.processedMls.get m.identity.kind = some m then v
  else { v with processedMls := v.processedMls.setMessage m, messages := v.messages ++ [m] }

/-- The part of the progress behind the external sender. -/
def Progress.group (dave : DaveInternalState) (roster : Bool) (v : Progress) : Progress :=
  let start := if dave.proposals.length < v.processedProposals then 0 else v.processedProposals
  if start < dave.proposals.length ∧ ¬ roster then { v with processedProposals := start }
  else
    dave.pendingMls.welcomeThenCommit.foldl Progress.take { v with
      payloads := v.payloads ++ dave.proposals.drop start
      processedProposals := dave.proposals.length }

/-- A whole pump; `b` says whether the session has the external sender when it is asked. -/
def Progress.pump (dave : DaveInternalState) (roster b : Bool) (v : Progress) : Progress :=
  let v := { v.sync dave with externalSenderSet := b }
  if dave.protocolVersion.getD 0 = 0 ∨ b = false then v else v.group dave roster

section Spec

variable (S : Session σ ε) (dave : DaveInternalState)

lemma moves_replaceSession (n : UInt16) :
    Moves progress (replaceSession S n) fun v v' => v' = { v with externalSenderSet := false } := by
  unfold replaceSession
  split
  · exact moves_throw _
  · refine (keeps_call (fun _ => rfl) fun _ => rfl).bind fun r => ?_
    exact (keeps_orThrow _ r).bind fun _ => moves_modify fun _ => rfl

lemma moves_setExternalSender (p : Bytes) :
    Moves progress (setExternalSender S p)
      fun v v' => v' = { v with externalSenderSet := true } := by
  refine (keeps_call (fun _ => rfl) fun _ => rfl).bind fun r => ?_
  exact (keeps_orThrow _ r).bind fun _ => moves_modify fun _ => rfl

/-- Following a new prepared epoch forgets what was processed; the session may be replaced. -/
lemma moves_forget (p : DavePreparedEpoch) (c : Prop) [Decidable c] :
    Moves progress (do
      update fun c => { c with
        sentKeyPackageFor := none, processedProposals := 0, processedMls := {} }
      if c then
        update fun c => { c with transitionReady := none }
        replaceSession S p.protocolVersion
      else pure () : PumpM σ ε Unit) fun v v' =>
      ∃ b, v' = { v with processedProposals := 0, processedMls := {}, externalSenderSet := b } := by
  refine Moves.bind (moves_modify (R := fun v v' : Progress =>
    v' = { v with processedProposals := 0, processedMls := {} }) fun _ => rfl)
    (U := fun v v' => ∃ b, v' = { v with externalSenderSet := b }) (fun _ => ?_) ?_
  · split
    · refine Keeps.bind (moves_modify fun _ => rfl) fun _ => ?_
      exact (moves_replaceSession S _).mono fun v v' hv => ⟨false, hv⟩
    · exact (keeps_pure _).mono fun v v' hv => ⟨v.externalSenderSet, hv⟩
  · rintro u v v' rfl ⟨b, rfl⟩
    exact ⟨b, rfl⟩

/-- Only a new prepared epoch replaces the session, and then the counter is `0`. -/
lemma moves_sync :
    Moves progress (syncPreparedEpoch S dave) fun v v' =>
      ∃ b, v' = { v.sync dave with externalSenderSet := b } ∧
        (b = v.externalSenderSet ∨ (v.sync dave).processedProposals = 0) := by
  refine moves_get_bind fun w => ?_
  dsimp only
  split
  next hsame =>
    refine (keeps_pure _).mono fun v v' hv' hv => ⟨v.externalSenderSet, ?_, .inl rfl⟩
    have hp : v.preparedEpoch = DavePreparedEpoch.fromState dave := by
      rw [hv]
      exact hsame
    rw [hv', Progress.sync, if_pos hp]
  next hne =>
    have hnew {v : Progress} (hv : v = progress w) :
        v.preparedEpoch ≠ DavePreparedEpoch.fromState dave := by
      rw [hv]
      exact hne
    rcases hp : DavePreparedEpoch.fromState dave with _ | p
    · refine (keeps_pure _).bind fun _ => moves_modify fun w' hv => ?_
      refine ⟨w'.coord.externalSenderSet, ?_, .inl rfl⟩
      rw [Progress.sync, if_neg (hnew hv), hp]
      rfl
    · refine Moves.bind (moves_forget S p _) (fun _ => moves_modify
        (R := fun v v' : Progress => v' = { v with preparedEpoch := some p }) fun _ => rfl) ?_
      rintro u v v' ⟨b, rfl⟩ rfl hu
      refine ⟨b, ?_, .inr ?_⟩
      · rw [Progress.sync, if_neg (hnew hu), hp]
      · rw [Progress.sync, if_neg (hnew hu), hp]

lemma moves_processProposals (users : Finset UInt64) (payload : Bytes) :
    Moves progress (processProposals S users payload) fun v v' =>
      v' = { v with
        payloads := v.payloads ++ [payload], processedProposals := v.processedProposals + 1 } := by
  unfold processProposals
  split
  · exact moves_throw _
  · refine Moves.bind (U := fun v v' : Progress =>
      v' = { v with processedProposals := v.processedProposals + 1 })
      (moves_modifyGet (R := fun v v' : Progress =>
        v' = { v with payloads := v.payloads ++ [payload] }) fun w => ?_) (fun r => ?_) ?_
    · simp [progress, payload?, message?]
    · refine Keeps.bind (Keeps.optionForM _ fun cw => moves_modify fun _ => rfl) fun _ => ?_
      exact moves_modify fun _ => rfl
    · rintro u v v' rfl rfl
      rfl

lemma moves_proposals (users : Finset UInt64) (xs : List Bytes) :
    Moves progress (xs.forM (processProposals S users)) fun v v' =>
      v' = { v with
        payloads := v.payloads ++ xs, processedProposals := v.processedProposals + xs.length } := by
  refine (moves_forM (moves_processProposals S users) xs).mono fun v v' hv => ?_
  rw [hv]
  clear hv v'
  induction xs generalizing v with
  | nil => simp
  | cons x xs ih =>
    rw [List.foldl_cons, ih]
    simp [Nat.add_comm, Nat.add_left_comm]

/-- A message that is rejected fails the pump. -/
lemma moves_processMlsMessage (m : PendingDaveMlsMessage) :
    Moves progress (processMlsMessage S dave m) fun v v' => v' = v.take m := by
  refine moves_get_bind fun w => ?_
  split
  next hsame =>
    refine (keeps_pure _).mono fun v v' hv' hv => ?_
    rw [hv', hv, Progress.take]
    exact (if_pos hsame).symm
  next hne =>
    have hhand : Moves progress (handMls S m) fun v v' =>
        v' = { v with messages := v.messages ++ [m] } := by
      unfold handMls
      split <;> exact moves_modifyGet fun w => by simp [progress, payload?, message?]
    refine hhand.bind (fun r => Moves.bind (moves_modify (R := fun v v' : Progress =>
      v' = { v with processedMls := v.processedMls.setMessage m }) fun _ => rfl)
      (U := fun v v' => v' = v) (fun _ => ?_) fun u v v' h h' => h'.trans h) ?_
    · cases r with
      | ok => exact keeps_markTransitionReady S _ _
      | error e =>
        refine moves_any.bind (U := fun _ _ => False) (fun _ => ?_) fun _ _ _ _ h => h.elim
        refine moves_any.bind (fun _ => ?_) fun _ _ _ _ h => h
        exact moves_any.bind (fun _ => moves_throw e) fun _ _ _ _ (h : False) => h
    · rintro u v v' rfl rfl hu
      rw [hu, Progress.take]
      exact (if_neg hne).symm

lemma moves_pumpGroup (users : Finset UInt64) (roster : Bool) :
    Moves progress (pumpGroup S dave users roster) fun v v' => v' = v.group dave roster := by
  refine (keeps_activateExecuted S dave).bind fun _ => ?_
  refine Moves.bind (T := fun v v' : Progress => v' = { v with processedProposals :=
      if dave.proposals.length < v.processedProposals then 0 else v.processedProposals })
    (U := fun v v' => v.processedProposals ≤ dave.proposals.length →
      v' = if v.processedProposals < dave.proposals.length ∧ ¬ roster then v
        else dave.pendingMls.welcomeThenCommit.foldl Progress.take { v with
          payloads := v.payloads ++ dave.proposals.drop v.processedProposals
          processedProposals := dave.proposals.length })
    (moves_modify fun w => ?_) (fun _ => moves_get_bind fun w => ?_) ?_
  · unfold progress
    dsimp only
    split <;> rfl
  · split
    next hwait =>
      refine (keeps_pure _).mono fun v v' hv' hv _ => ?_
      rw [hv', hv]
      exact (if_pos hwait).symm
    next hgo =>
      refine Moves.bind (moves_proposals S users _) (fun _ =>
        Moves.bind (moves_forM (moves_processMlsMessage S dave) _) (fun _ =>
          (keeps_of_makes (makes_activateZeroReady S dave) (by decide)).bind fun _ =>
            keeps_activateExecuted S dave)
          fun _ _ _ h h' => h'.trans h) ?_
      rintro u v v' rfl rfl hu hle
      rw [hu] at hle ⊢
      have hgo' : ¬ ((progress w).processedProposals < dave.proposals.length ∧ ¬ roster) := hgo
      rw [if_neg hgo', List.length_drop]
      have hlen : (progress w).processedProposals +
          (dave.proposals.length - w.coord.processedProposals) = dave.proposals.length :=
        Nat.add_sub_cancel' hle
      rw [hlen]
      rfl
  · rintro u v v' rfl hv
    refine (hv ?_).trans rfl
    dsimp only
    split <;> omega

/-- **The progress of a pump that succeeds.** -/
theorem moves_pump (users : Finset UInt64) (roster : Bool) :
    Moves progress (pump S dave users roster) fun v v' =>
      ∃ b, v' = v.pump dave roster b ∧
        (b = false → v.externalSenderSet = false ∨ (v.sync dave).processedProposals = 0) := by
  refine (moves_sync S dave).bind (U := fun v v' => ∃ b, (b = false → v.externalSenderSet = false) ∧
    v' = if dave.protocolVersion.getD 0 = 0 ∨ b = false then { v with externalSenderSet := b }
      else Progress.group dave roster { v with externalSenderSet := b }) (fun _ => ?_) ?_
  · refine (keeps_activateExecuted S dave).bind fun _ => ?_
    split
    next hzero =>
      refine (keeps_setPassthroughMode S _).bind fun _ => ?_
      refine (keeps_markTransitionReady S _ _).mono fun v v' hv => ?_
      exact ⟨v.externalSenderSet, id, by rw [if_pos (.inl hzero), hv]⟩
    next hdave =>
      refine (keeps_setPassthroughMode S _).bind fun _ => moves_get_bind fun w => ?_
      refine Moves.bind (T := fun v v' : Progress => v = progress w →
          ∃ b, (b = false → v.externalSenderSet = false) ∧ v' = { v with externalSenderSet := b })
        (U := fun v v' => v' = if v.externalSenderSet = false then v else v.group dave roster) ?_
        (fun _ => moves_get_bind fun w => Keeps.bind (Keeps.optionForM _ fun scope => ?_) fun _ =>
          moves_get_bind fun w => ?_) ?_
      · rcases dave.externalSender with _ | sender
        · exact (keeps_pure _).mono fun v v' hv _ => ⟨v.externalSenderSet, id, hv⟩
        · change Moves progress (if w.coord.externalSenderSet then pure ()
            else setExternalSender S sender) _
          split
          · exact (keeps_pure _).mono fun v v' hv _ => ⟨v.externalSenderSet, id, hv⟩
          · exact (moves_setExternalSender S sender).mono fun v v' hv _ => ⟨true, by simp, hv⟩
      · split
        · exact keeps_pure _
        · exact keeps_of_makes (makes_sendKeyPackage S scope) (by decide)
      · split
        next hset =>
          refine (moves_pumpGroup S dave users roster).mono fun v v' hv' hv hv₀ => ?_
          rw [hv', if_neg]
          rw [hv]
          exact fun hfalse => absurd (hset.symm.trans hfalse) (by decide)
        next hunset =>
          refine (keeps_pure _).mono fun v v' hv' hv _ => ?_
          rw [hv', if_pos]
          rw [hv]
          exact Bool.eq_false_of_not_eq_true hunset
      · intro u v v' hv hv' hu
        obtain ⟨b, hb, rfl⟩ := hv hu
        refine ⟨b, hb, ?_⟩
        rw [hv']
        simp only [hdave, false_or]
  · rintro u v v' ⟨b, rfl, hb⟩ ⟨c, hc, rfl⟩
    refine ⟨c, rfl, fun hcf => ?_⟩
    rcases hb with rfl | hb
    · exact .inl (hc hcf)
    · exact .inr hb

end Spec

/-! ### The loop over the pending messages -/

section Take

variable (v : Progress) (m : PendingDaveMlsMessage) (ms : List PendingDaveMlsMessage)

/-- The loop touches nothing but the messages. -/
lemma foldl_take : ∃ messages processedMls,
    ms.foldl Progress.take v = { v with messages := messages, processedMls := processedMls } := by
  induction ms generalizing v with
  | nil => exact ⟨_, _, rfl⟩
  | cons m ms ih =>
    obtain ⟨messages, processedMls, heq⟩ := ih (v.take m)
    refine ⟨messages, processedMls, heq.trans ?_⟩
    unfold Progress.take
    split <;> rfl

lemma get_set {α : Type} (s : DaveMlsSlots α) (kind kind' : DaveMlsMessageKind) (x : α) :
    (s.set kind x).get kind' = if kind' = kind then some x else s.get kind' := by
  cases kind <;> cases kind' <;> rfl

lemma get_processedMls_take (kind : DaveMlsMessageKind) :
    (v.take m).processedMls.get kind =
      if kind = m.identity.kind then some m else v.processedMls.get kind := by
  unfold Progress.take
  split
  next hsame =>
    split
    next hkind => rw [hkind, hsame]
    next => rfl
  next => exact get_set _ _ _ _

variable {v ms}

/-- Messages of other kinds do not matter. -/
lemma get_processedMls_foldl_take {kind : DaveMlsMessageKind}
    (h : ∀ m ∈ ms, m.identity.kind ≠ kind) :
    (ms.foldl Progress.take v).processedMls.get kind = v.processedMls.get kind := by
  induction ms generalizing v with
  | nil => rfl
  | cons m ms ih =>
    rw [List.foldl_cons, ih fun b hb => h b (List.mem_cons_of_mem m hb), get_processedMls_take,
      if_neg (h m List.mem_cons_self).symm]

/-- All kinds differ. -/
def OfKinds (ms : List PendingDaveMlsMessage) : Prop :=
  ms.Pairwise fun m m' => m'.identity.kind ≠ m.identity.kind

/-- The loop has processed all messages. -/
lemma foldl_take_processed (h : OfKinds ms) {m : PendingDaveMlsMessage} (hm : m ∈ ms) :
    (ms.foldl Progress.take v).processedMls.get m.identity.kind = some m := by
  induction ms generalizing v with
  | nil => exact absurd hm List.not_mem_nil
  | cons a ms ih =>
    obtain ⟨ha, hms⟩ := List.pairwise_cons.mp h
    rcases List.mem_cons.mp hm with rfl | hm
    · rw [List.foldl_cons, get_processedMls_foldl_take ha, get_processedMls_take, if_pos rfl]
    · exact ih hms hm

/-- It hands over those that were not processed before. -/
lemma foldl_take_messages (h : OfKinds ms) :
    (ms.foldl Progress.take v).messages = v.messages ++
      ms.filter fun m => v.processedMls.get m.identity.kind ≠ some m := by
  induction ms generalizing v with
  | nil => simp
  | cons m ms ih =>
    obtain ⟨hm, hms⟩ := List.pairwise_cons.mp h
    have hrest : ms.filter (fun b => (v.take m).processedMls.get b.identity.kind ≠ some b) =
        ms.filter fun b => v.processedMls.get b.identity.kind ≠ some b := by
      refine List.filter_congr fun b hb => ?_
      rw [get_processedMls_take, if_neg (hm b hb)]
    rw [List.foldl_cons, ih hms, hrest]
    by_cases hsame : v.processedMls.get m.identity.kind = some m
    · rw [Progress.take, if_pos hsame, List.filter_cons_of_neg (by simpa using hsame)]
    · rw [Progress.take, if_neg hsame, List.filter_cons_of_pos (by simpa using hsame)]
      simp

/-- The messages of the slots lie under their own kinds. -/
def Filed (s : DaveMlsSlots PendingDaveMlsMessage) : Prop :=
  ∀ kind m, s.get kind = some m → m.identity.kind = kind

lemma Filed.ofKinds {s : DaveMlsSlots PendingDaveMlsMessage} (h : Filed s) :
    OfKinds s.welcomeThenCommit := by
  rcases s with ⟨_ | c, _ | w⟩
  · exact .nil
  · exact List.pairwise_singleton _ _
  · exact List.pairwise_singleton _ _
  · have hc := h .commit c rfl
    have hw := h .welcome w rfl
    refine List.pairwise_pair.mpr ?_
    rw [hc, hw]
    decide

end Take

end Cacophony.PumpProgress
