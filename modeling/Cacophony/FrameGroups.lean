import Cacophony.FramePackets
import Cacophony.InOrder

/-!
Frames on a lossy way.

The packets of the frames are numbered one after the other. When only the first packet of a frame
can start one, whatever gets lost, comes late or comes twice, a frame is handed out only if all of
its packets came, and in its place.
-/

namespace Cacophony.FrameGroups

open FrameCodecs Transport RtpPayload Assembler
open Deadlines FramePackets Streams

variable {ρ : Type} {codec : Codec} {a : RtpFrameAssembler ρ} {p q : PendingMediaPacket ρ}

/-- The frames among the outputs. -/
def frames (outs : List (Output ρ)) : List (PendingMediaFrame ρ) := outs.filterMap (·.toOption)

lemma frames_append (xs ys : List (Output ρ)) : frames (xs ++ ys) = frames xs ++ frames ys :=
  List.filterMap_append

/-! ### Frames that a packet does not belong to -/

/-- The packet neither goes on with the frame nor ends it. -/
def Dead (h : PartialRtpFrame ρ) (q : PendingMediaPacket ρ) : Prop :=
  h.acceptsNext q = false ∧ h.shouldCompleteBefore q = false

/-- No frame is completed, and one that has begun is none of the packet's. -/
def Clear (a : RtpFrameAssembler ρ) (q : PendingMediaPacket ρ) : Prop :=
  a.completed = [] ∧ ∀ h, a.partialFrame = some h → Dead h q

lemma Clear.settle (h : Clear a q) : a.settle q = {} ∨ a.settle q = a := by
  obtain ⟨_ | f, completed⟩ := a
  · obtain rfl : completed = [] := h.1
    exact .inl rfl
  · obtain rfl : completed = [] := h.1
    obtain ⟨haccept, hcomplete⟩ := h.2 f rfl
    rcases hmatch : f.matchesContext q with _ | _
    · exact .inr (by simp [RtpFrameAssembler.settle, hcomplete, hmatch])
    · exact .inl (by simp [RtpFrameAssembler.settle, hcomplete, haccept, hmatch])

/-- With no frame to go on with, a payload starts a frame, is one, or changes nothing. -/
lemma append_fresh (hcompleted : a.completed = []) (q : PendingMediaPacket ρ)
    (payload : ParsedRtpPayload) :
    (a.append q false payload).1 = (RtpFrameAssembler.append {} q false payload).1 ∧
      ((∃ f, RtpFrameAssembler.append {} q false payload = (.ok none, ⟨some f, []⟩) ∧
          (a.append q false payload).2 = ⟨some f, []⟩) ∨
        (RtpFrameAssembler.append {} q false payload).2 = {} ∧
          (a.append q false payload).2 = a) := by
  obtain ⟨f, completed⟩ := a
  obtain rfl : completed = [] := hcompleted
  obtain ⟨⟨_ | _, completes⟩, payload⟩ := payload
  · exact ⟨rfl, .inr ⟨rfl, rfl⟩⟩
  · unfold RtpFrameAssembler.append
    simp only [Bool.not_false, Bool.not_true, Bool.and_false, Bool.false_eq_true, if_false,
      Option.isSome_none, Option.getD_none]
    rcases appendDepacketized payload (PartialRtpFrame.new q).encryptedFrame with error | bytes
    · exact ⟨rfl, .inr ⟨rfl, rfl⟩⟩
    · cases completes with
      | false => exact ⟨rfl, .inl ⟨_, rfl, rfl⟩⟩
      | true => exact ⟨rfl, .inr ⟨rfl, rfl⟩⟩

/-- What a packet does when no frame that has begun is its own: what it does to an empty
assembler. -/
structure Afresh (a : RtpFrameAssembler ρ) (q : PendingMediaPacket ρ) : Prop where
  result : (a.pushPacket q).1 = (RtpFrameAssembler.pushPacket {} q).1
  state : (∃ f, RtpFrameAssembler.pushPacket {} q = (.ok none, ⟨some f, []⟩) ∧
      (a.pushPacket q).2 = ⟨some f, []⟩) ∨
    (RtpFrameAssembler.pushPacket {} q).2 = {} ∧
      ((a.pushPacket q).2 = {} ∨ (a.pushPacket q).2 = a)

lemma Clear.afresh (h : Clear a q) : Afresh a q := by
  have hsettle : RtpFrameAssembler.settle {} q = {} := rfl
  have hnot : ((a.settle q).partialFrame.any fun f => f.acceptsNext q) = false := by
    rcases h.settle with hs | hs
    · rw [hs]
      rfl
    · rw [hs, Option.any_eq_false]
      intro f hf
      rw [(h.2 f hf).1]
  have hcompleted : (a.settle q).completed = [] := by
    rcases h.settle with hs | hs
    · rw [hs]
    · rw [hs, h.1]
  refine ⟨?_, ?_⟩
  · rw [RtpFrameAssembler.pushPacket, RtpFrameAssembler.pushPacket, hsettle]
    dsimp only
    rw [hnot, Option.any_none]
    rcases ParsedRtpPayload.parse q.codec q.encryptedPayload q.rtp.marker false with error | payload
    · rfl
    · exact (append_fresh hcompleted q payload).1
  · rw [RtpFrameAssembler.pushPacket, RtpFrameAssembler.pushPacket, hsettle]
    dsimp only
    rw [hnot, Option.any_none]
    rcases ParsedRtpPayload.parse q.codec q.encryptedPayload q.rtp.marker false with error | payload
    · exact .inr ⟨rfl, h.settle⟩
    · rcases (append_fresh hcompleted q payload).2 with hopens | ⟨hempty, hsame⟩
      · exact .inl hopens
      · refine .inr ⟨hempty, ?_⟩
        dsimp only
        rw [hsame]
        exact h.settle

/-- A packet that starts no frame without completing it leaves none begun. -/
lemma pushPacket_closed (h : ∀ payload, ParsedRtpPayload.parse q.codec q.encryptedPayload
      q.rtp.marker false ≠ .ok ⟨⟨true, false⟩, payload⟩) :
    (RtpFrameAssembler.pushPacket {} q).2 = {} := by
  have hsettle : RtpFrameAssembler.settle {} q = {} := rfl
  rw [RtpFrameAssembler.pushPacket, hsettle]
  dsimp only
  rw [Option.any_none]
  rcases hparse : ParsedRtpPayload.parse q.codec q.encryptedPayload q.rtp.marker false with
    error | ⟨⟨_ | _, _ | _⟩, payload⟩
  · rfl
  · rfl
  · rfl
  · exact absurd hparse (h payload)
  · unfold RtpFrameAssembler.append
    simp only [Bool.not_false, Bool.not_true, Bool.and_false, Bool.false_eq_true, if_false,
      Option.isSome_none, Option.getD_none]
    rcases appendDepacketized payload (PartialRtpFrame.new q).encryptedFrame with error | bytes
    · rfl
    · rfl

/-! ### Groups -/

/-- An empty assembler drops the packet. -/
def Inert (q : PendingMediaPacket ρ) : Prop :=
  (RtpFrameAssembler.pushPacket {} q).2 = {} ∧
    frames (produced (RtpFrameAssembler.pushPacket {} q).1) = []

/-- The packets belong to one stream and one instant. -/
def Uniform (qs : List (PendingMediaPacket ρ)) : Prop :=
  ∀ p ∈ qs, ∀ q ∈ qs, p.rtp.ssrc = q.rtp.ssrc ∧ p.dave = q.dave ∧ p.rtp.timestamp = q.rtp.timestamp

instance (qs : List (PendingMediaPacket ρ)) : Decidable (Uniform qs) :=
  inferInstanceAs (Decidable (∀ p ∈ qs, ∀ q ∈ qs, _ ∧ _ ∧ _))

/-- The packets of a frame of which only the first can start one, or a packet that never leaves a
frame begun. `content` is what is known of the bytes. -/
inductive Group (codec : Codec) : List (PendingMediaPacket ρ) → (Bytes → Prop) → Prop
  | sole {xs : List (Bytes × Bool)} {bytes : Bytes} {qs : List (PendingMediaPacket ρ)}
      {content : Bytes → Prop} (hxs : Sole codec xs bytes)
      (hqs : List.Forall₂ (Bears codec) xs qs) (hcoherent : codec = .av1 → Uniform qs)
      (hcontent : content bytes) : Group codec qs content
  | alone {q : PendingMediaPacket ρ} {content : Bytes → Prop}
      (hq : (RtpFrameAssembler.pushPacket {} q).2 = {})
      (hcontent : ∀ f, (RtpFrameAssembler.pushPacket {} q).1 = .ok (some f) →
        content f.encryptedFrame) : Group codec [q] content

variable {qs : List (PendingMediaPacket ρ)} {content : Bytes → Prop}

lemma Group.ne_nil (h : Group codec qs content) : qs ≠ [] := by
  cases h with
  | sole hxs hqs _ _ =>
    rintro rfl
    cases hqs
    cases hxs.carries
  | alone => exact List.cons_ne_nil _ _

lemma inert_of_stuck {x : Bytes × Bool} (hx : Stuck codec x) (hq : Bears codec x q) : Inert q := by
  obtain ⟨starts, completes, piece, hreads, hstarts⟩ := hx
  obtain ⟨payload, hparse, -⟩ := hreads false
  rw [← hq.parse, hstarts] at hparse
  have hpush : RtpFrameAssembler.pushPacket {} q = (.ok none, {}) := by
    have hsettle : RtpFrameAssembler.settle {} q = {} := rfl
    rw [RtpFrameAssembler.pushPacket, hsettle]
    dsimp only
    rw [Option.any_none, hparse]
    rfl
  rw [Inert, hpush]
  exact ⟨rfl, rfl⟩

lemma inert_of_forall_stuck {xs : List (Bytes × Bool)} (hxs : ∀ x ∈ xs, Stuck codec x)
    (hqs : List.Forall₂ (Bears codec) xs qs) : ∀ q ∈ qs, Inert q := by
  induction hqs with
  | nil => exact List.forall_mem_nil _
  | cons hq _ ih =>
    obtain ⟨hx, hxs⟩ := List.forall_mem_cons.mp hxs
    exact List.forall_mem_cons.mpr ⟨inert_of_stuck hx hq, ih hxs⟩

lemma Group.inert (h : Group codec qs content) : ∀ q ∈ qs.tail, Inert q := by
  cases h with
  | sole hxs hqs _ _ =>
    cases hqs with
    | nil => exact List.forall_mem_nil _
    | cons _ hrest => exact inert_of_forall_stuck hxs.stuck hrest
  | alone => exact List.forall_mem_nil _

/-! ### A frame that has begun -/

/-- The assembler holds `h`, made of the packets `ps` of a frame, and `qs` are the others. -/
structure Begun (codec : Codec) (content : Bytes → Prop) (ps qs : List (PendingMediaPacket ρ))
    (h : PartialRtpFrame ρ) : Prop where
  holds : fed {} ps = ⟨some h, []⟩
  silent : emitted {} ps = []
  codec_eq : h.codec = codec
  coherent : codec = .av1 → ∀ q ∈ qs, h.rtp.ssrc = q.rtp.ssrc ∧ h.dave = q.dave ∧
    h.rtp.timestamp = q.rtp.timestamp
  rest : ∃ xs bytes, Carries codec true xs bytes ∧ List.Forall₂ (Bears codec) xs qs ∧
    content (h.encryptedFrame ++ bytes)
  inert : ∀ q ∈ qs, Inert q

variable {ps : List (PendingMediaPacket ρ)} {h : PartialRtpFrame ρ}

/-- The first packet of a frame. -/
lemma Group.start (hqs : Group codec (q :: qs) content) :
    (∃ bytes, Begun codec content [q] qs ((PartialRtpFrame.new q).take q bytes) ∧
      RtpFrameAssembler.pushPacket {} q =
        (.ok none, ⟨some ((PartialRtpFrame.new q).take q bytes), []⟩)) ∨
    qs = [] ∧ (RtpFrameAssembler.pushPacket {} q).2 = {} ∧
      ∀ f, (RtpFrameAssembler.pushPacket {} q).1 = .ok (some f) → content f.encryptedFrame := by
  have hinert := hqs.inert
  cases hqs with
  | alone hq hcontent => exact .inr ⟨rfl, hq, hcontent⟩
  | sole hxs hbears hcoherent hcontent =>
    obtain ⟨hcarries, -⟩ := hxs
    cases hcarries with
    | last hx hstarts =>
      cases hbears with | cons hq hrest =>
      cases hrest
      obtain ⟨f, rfl, hpush⟩ := pushPacket_start hq hx hstarts
      rw [if_pos rfl] at hpush
      refine .inr ⟨rfl, congrArg Prod.snd hpush, fun f hf => ?_⟩
      rw [hpush] at hf
      cases hf
      exact hcontent
    | more hx hstarts hrest =>
      cases hbears with | cons hq hqs =>
      obtain ⟨f, rfl, hpush⟩ := pushPacket_start hq hx hstarts
      rw [if_neg Bool.false_ne_true] at hpush
      obtain ⟨hsilent, hfed⟩ := emitted_singleton hpush rfl
      refine .inl ⟨_, ⟨hfed, hsilent, hq.codec, ?_, ⟨_, _, hrest, hqs, hcontent⟩, hinert⟩, hpush⟩
      exact fun hav1 p hp => hcoherent hav1 q List.mem_cons_self p (List.mem_cons_of_mem _ hp)

lemma Begun.not_complete (hb : Begun codec content ps qs h) (hq : q ∈ qs) :
    h.shouldCompleteBefore q = false := by
  by_cases hav1 : codec = .av1
  · simp [PartialRtpFrame.shouldCompleteBefore, (hb.coherent hav1 q hq).2.2]
  · simp [PartialRtpFrame.shouldCompleteBefore, hb.codec_eq, hav1]

lemma Begun.step (hb : Begun codec content ps (q :: qs) h) (haccept : h.acceptsNext q = true) :
    (∃ bytes, Begun codec content (ps ++ [q]) qs (h.take q bytes) ∧
      RtpFrameAssembler.pushPacket ⟨some h, []⟩ q = (.ok none, ⟨some (h.take q bytes), []⟩)) ∨
    qs = [] ∧ ∃ f, RtpFrameAssembler.pushPacket ⟨some h, []⟩ q = (.ok (some f), {}) ∧
      content f.encryptedFrame := by
  have hcomplete := hb.not_complete List.mem_cons_self
  obtain ⟨xs, bytes, hcarries, hbears, hcontent⟩ := hb.rest
  cases hcarries with
  | last hx hstarts =>
    cases hbears with | cons hq hrest =>
    cases hrest
    obtain ⟨f, rfl, hpush⟩ := pushPacket_continue haccept hcomplete hq hx hstarts
    exact .inr ⟨rfl, _, hpush, hcontent⟩
  | more hx hstarts hrest =>
    cases hbears with | cons hq hqs =>
    obtain ⟨f, rfl, hpush⟩ := pushPacket_continue haccept hcomplete hq hx hstarts
    rw [if_neg Bool.false_ne_true] at hpush
    rw [← List.append_assoc] at hcontent
    obtain ⟨hsilent, hfed⟩ := emitted_singleton hpush rfl
    refine .inl ⟨_, ⟨?_, ?_, hb.codec_eq, ?_, ⟨_, _, hrest, hqs, hcontent⟩,
      (List.forall_mem_cons.mp hb.inert).2⟩, hpush⟩
    · rw [fed_append, hb.holds, hfed]
    · rw [emitted_append, hb.silent, hb.holds, hsilent]
      rfl
    · exact fun hav1 p hp => hb.coherent hav1 p (List.mem_cons_of_mem _ hp)

/-- The next packet of the same stream goes on with the frame. -/
lemma Begun.accepts (hb : Begun codec content ps (q :: qs) h) (hssrc : h.rtp.ssrc = q.rtp.ssrc)
    (hdave : h.dave = q.dave) (hseq : h.lastSeq + 1 = q.rtp.seq) : h.acceptsNext q = true := by
  obtain ⟨xs, bytes, -, hbears, -⟩ := hb.rest
  cases hbears with | cons hq hrest =>
  simp [PartialRtpFrame.acceptsNext, PartialRtpFrame.matchesContext, hssrc, hdave, hb.codec_eq,
    hq.codec, hseq]

lemma Begun.ne_nil (hb : Begun codec content ps qs h) : qs ≠ [] := by
  obtain ⟨xs, bytes, hcarries, hbears, -⟩ := hb.rest
  rintro rfl
  cases hbears
  cases hcarries

/-- Packets of a frame that come one after the other complete it. -/
lemma Begun.emits (hb : Begun codec content ps qs h)
    (hcontext : ∀ q ∈ qs, h.rtp.ssrc = q.rtp.ssrc ∧ h.dave = q.dave)
    (hnum : Numbered (h.lastSeq + 1) qs) : ∃ f, .ok f ∈ emitted {} (ps ++ qs) := by
  induction qs generalizing ps h with
  | nil => exact absurd rfl hb.ne_nil
  | cons q qs ih =>
    obtain ⟨⟨hssrc, hdave⟩, hcontext⟩ := List.forall_mem_cons.mp hcontext
    obtain ⟨hseq, hnum⟩ := numbered_cons.mp hnum
    rcases hb.step (hb.accepts hssrc hdave hseq) with ⟨bytes, hb', -⟩ | ⟨rfl, f, hpush, -⟩
    · rw [List.append_cons]
      rw [hseq] at hnum
      exact ih hb' hcontext hnum
    · refine ⟨f, ?_⟩
      rw [emitted_append, hb.holds, (emitted_singleton hpush rfl).1]
      exact List.mem_append_right _ (List.mem_singleton_self _)

lemma emits_of_sole {xs : List (Bytes × Bool)} {bytes : Bytes} (hxs : Sole codec xs bytes)
    (hqs : List.Forall₂ (Bears codec) xs qs) (huniform : Uniform qs) {first : UInt16}
    (hnum : Numbered first qs) : ∃ f, .ok f ∈ emitted {} qs := by
  have hgroup : Group codec qs (fun _ => True) := .sole hxs hqs (fun _ => huniform) trivial
  obtain ⟨q, qs, rfl⟩ := List.exists_cons_of_ne_nil hgroup.ne_nil
  obtain ⟨rfl, hnum⟩ := numbered_cons.mp hnum
  rcases hgroup.start with ⟨bytes, hb, -⟩ | ⟨rfl, hclosed, -⟩
  · refine hb.emits (fun p hp => ?_) hnum
    obtain ⟨hssrc, hdave, -⟩ := huniform q List.mem_cons_self p (List.mem_cons_of_mem _ hp)
    exact ⟨hssrc, hdave⟩
  · cases hqs with | cons hq hrest =>
    cases hrest
    cases hxs.carries with
    | last hx hstarts =>
      obtain ⟨f, -, hpush⟩ := pushPacket_start hq hx hstarts
      refine ⟨f.intoPending, ?_⟩
      rw [(emitted_singleton hpush rfl).1]
      exact List.mem_singleton_self _
    | more _ _ hcarries => cases hcarries

/-! ### Frame after frame -/

section

variable {γ : Type} (packets : γ → List (PendingMediaPacket ρ)) (content : γ → Bytes → Prop)
  (arrived : PendingMediaPacket ρ → Prop)

/-- The frame is what an empty assembler makes of the packets, and all of these arrived. -/
structure Emits (g : γ) (f : PendingMediaFrame ρ) : Prop where
  mem : .ok f ∈ emitted {} (packets g)
  content : content g f.encryptedFrame
  arrived : ∀ q ∈ packets g, arrived q

/-- The frames among the outputs are those of some of the groups, in their order. -/
def HandedOut (groups : List γ) (outs : List (Output ρ)) : Prop :=
  ∃ sub, sub.Sublist groups ∧ List.Forall₂ (Emits packets content arrived) sub (frames outs)

/-- Where the assembler is before packet `i`. -/
inductive Progress (codec : Codec) (first : UInt16) (groups : List γ) (i : ℕ)
    (a : RtpFrameAssembler ρ) (outs : List (Output ρ)) : Prop
  | idle {done todo : List γ} {qs : List (PendingMediaPacket ρ)}
      (hgroups : groups = done ++ todo)
      (hdrop : (groups.flatMap packets).drop i = qs ++ todo.flatMap packets)
      (hinert : ∀ q ∈ qs, Inert q) (hcompleted : a.completed = [])
      (hclear : ∀ q ∈ (groups.flatMap packets).drop i, Clear a q)
      (houts : HandedOut packets content arrived done outs)
  | busy {done todo : List γ} {g : γ} {ps qs : List (PendingMediaPacket ρ)}
      {h : PartialRtpFrame ρ} (hgroups : groups = done ++ g :: todo) (hg : packets g = ps ++ qs)
      (hdrop : (groups.flatMap packets).drop i = qs ++ todo.flatMap packets)
      (hb : Begun codec (content g) ps qs h) (ha : a = ⟨some h, []⟩)
      (hseq : h.lastSeq + 1 = number first i) (harrived : ∀ q ∈ ps, arrived q)
      (houts : HandedOut packets content arrived done outs)

end

variable {γ : Type} {packets : γ → List (PendingMediaPacket ρ)} {content : γ → Bytes → Prop}
  {arrived : PendingMediaPacket ρ → Prop} {first : UInt16} {groups done todo : List γ} {i : ℕ}
  {outs : List (Output ρ)} {qs P rest ps : List (PendingMediaPacket ρ)}

lemma clear_empty (q : PendingMediaPacket ρ) : Clear {} q := ⟨rfl, fun _ h => by cases h⟩

/-- The packet before which the assembler is. -/
lemma drop_eq_cons (hq : P[i]? = some q) (hdrop : P.drop i = rest) :
    rest = q :: P.drop (i + 1) := by
  obtain ⟨hlt, rfl⟩ := List.getElem?_eq_some_iff.mp hq
  rw [← hdrop, List.drop_eq_getElem_cons hlt]

/-- A packet that no frame goes on with leaves those after it where they were. -/
lemma Clear.later (hq : Clear a q) (hclosed : (RtpFrameAssembler.pushPacket {} q).2 = {})
    (hP : ∀ p ∈ P, Clear a p) :
    (a.pushPacket q).2.completed = [] ∧ ∀ p ∈ P, Clear (a.pushPacket q).2 p := by
  rcases hq.afresh.state with ⟨f, hopens, -⟩ | ⟨-, hstate | hstate⟩
  · rw [hopens] at hclosed
    cases hclosed
  · rw [hstate]
    exact ⟨rfl, fun p _ => clear_empty p⟩
  · rw [hstate]
    exact ⟨hq.1, hP⟩

lemma HandedOut.append (h : HandedOut packets content arrived done outs)
    {outs' : List (Output ρ)} (hnone : frames outs' = []) :
    HandedOut packets content arrived done (outs ++ outs') := by
  rwa [HandedOut, frames_append, hnone, List.append_nil]

/-- A group that nothing is handed out of. -/
lemma HandedOut.pass (h : HandedOut packets content arrived done outs) (todo : List γ) :
    HandedOut packets content arrived (done ++ todo) outs := by
  obtain ⟨sub, hsub, hemits⟩ := h
  exact ⟨sub, hsub.trans (List.sublist_append_left _ _), hemits⟩

/-- The frame of a group is handed out. -/
lemma HandedOut.concat (h : HandedOut packets content arrived done outs) {g : γ}
    {f : PendingMediaFrame ρ} (hf : Emits packets content arrived g f) :
    HandedOut packets content arrived (done ++ [g]) (outs ++ [.ok f]) := by
  obtain ⟨sub, hsub, hemits⟩ := h
  refine ⟨sub ++ [g], hsub.append (List.Sublist.refl [g]), ?_⟩
  rw [frames_append]
  exact List.rel_append hemits (.cons hf .nil)

/-- A packet that is dropped. -/
lemma Progress.drop (hgroups : groups = done ++ todo)
    (hdrop : (groups.flatMap packets).drop (i + 1) = qs ++ todo.flatMap packets)
    (hinert : ∀ p ∈ q :: qs, Inert p) (hq : Clear a q)
    (hclear : ∀ p ∈ (groups.flatMap packets).drop (i + 1), Clear a p)
    (houts : HandedOut packets content arrived done outs) :
    Progress packets content arrived codec first groups (i + 1) (a.pushPacket q).2
      (outs ++ produced (a.pushPacket q).1) := by
  obtain ⟨⟨hclosed, hnone⟩, hinert⟩ := List.forall_mem_cons.mp hinert
  obtain ⟨hcompleted, hclear⟩ := hq.later hclosed hclear
  refine .idle hgroups hdrop hinert hcompleted hclear (houts.append ?_)
  rw [hq.afresh.result, hnone]

/-- The first packet of a group. -/
lemma Progress.begin {g : γ} (hgroups : groups = done ++ g :: todo)
    (hg : packets g = q :: qs)
    (hdrop : (groups.flatMap packets).drop (i + 1) = qs ++ todo.flatMap packets)
    (hgroup : Group codec (packets g) (content g)) (hseq : q.rtp.seq = number first i)
    (harrived : arrived q) (hq : Clear a q)
    (hclear : ∀ p ∈ (groups.flatMap packets).drop (i + 1), Clear a p)
    (houts : HandedOut packets content arrived done outs) :
    Progress packets content arrived codec first groups (i + 1) (a.pushPacket q).2
      (outs ++ produced (a.pushPacket q).1) := by
  rw [hg] at hgroup
  rw [hq.afresh.result]
  rcases hgroup.start with ⟨bytes, hb, hpush⟩ | ⟨rfl, hclosed, hcontent⟩
  · -- the frame goes on with the packets after it
    rcases hq.afresh.state with ⟨f, hopens, hstate⟩ | ⟨hclosed, -⟩
    · obtain rfl : (PartialRtpFrame.new q).take q bytes = f := by
        rw [hpush] at hopens
        cases hopens
        rfl
      rw [hpush, produced, List.append_nil]
      refine .busy hgroups hg hdrop hb hstate ?_ (List.forall_mem_singleton.mpr harrived) houts
      rw [PartialRtpFrame.take, hseq, number_succ]
    · rw [hpush] at hclosed
      cases hclosed
  · have hgroups : groups = done ++ [g] ++ todo := hgroups.trans (List.append_cons _ _ _)
    obtain ⟨hcompleted, hclear⟩ := hq.later hclosed hclear
    have hemitted : emitted {} (packets g) = produced (RtpFrameAssembler.pushPacket {} q).1 := by
      rw [hg]
      exact (emitted_singleton rfl (congrArg RtpFrameAssembler.completed hclosed)).1
    rcases hresult : (RtpFrameAssembler.pushPacket {} q).1 with error | _ | f
    · exact .idle hgroups hdrop (List.forall_mem_nil _) hcompleted hclear
        ((houts.pass [g]).append rfl)
    · exact .idle hgroups hdrop (List.forall_mem_nil _) hcompleted hclear
        ((houts.pass [g]).append rfl)
    · refine .idle hgroups hdrop (List.forall_mem_nil _) hcompleted hclear
        (houts.concat ⟨?_, hcontent f hresult, ?_⟩)
      · rw [hemitted, hresult]
        exact List.mem_singleton_self _
      · rw [hg]
        exact List.forall_mem_singleton.mpr harrived

/-- A frame that misses a packet is none of those after it. -/
lemma Begun.dead {c : Bytes → Prop} {h : PartialRtpFrame ρ} (hb : Begun codec c ps (q :: qs) h)
    (hnum : Numbered first P) (hlen : P.length < 2 ^ 15) (hseq : h.lastSeq + 1 = number first i)
    (hq : q.rtp.seq = number first i) (hnot : h.acceptsNext q = false) :
    ∀ p ∈ P.drop (i + 1), Clear ⟨some h, []⟩ p := by
  have hav1 : codec ≠ .av1 := by
    intro hav1
    obtain ⟨hssrc, hdave, -⟩ := hb.coherent hav1 q List.mem_cons_self
    rw [hb.accepts hssrc hdave (hseq.trans hq.symm)] at hnot
    cases hnot
  intro p hp
  obtain ⟨j, hj⟩ := List.getElem?_of_mem hp
  rw [List.getElem?_drop] at hj
  have hlt := (List.getElem?_eq_some_iff.mp hj).1
  have hne : p.rtp.seq ≠ h.lastSeq + 1 := by
    rw [hnum _ p hj, hseq]
    intro heq
    have := number_inj (by omega) (by omega) heq
    omega
  refine ⟨rfl, fun f hf => ?_⟩
  cases hf
  constructor
  · simp [PartialRtpFrame.acceptsNext, hne]
  · simp [PartialRtpFrame.shouldCompleteBefore, hb.codec_eq, hav1]

/-- A packet of a frame that has begun. -/
lemma Progress.continue {g : γ} {h : PartialRtpFrame ρ} (hgroups : groups = done ++ g :: todo)
    (hg : packets g = ps ++ q :: qs)
    (hdrop : (groups.flatMap packets).drop (i + 1) = qs ++ todo.flatMap packets)
    (hb : Begun codec (content g) ps (q :: qs) h) (hnum : Numbered first (groups.flatMap packets))
    (hlen : (groups.flatMap packets).length < 2 ^ 15) (hseq : h.lastSeq + 1 = number first i)
    (hq : q.rtp.seq = number first i) (harrived : ∀ p ∈ ps ++ [q], arrived p)
    (houts : HandedOut packets content arrived done outs) :
    Progress packets content arrived codec first groups (i + 1)
      (RtpFrameAssembler.pushPacket ⟨some h, []⟩ q).2
      (outs ++ produced (RtpFrameAssembler.pushPacket ⟨some h, []⟩ q).1) := by
  have hgroups' : groups = done ++ [g] ++ todo := hgroups.trans (List.append_cons _ _ _)
  cases haccept : h.acceptsNext q with
  | true =>
    rcases hb.step haccept with ⟨bytes, hb', hpush⟩ | ⟨rfl, f, hpush, hcontent⟩
    · rw [hpush, produced, List.append_nil]
      refine .busy hgroups (by rw [hg, List.append_assoc]; rfl) hdrop hb' rfl ?_ harrived houts
      rw [PartialRtpFrame.take, hq, number_succ]
    · rw [hpush]
      refine .idle hgroups' hdrop (List.forall_mem_nil _) rfl (fun p _ => clear_empty p)
        (houts.concat ⟨?_, hcontent, hg ▸ harrived⟩)
      rw [hg, emitted_append, hb.holds, (emitted_singleton hpush rfl).1]
      exact List.mem_append_right _ (List.mem_singleton_self _)
  | false =>
    have hclear : Clear ⟨some h, []⟩ q := by
      refine ⟨rfl, fun f hf => ?_⟩
      cases hf
      exact ⟨haccept, hb.not_complete List.mem_cons_self⟩
    exact .drop hgroups' hdrop hb.inert hclear (hb.dead hnum hlen hseq hq haccept)
      (houts.pass [g])

/-- The next packet between two frames: one that is left of a group, or the first of the next. -/
lemma front_cases (hgroups : ∀ g ∈ groups, Group codec (packets g) (content g))
    (hsplit : groups = done ++ todo) (h : qs ++ todo.flatMap packets = q :: rest) :
    (∃ qs', qs = q :: qs' ∧ rest = qs' ++ todo.flatMap packets) ∨
      ∃ g todo' qs', qs = [] ∧ todo = g :: todo' ∧ Group codec (packets g) (content g) ∧
        packets g = q :: qs' ∧ rest = qs' ++ todo'.flatMap packets := by
  cases qs with
  | cons p qs =>
    obtain ⟨rfl, rfl⟩ := List.cons.inj h
    exact .inl ⟨qs, rfl, rfl⟩
  | nil =>
    cases todo with
    | nil => cases h
    | cons g todo =>
      have hgroup := hgroups g (by rw [hsplit]; simp)
      obtain ⟨p, qs, hg⟩ := List.exists_cons_of_ne_nil hgroup.ne_nil
      rw [List.nil_append, List.flatMap_cons, hg] at h
      obtain ⟨rfl, rfl⟩ := List.cons.inj h
      exact .inr ⟨g, todo, qs, rfl, rfl, hgroup, hg, rfl⟩

/-- What can happen to the assembler on its way keeps `Progress`. -/
theorem follows_progress (hgroups : ∀ g ∈ groups, Group codec (packets g) (content g))
    (hnum : Numbered first (groups.flatMap packets))
    (hlen : (groups.flatMap packets).length < 2 ^ 15) :
    Follows (groups.flatMap packets) arrived
      (Progress packets content arrived codec first groups) where
  init := .idle (List.nil_append _).symm rfl (List.forall_mem_nil _) rfl (fun q _ => clear_empty q)
    ⟨[], List.Sublist.refl [], .nil⟩
  feed {i a outs q} hq harrived hΦ := by
    have hseq := hnum i q hq
    cases hΦ with
    | @idle done todo qs hsplit hdrop hinert hcompleted hclear houts =>
      have hrest := drop_eq_cons hq hdrop
      have hclear' : Clear a q ∧ ∀ p ∈ (groups.flatMap packets).drop (i + 1), Clear a p := by
        rw [hdrop, hrest] at hclear
        exact List.forall_mem_cons.mp hclear
      rcases front_cases hgroups hsplit hrest with
        ⟨qs, rfl, hnext⟩ | ⟨g, todo, qs, rfl, rfl, hgroup, hg, hnext⟩
      · exact .drop hsplit hnext hinert hclear'.1 hclear'.2 houts
      · exact .begin hsplit hg hnext hgroup hseq harrived hclear'.1 hclear'.2 houts
    | @busy done todo g ps qs h hsplit hg hdrop hb ha hlast hps houts =>
      obtain ⟨p, qs, rfl⟩ := List.exists_cons_of_ne_nil hb.ne_nil
      obtain ⟨rfl, hdrop⟩ := List.cons.inj (drop_eq_cons hq hdrop)
      subst ha
      refine .continue hsplit hg hdrop.symm hb hnum hlen hlast hseq ?_ houts
      exact List.forall_mem_append.mpr ⟨hps, List.forall_mem_singleton.mpr harrived⟩
  clear {i a outs} hΦ := by
    cases hΦ with
    | idle hsplit hdrop hinert _ _ houts =>
      exact .idle hsplit hdrop hinert rfl (fun q _ => clear_empty q) houts
    | @busy done todo g ps qs h hsplit hg hdrop hb ha hlast hps houts =>
      exact .idle (hsplit.trans (List.append_cons _ _ _)) hdrop hb.inert rfl
        (fun q _ => clear_empty q) (houts.pass _)
  skip {i outs} hlt hΦ := by
    have hq := List.getElem?_eq_getElem hlt
    cases hΦ with
    | @idle done todo qs hsplit hdrop hinert hcompleted hclear houts =>
      have hrest := drop_eq_cons hq hdrop
      rcases front_cases hgroups hsplit hrest with
        ⟨qs, rfl, hnext⟩ | ⟨g, todo, qs, rfl, rfl, hgroup, hg, hnext⟩
      · exact .idle hsplit hnext (List.forall_mem_cons.mp hinert).2 rfl
          (fun q _ => clear_empty q) houts
      · have hinert := hgroup.inert
        rw [hg] at hinert
        exact .idle (hsplit.trans (List.append_cons _ _ _)) hnext hinert rfl
          (fun q _ => clear_empty q) (houts.pass _)
    | busy _ _ _ _ ha => cases ha
  pop {i a outs frame frames} hcompleted hΦ := by
    cases hΦ with
    | idle _ _ _ hnone =>
      rw [hcompleted] at hnone
      cases hnone
    | busy _ _ _ _ ha =>
      subst ha
      cases hcompleted

/-- **Frames on a lossy way.** In every run, the frames handed out are those of some of the groups,
in their order, and all packets of these arrived. -/
theorem emits_of_delivers (hgroups : ∀ g ∈ groups, Group codec (packets g) (content g))
    (hnum : Numbered first (groups.flatMap packets))
    (hlen : (groups.flatMap packets).length < 2 ^ 15) {ssrc : UInt32}
    (hssrc : ∀ q ∈ groups.flatMap packets, q.rtp.ssrc = ssrc)
    {tuning : Reorder.ConnectionRuntimeTuning} {t : ℕ} (hqs : ∀ q ∈ qs, q ∈ groups.flatMap packets)
    {order : HashOrder UInt32} (hrun : Delivers tuning t (.new order) qs outs) :
    HandedOut packets content (· ∈ qs) groups outs := by
  have hfollows : Follows _ (· ∈ qs) (Progress packets content (· ∈ qs) codec first groups) :=
    follows_progress hgroups hnum hlen
  obtain ⟨i, a, hΦ⟩ := hfollows.delivers hlen hnum hssrc (fun q hq => ⟨hqs q hq, hq⟩) hrun
  cases hΦ with
  | idle hsplit _ _ _ _ houts => exact hsplit ▸ houts.pass _
  | busy hsplit _ _ _ _ _ _ houts => exact hsplit ▸ houts.pass _

end Cacophony.FrameGroups
