import Cacophony.Driver
import Cacophony.ReorderRuns
import Cacophony.StreamKeys

/-!
What is left of a user who has disconnected.

The state of a connection names users in its roster, in the users of the SSRCs, and in the
speaking updates; the receive side holds packets and frames of their SSRCs. The handler of
`ClientDisconnect` takes the user from the first two and has the SSRCs pruned. The speaking updates
are not touched.
-/

namespace Cacophony.Disconnects

open Transport RtpPayload Assembler Reorder
open Gateway Deadlines BucketQueue PendingMedia Streams
open Pipeline GatewayEvents Driver Progs Runs

variable {τ υ σ ρ : Type}

/-! ### What a connection knows of a user -/

/-- The state does not name a user. -/
structure Absent (u : UInt64) (state : ConnectionInternalState) : Prop where
  connected : u ∉ state.connectedUserIds
  ssrcUsers : ∀ ssrc, state.ssrcUsers.lookup ssrc ≠ some u
  speaking : ∀ ssrc update, state.speaking.lookup ssrc = some update → update.userId ≠ some u

/-- The receive side holds a packet or a frame of an SSRC. -/
inductive Held (p : ReceivePipeline σ ρ) (x : UInt32) : Prop
  | packet {key : UInt32} {s : ReceiveSsrcState ρ} {seq : UInt16} {packet : PendingMediaPacket ρ}
      (hs : p.streams.state.ssrc.lookup key = some s)
      (hpacket : s.pendingMedia.lookup seq = some packet) (hx : packet.rtp.ssrc = x)
  | begun {key : UInt32} {s : ReceiveSsrcState ρ} {frame : PartialRtpFrame ρ}
      (hs : p.streams.state.ssrc.lookup key = some s)
      (hframe : s.assembler.partialFrame = some frame) (hx : frame.rtp.ssrc = x)
  | completed {key : UInt32} {s : ReceiveSsrcState ρ} {frame : PendingMediaFrame ρ}
      (hs : p.streams.state.ssrc.lookup key = some s)
      (hframe : frame ∈ s.assembler.completed) (hx : frame.rtp.ssrc = x)
  | pending {bucket : DavePendingMediaBucket} {item : DeadlineValue (Media ρ)}
      (hitem : item ∈ p.pendingDaveMedia.buckets.buckets bucket) (hx : item.value.rtp.ssrc = x)
  | ready {frame : ReceivedFrame ρ} (hframe : .ok frame ∈ p.readyFrames.items)
      (hx : frame.rtp.ssrc = x)

/-- Nothing is left of a user who was known in the state `before`. -/
structure Gone (u : UInt64) (before : ConnectionInternalState) (d : ConnectionDriver σ ρ) :
    Prop where
  absent : Absent u d.state
  media : ∀ x, before.ssrcUsers.lookup x = some u → ¬ Held d.receive x

/-- The user that a text disconnects. -/
def disconnected (J : Serde τ υ) (text : τ) : Option UInt64 := do
  let event ← J.parseEventText text
  let opcode ← Opcode.fromCode event.opcode
  if opcode = .clientDisconnect then (J.clientDisconnect event.data).map (·.userId) else none

/-- An event names a user. -/
def names (J : Serde τ υ) (u : UInt64) (event : ParsedVoiceGatewayEvent υ) : Bool :=
  match Opcode.fromCode event.opcode with
  | some .speaking => (J.speaking event.data).any fun update => update.userId = some u
  | some .clientsConnect => (J.clientsConnect event.data).any fun clients => u ∈ clients.userIds
  | some .clientConnect => (J.clientConnect event.data).any fun client => client.userId = u
  | some .clientDisconnect =>
    (J.clientDisconnect event.data).any fun disconnect => disconnect.userId = u
  | _ => false

def namedBy (J : Serde τ υ) (u : UInt64) : Action τ σ → Bool
  | .message (.text text) => (J.parseEventText text).any (names J u)
  | _ => false

/-! ### Events that do not name a user -/

section Events

variable {J : Serde τ υ} {u : UInt64} {state : ConnectionInternalState}

lemma absent_of_known {k : Known} (hk : state.known = k) (hconnected : u ∉ k.connectedUserIds)
    (hssrcUsers : ∀ ssrc, k.ssrcUsers.lookup ssrc ≠ some u)
    (hspeaking : ∀ ssrc update, k.speaking.lookup ssrc = some update → update.userId ≠ some u) :
    Absent u state := by
  subst hk
  exact ⟨hconnected, hssrcUsers, hspeaking⟩

/-- An entry that is inserted is the one found, or one from before. -/
lemma lookup_insert_cases {β : Type} {m : AList fun _ : UInt32 => β} {k ssrc : UInt32} {v w : β}
    (h : (m.insert k v).lookup ssrc = some w) : w = v ∨ m.lookup ssrc = some w := by
  by_cases hk : ssrc = k
  · rw [hk, AList.lookup_insert, Option.some.injEq] at h
    exact .inl h.symm
  · rw [AList.lookup_insert_ne hk] at h
    exact .inr h

lemma Absent.insert_ssrc (h : Absent u state) {ssrc : UInt32} {v : UInt64} (hv : v ≠ u)
    (x : UInt32) :
    (state.ssrcUsers.insert ssrc v).lookup x ≠ some u := by
  intro hx
  rcases lookup_insert_cases hx with rfl | hx
  · exact hv rfl
  · exact h.ssrcUsers x hx

lemma lookup_without (m : SsrcUsers) (v : UInt64) {x : UInt32} {w : UInt64}
    (h : (m.without v).lookup x = some w) : m.lookup x = some w ∧ w ≠ v := by
  have hmem : ⟨x, w⟩ ∈ (m.without v).entries := AList.mem_lookup_iff.mp h
  obtain ⟨hmem, hne⟩ := List.mem_filter.mp hmem
  exact ⟨AList.mem_lookup_iff.mpr hmem, of_decide_eq_true hne⟩

lemma mem_ssrcsOf (m : SsrcUsers) (v : UInt64) (x : UInt32) :
    x ∈ m.ssrcsOf v ↔ m.lookup x = some v := by
  constructor
  · intro h
    obtain ⟨⟨y, w⟩, hfilter, rfl⟩ := List.mem_map.mp h
    obtain ⟨hmem, hw⟩ := List.mem_filter.mp hfilter
    obtain rfl : w = v := of_decide_eq_true hw
    exact AList.mem_lookup_iff.mpr hmem
  · intro h
    have hmem : (⟨x, v⟩ : Sigma fun _ : UInt32 => UInt64) ∈ m.entries := AList.mem_lookup_iff.mp h
    exact List.mem_map.mpr ⟨⟨x, v⟩, List.mem_filter.mpr ⟨hmem, decide_eq_true rfl⟩, rfl⟩

section Writes

variable {state state' : ConnectionInternalState} {seq : Option ℤ} (h : Absent u state)

include h

lemma Absent.note (hk : state'.known = state.known.note seq) : Absent u state' :=
  absent_of_known hk h.connected h.ssrcUsers h.speaking

lemma Absent.speak {update : SpeakingUpdate}
    (hk : state'.known = (state.known.note seq).speak update) (huser : update.userId ≠ some u) :
    Absent u state' := by
  refine absent_of_known hk h.connected (fun x => ?_) fun x update' hx => ?_
  · dsimp only [Known.speak]
    cases hv : update.userId with
    | none => exact h.ssrcUsers x
    | some v => exact h.insert_ssrc (fun heq => huser (by rw [hv, heq])) x
  · rcases lookup_insert_cases hx with rfl | hx
    · exact huser
    · exact h.speaking x update' hx

lemma Absent.connectAll {clients : ClientsConnectEvent}
    (hk : state'.known = (state.known.note seq).connectAll clients) (hother : u ∉ clients.userIds) :
    Absent u state' := by
  refine absent_of_known hk (fun hmem => ?_) h.ssrcUsers h.speaking
  rcases Finset.mem_union.mp hmem with hmem | hmem
  · exact h.connected hmem
  · exact hother (List.mem_toFinset.mp hmem)

lemma Absent.connect {client : ClientConnectEvent}
    (hk : state'.known = (state.known.note seq).connect client) (hother : client.userId ≠ u) :
    Absent u state' := by
  refine absent_of_known hk (fun hmem => ?_) (fun x => ?_) h.speaking
  · rcases Finset.mem_insert.mp hmem with heq | hmem
    · exact hother heq.symm
    · exact h.connected hmem
  · dsimp only [Known.connect]
    cases client.mediaSsrc with
    | none => exact h.ssrcUsers x
    | some ssrc => exact h.insert_ssrc hother x

lemma Absent.disconnect {client : ClientDisconnectEvent}
    (hk : state'.known = (state.known.note seq).disconnect client) : Absent u state' := by
  refine absent_of_known hk (fun hmem => ?_) (fun x hx => ?_) h.speaking
  · exact h.connected (Finset.mem_of_mem_erase hmem)
  · exact h.ssrcUsers x (lookup_without _ _ hx).1

/-- An event that does not name a user does not bring the user back. -/
lemma Absent.hear {event : ParsedVoiceGatewayEvent υ}
    (hk : state'.known = (state.known.note seq).hear J event) (hnames : names J u event = false) :
    Absent u state' := by
  unfold Known.hear at hk
  unfold names at hnames
  generalize Opcode.fromCode event.opcode = opcode at hk hnames
  split at hk
  · rcases hupdate : J.speaking event.data with _ | update <;> rw [hupdate] at hk
    · exact h.note hk
    · exact h.speak hk (by simpa [hupdate] using hnames)
  · rcases hclients : J.clientsConnect event.data with _ | clients <;> rw [hclients] at hk
    · exact h.note hk
    · exact h.connectAll hk (by simpa [hclients] using hnames)
  · rcases hclient : J.clientConnect event.data with _ | client <;> rw [hclient] at hk
    · exact h.note hk
    · exact h.connect hk (by simpa [hclient] using hnames)
  · rcases hclient : J.clientDisconnect event.data with _ | client <;> rw [hclient] at hk
    · exact h.note hk
    · exact h.disconnect hk
  · exact h.note hk

end Writes

lemma Absent.message {state' : ConnectionInternalState} (h : Absent u state) {message : WsMessage τ}
    (hk : state'.known = heard J state.known message)
    (hnamed : namedBy (σ := σ) J u (.message message) = false) : Absent u state' := by
  cases message with
  | text text =>
    rcases hevent : J.parseEventText text with _ | event
    · simp only [heard, hevent, Option.elim_none] at hk
      exact absent_of_known hk h.connected h.ssrcUsers h.speaking
    · simp only [heard, hevent, Option.elim_some] at hk
      have hnames : names J u event = false := by simpa [namedBy, hevent] using hnamed
      exact h.hear hk hnames
  | _ => exact absent_of_known hk h.connected h.ssrcUsers h.speaking

end Events

/-! ### SSRCs that were removed -/

section Media

variable (D : DaveMedia σ) (env : Surroundings) (tuning : ConnectionRuntimeTuning) {now : ℕ}
  {removed : List UInt32} {p p' : ReceivePipeline σ ρ} {q : PendingDaveMediaQueues ρ}
  {bucket : DavePendingMediaBucket}

/-- The frames that wait are of other SSRCs. -/
def WaitClear (removed : List UInt32) (q : PendingDaveMediaQueues ρ) : Prop :=
  ∀ bucket, ∀ item ∈ q.buckets.buckets bucket, item.value.rtp.ssrc ∉ removed

def ReadyClear (removed : List UInt32) (results : List (FrameReceiveResult ρ)) : Prop :=
  ∀ frame, .ok frame ∈ results → frame.rtp.ssrc ∉ removed

/-- The receive side has nothing of the removed SSRCs, and every stream what is of its own. -/
structure Clear (removed : List UInt32) (p : ReceivePipeline σ ρ) : Prop where
  streams : Keyed removed p.streams.state
  pending : WaitClear removed p.pendingDaveMedia
  ready : ReadyClear removed p.readyFrames.items

lemma Clear.not_held (h : Clear removed p) {x : UInt32} (hx : x ∈ removed) : ¬ Held p x := by
  have hkey {key : UInt32} {s : ReceiveSsrcState ρ}
      (hs : p.streams.state.ssrc.lookup key = some s) : key ≠ x :=
    fun heq => h.streams.notMem hs (heq ▸ hx)
  intro hheld
  cases hheld with
  | packet hs hpacket hssrc =>
    exact hkey hs (((h.streams.ofSsrc _ _ hs).packets _ _ hpacket).symm.trans hssrc)
  | begun hs hframe hssrc =>
    exact hkey hs (((h.streams.ofSsrc _ _ hs).assembler.begun _ hframe).symm.trans hssrc)
  | completed hs hframe hssrc =>
    exact hkey hs (((h.streams.ofSsrc _ _ hs).assembler.completed _ hframe).symm.trans hssrc)
  | pending hitem hssrc => exact h.pending _ _ hitem (hssrc ▸ hx)
  | ready hframe hssrc => exact h.ready _ hframe (hssrc ▸ hx)

lemma waitClear_withBucket (h : WaitClear removed q) {items : List (DeadlineValue (Media ρ))}
    (hitems : ∀ item ∈ items, item ∈ q.buckets.buckets bucket ∨ item.value.rtp.ssrc ∉ removed) :
    WaitClear removed { q with buckets := q.buckets.withBucket bucket items } := by
  intro b item hitem
  rw [BucketDeadlineQueue.mem_withBucket] at hitem
  split at hitem
  next hb => exact (hitems item hitem).elim (h bucket item) id
  next => exact h b item hitem

lemma waitClear_push (h : WaitClear removed q) {media : Media ρ}
    (hmedia : media.rtp.ssrc ∉ removed) :
    WaitClear removed (q.push media) := by
  unfold PendingDaveMediaQueues.push
  split
  · exact h
  next bucket _ =>
    refine waitClear_withBucket h fun item hitem => ?_
    rw [(perm_insertItem _ _).mem_iff] at hitem
    rcases List.mem_cons.mp hitem with rfl | hitem
    · exact .inr hmedia
    · exact .inl hitem

/-- A frame is decrypted or waits, and is of the SSRC that it was of. -/
lemma waitClear_decode (r : Receive σ ρ) (h : WaitClear removed r.pendingDaveMedia)
    (media : Media ρ) (hmedia : media.rtp.ssrc ∉ removed) (now : ℕ) :
    WaitClear removed (decodeOrEnqueueDaveMedia D env r media now).2.pendingDaveMedia ∧
      ∀ frame, (decodeOrEnqueueDaveMedia D env r media now).1 = some (.ok frame) →
        frame.rtp.ssrc ∉ removed := by
  have hwait (r' : Receive σ ρ) (hr' : WaitClear removed r'.pendingDaveMedia)
      (reason : DavePendingMediaReason) (user : Option UInt64) :
      WaitClear removed
        (enqueueDaveMedia r' { media with userId := user } reason).pendingDaveMedia :=
    waitClear_push hr' hmedia
  have hnothing (frame : ReceivedFrame ρ)
      (hframe : (none : Option (Except DaveDecryptError (ReceivedFrame ρ))) = some (.ok frame)) :
      frame.rtp.ssrc ∉ removed := by
    cases hframe
  unfold decodeOrEnqueueDaveMedia
  dsimp only
  split
  · exact ⟨hwait r h _ _, hnothing⟩
  · split
    · exact ⟨hwait r h _ _, hnothing⟩
    · split
      · exact ⟨hwait r h _ _, hnothing⟩
      · split
        · refine ⟨h, fun frame hframe => ?_⟩
          cases hframe
          exact hmedia
        · split
          · exact ⟨hwait { r with session := _ } h _ _, hnothing⟩
          · refine ⟨h, fun frame hframe => ?_⟩
            cases hframe

lemma Clear.decode (h : Clear removed p) {media : Media ρ} (hmedia : media.rtp.ssrc ∉ removed)
    (now : ℕ) :
    Clear removed (p.decodeOrderedMediaFrame D env media now).2 ∧
      ∀ frame, (p.decodeOrderedMediaFrame D env media now).1 = some (.ok frame) →
        frame.rtp.ssrc ∉ removed := by
  unfold ReceivePipeline.decodeOrderedMediaFrame
  split
  · obtain ⟨hwait, hframe⟩ := waitClear_decode D env p.receive h.pending _ hmedia now
    refine ⟨⟨h.streams, hwait, h.ready⟩, fun frame hresult => hframe frame ?_⟩
    dsimp only at hresult
    rcases hdecoded : (decodeOrEnqueueDaveMedia D env p.receive media now).1 with
      _ | error | frame'
    · rw [hdecoded] at hresult
      cases hresult
    · rw [hdecoded] at hresult
      cases hresult
    · rw [hdecoded] at hresult
      cases hresult
      rfl
  · refine ⟨h, fun frame hresult => ?_⟩
    cases hresult
    exact hmedia

/-- A frame that the streams hand out is of a stream that they keep. -/
lemma keyed_drainOrderedMedia {t : TimedState ρ} (h : Keyed removed t.state) (now : ℕ) :
    Keyed removed (t.drainOrderedMedia tuning now).2.state ∧
      ∀ media, (t.drainOrderedMedia tuning now).1 = some (.ok media) →
        media.rtp.ssrc ∉ removed := by
  fun_induction TimedState.drainOrderedMedia tuning now t with
  | case1 t result r hround =>
    obtain ⟨hnext, hframe⟩ := h.round tuning now
    refine ⟨hnext, fun media hmedia => ?_⟩
    rcases result with _ | error | frame
    · cases hmedia
    · cases hmedia
    · cases hmedia
      exact hframe frame r hround
  | case2 t r hround ih => exact ih (h.round tuning now).1

lemma Clear.drainReady (now : ℕ) (h : Clear removed p) :
    Clear removed (ReceivePipeline.drainReadyVoiceFrame D env tuning now p).2 ∧
      ∀ frame, (ReceivePipeline.drainReadyVoiceFrame D env tuning now p).1 = some (.ok frame) →
        frame.rtp.ssrc ∉ removed := by
  fun_induction ReceivePipeline.drainReadyVoiceFrame D env tuning now p with
  | case1 p streams hdrain =>
    have hkeyed := (keyed_drainOrderedMedia tuning h.streams now).1
    rw [hdrain] at hkeyed
    refine ⟨⟨hkeyed, h.pending, h.ready⟩, fun frame hframe => ?_⟩
    cases hframe
  | case2 p error streams hdrain =>
    have hkeyed := (keyed_drainOrderedMedia tuning h.streams now).1
    rw [hdrain] at hkeyed
    refine ⟨⟨hkeyed, h.pending, h.ready⟩, fun frame hframe => ?_⟩
    cases hframe
  | case3 p media streams hdrain result p' hdecode =>
    obtain ⟨hkeyed, hmedia⟩ := keyed_drainOrderedMedia tuning h.streams now
    rw [hdrain] at hkeyed hmedia
    have hclear : Clear removed { p with streams } := ⟨hkeyed, h.pending, h.ready⟩
    have hnext := hclear.decode D env (hmedia media rfl) now
    rwa [hdecode] at hnext
  | case4 p media streams hdrain p' hdecode ih =>
    obtain ⟨hkeyed, hmedia⟩ := keyed_drainOrderedMedia tuning h.streams now
    rw [hdrain] at hkeyed hmedia
    have hclear : Clear removed { p with streams } := ⟨hkeyed, h.pending, h.ready⟩
    have hnext := (hclear.decode D env (hmedia media rfl) now).1
    rw [hdecode] at hnext
    exact ih hnext

lemma readyClear_pushBack {q : BoundedDeque (FrameReceiveResult ρ)}
    (h : ReadyClear removed q.items) {result : FrameReceiveResult ρ}
    (hresult : ∀ frame, result = .ok frame → frame.rtp.ssrc ∉ removed) :
    ReadyClear removed (q.pushBack result).2.items := by
  have hitems : ∀ x ∈ (q.pushBack result).2.items, x ∈ q.items ∨ x = result := by
    intro x hx
    unfold BoundedDeque.pushBack at hx
    split at hx
    · rcases List.mem_append.mp hx with hx | hx
      · exact .inl (List.mem_of_mem_tail hx)
      · exact .inr (List.mem_singleton.mp hx)
    · rcases List.mem_append.mp hx with hx | hx
      · exact .inl hx
      · exact .inr (List.mem_singleton.mp hx)
  intro frame hframe
  rcases hitems _ hframe with hmem | heq
  · exact h frame hmem
  · exact hresult frame heq.symm

lemma Clear.collect (h : Clear removed p) :
    Clear removed (ReceivePipeline.collectReadyVoiceFrames D env tuning now p) := by
  fun_induction ReceivePipeline.collectReadyVoiceFrames D env tuning now p with
  | case1 p _ p' hdrain =>
    have hnext := (h.drainReady D env tuning now).1
    rwa [hdrain] at hnext
  | case2 p _ result p' hdrain ih =>
    obtain ⟨hnext, hframe⟩ := h.drainReady D env tuning now
    rw [hdrain] at hnext hframe
    refine ih ⟨hnext.streams, hnext.pending, readyClear_pushBack hnext.ready ?_⟩
    rintro frame rfl
    exact hframe frame rfl
  | case3 p _ => exact h

lemma readyClear_flushLoop {s : FrameStream (FrameReceiveResult ρ)}
    {q : BoundedDeque (FrameReceiveResult ρ)} (h : ReadyClear removed q.items) :
    ReadyClear removed (flushLoop s q).2.items := by
  have htail {q : BoundedDeque (FrameReceiveResult ρ)} (h : ReadyClear removed q.items) :
      ReadyClear removed q.popFront.2.items :=
    fun frame hframe => h frame (List.mem_of_mem_tail hframe)
  fun_induction flushLoop s q with
  | case1 => exact h
  | case2 s q _ frame items hitems s' _ ih => exact ih (htail h)
  | case3 s q _ frame items hitems hfull =>
    -- the frame that was taken goes back to the front
    intro frame' hframe'
    refine h frame' ?_
    unfold BoundedDeque.pushFront at hframe'
    split at hframe'
    · rcases List.mem_cons.mp hframe' with rfl | hmem
      · rw [hitems]
        exact List.mem_cons_self
      · exact List.mem_of_mem_tail (List.mem_of_mem_dropLast hmem)
    · rcases List.mem_cons.mp hframe' with rfl | hmem
      · rw [hitems]
        exact List.mem_cons_self
      · exact List.mem_of_mem_tail hmem
  | case4 s q _ frame items hitems _ => exact htail h
  | case5 => exact h

lemma Clear.flush (h : Clear removed p) : Clear removed p.flushFrameStream := by
  have hdiscard : Clear removed p.discardClosedFrameStream := by
    unfold ReceivePipeline.discardClosedFrameStream
    split
    · exact ⟨h.streams, h.pending, h.ready⟩
    · exact h
  unfold ReceivePipeline.flushFrameStream
  dsimp only
  split
  · exact hdiscard
  · exact ⟨hdiscard.streams, hdiscard.pending, readyClear_flushLoop hdiscard.ready⟩

lemma Clear.expire (h : Clear removed p) :
    Clear removed (ReceivePipeline.expirePendingDaveMedia now p) := by
  fun_induction ReceivePipeline.expirePendingDaveMedia now p with
  | case1 => exact h
  | case2 p media pendingDaveMedia hpop ih =>
    obtain ⟨buckets, hbuckets, rfl⟩ := ReceivePipeline.popExpired_eq_some hpop
    obtain ⟨b, item, items, hitems, -, rfl⟩ := BucketDeadlineQueue.popExpired_eq_some hbuckets
    refine ih ⟨h.streams, waitClear_withBucket h.pending fun item' hitem' => .inl ?_, h.ready⟩
    rw [hitems]
    exact List.mem_cons_of_mem item hitem'

lemma waitClear_popRetry (h : WaitClear removed q) (retry : DavePendingMediaRetry) :
    WaitClear removed (q.popRetry retry).2 ∧
      ∀ media, (q.popRetry retry).1 = some media → media.rtp.ssrc ∉ removed := by
  unfold PendingDaveMediaQueues.popRetry
  rcases q.buckets.popMatching_cases retry.includes with
    ⟨hpop, -⟩ | ⟨b, item, items, -, hitems, hpop⟩
  · rw [hpop]
    refine ⟨h, fun media hmedia => ?_⟩
    cases hmedia
  · rw [hpop]
    refine ⟨waitClear_withBucket h fun item' hitem' => .inl ?_, fun media hmedia => ?_⟩
    · rw [hitems]
      exact List.mem_cons_of_mem item hitem'
    · rw [← Option.some.inj hmedia]
      refine h b item ?_
      rw [hitems]
      exact List.mem_cons_self

lemma handedOn_decode (r : Receive σ ρ) (media : Media ρ) (now : ℕ) :
    (decodeOrEnqueueDaveMedia D env r media now).2.handedOn = r.handedOn := by
  rcases hdeferral : deferral env (D.ready r.session) media with _ | bucket
  · obtain ⟨result, session, hdecode, -⟩ := decodeOrEnqueue_of_no_deferral D r now hdeferral
    rw [hdecode]
  · rw [decodeOrEnqueue_of_deferral D r now hdeferral]

/-- What a retry has handed on so far, and what still waits. -/
structure RetryClear (removed : List UInt32) (r : Receive σ ρ) : Prop where
  pending : WaitClear removed r.pendingDaveMedia
  handedOn : ∀ frame, .ok frame ∈ r.handedOn → frame.rtp.ssrc ∉ removed

lemma RetryClear.round {s : Retrying σ ρ} (h : RetryClear removed s.receive)
    (retry : DavePendingMediaRetry) (clock : ℕ → ℕ) :
    RetryClear removed (retryRound D env retry clock s).receive := by
  have hpop := waitClear_popRetry h.pending retry
  unfold retryRound
  split
  · exact h
  next popped pendingDaveMedia hpopped =>
    rw [hpopped] at hpop
    dsimp only
    split
    · exact ⟨hpop.1, h.handedOn⟩
    · have hdecode := waitClear_decode D env { s.receive with pendingDaveMedia } hpop.1
        { popped with wasPending := true } (hpop.2 popped rfl) (clock s.rounds)
      refine ⟨hdecode.1, fun frame hframe => ?_⟩
      rcases List.mem_append.mp hframe with hframe | hframe
      · refine h.handedOn frame ?_
        rwa [handedOn_decode] at hframe
      · exact hdecode.2 frame (Option.mem_toList.mp hframe)

lemma readyClear_queue {results : List (FrameReceiveResult ρ)}
    {q : BoundedDeque (FrameReceiveResult ρ)} (hq : ReadyClear removed q.items)
    (h : ReadyClear removed results) :
    ReadyClear removed
      (results.foldl (fun ready result => (ready.pushBack result).2) q).items := by
  induction results generalizing q with
  | nil => exact hq
  | cons result results ih =>
    refine ih (readyClear_pushBack hq ?_) fun frame hframe =>
      h frame (List.mem_cons_of_mem _ hframe)
    rintro frame rfl
    exact h frame List.mem_cons_self

lemma Clear.retry (h : Clear removed p) {retry : DavePendingMediaRetry} {clock : ℕ → ℕ}
    {fuel : ℕ} (hretry : p.retryPendingDaveMedia D env retry clock fuel = some p') :
    Clear removed p' := by
  unfold ReceivePipeline.retryPendingDaveMedia at hretry
  split at hretry
  · cases hretry
  next s hs =>
    cases hretry
    have hclear : RetryClear removed s.receive := by
      have hstart : RetryClear removed p.receive :=
        ⟨h.pending, fun _ hframe => absurd hframe List.not_mem_nil⟩
      unfold retryPendingDaveMedia at hs
      split at hs
      · cases hs
        exact hstart
      · exact Loops.loop_inv (I := fun s => RetryClear removed s.receive)
          (fun s hs _ => hs.round D env retry clock) hs hstart
    refine ⟨h.streams, hclear.pending, readyClear_queue h.ready fun frame hframe => ?_⟩
    obtain ⟨result, hmem, hresult⟩ := List.mem_map.mp hframe
    rcases result with error | frame'
    · cases hresult
    · cases hresult
      exact hclear.handedOn frame hmem

lemma mem_pruneSsrcs (q : PendingDaveMediaQueues ρ) (pruned : List UInt32)
    {item : DeadlineValue (Media ρ)} (h : item ∈ (q.pruneSsrcs pruned).buckets.buckets bucket) :
    item ∈ q.buckets.buckets bucket ∧ item.value.rtp.ssrc ∉ pruned := by
  simp only [PendingDaveMediaQueues.pruneSsrcs, DavePendingMediaBucket.all, List.foldl_cons,
    List.foldl_nil, BucketDeadlineQueue.mem_retain, decide_eq_true_eq] at h
  obtain ⟨⟨⟨⟨hmem, h₁⟩, h₂⟩, h₃⟩, h₄⟩ := h
  refine ⟨hmem, ?_⟩
  cases bucket with
  | missingUser => exact h₁ rfl
  | sessionNotReady => exact h₂ rfl
  | gatewayPending => exact h₃ rfl
  | decryptStatePending => exact h₄ rfl

lemma mem_pruned_ready {pruned : List UInt32} {frame : ReceivedFrame ρ}
    (h : .ok frame ∈ (p.pruneSsrcs pruned).readyFrames.items) :
    .ok frame ∈ p.readyFrames.items ∧ frame.rtp.ssrc ∉ pruned := by
  obtain ⟨hmem, hkept⟩ := List.mem_filter.mp h
  exact ⟨hmem, of_decide_eq_true hkept⟩

/-- Pruning does not bring anything back. -/
lemma Clear.prune (h : Clear removed p) (pruned : List UInt32) :
    Clear removed (p.pruneSsrcs pruned) where
  streams := (h.streams.prune pruned).mono fun _ hx => List.mem_append_left _ hx
  pending := fun bucket item hitem => h.pending bucket item (mem_pruneSsrcs _ _ hitem).1
  ready := fun frame hframe => h.ready frame (mem_pruned_ready hframe).1

/-- What is pruned is gone. -/
lemma clear_pruned (h : Keyed [] p.streams.state) (removed : List UInt32) :
    Clear removed (p.pruneSsrcs removed) where
  streams := h.prune removed
  pending := fun _ _ hitem => (mem_pruneSsrcs _ _ hitem).2
  ready := fun _ hframe => (mem_pruned_ready hframe).2

end Media

/-! ### The driver -/

section Driver

variable {E : Parts τ υ σ} {u : UInt64} {removed : List UInt32} {d d' : ConnectionDriver σ ρ}

/-- A driver that has nothing of a user and of some SSRCs. -/
structure Rid (u : UInt64) (removed : List UInt32) (d : ConnectionDriver σ ρ) : Prop where
  absent : Absent u d.state
  clear : Clear removed d.receive

lemma clear_onState {α : Type} (x : Handler α) :
    Holds (fun d => Clear removed d.receive) (onState x : Driving σ ρ α)
      fun _ d => Clear removed d.receive := by
  intro d hd a d' hexec
  rw [onState, exec_within, Prod.mk.injEq] at hexec
  rw [← hexec.2]
  exact hd

lemma clear_applyGatewayEffects (effects : GatewayEventEffects) :
    Holds (fun d => Clear removed d.receive) (applyGatewayEffects E effects : Driving σ ρ Unit)
      fun _ d => Clear removed d.receive := by
  have hcrypto : Holds (fun d => Clear removed d.receive)
      (replaceCrypto effects.transportCrypto : Driving σ ρ Unit)
      fun _ d => Clear removed d.receive :=
    holds_modify fun d hd => hd
  have hgrace : Holds (fun d => Clear removed d.receive)
      (openGrace E effects.allowPlaintextReceiveGrace : Driving σ ρ Unit)
      fun _ d => Clear removed d.receive := by
    refine holds_modify fun d hd => ?_
    split
    · exact ⟨hd.streams, hd.pending, hd.ready⟩
    · exact hd
  refine holds_bind hcrypto fun _ => holds_bind hgrace fun _ => holds_modify fun d hd => ?_
  split
  · exact hd
  · exact hd.prune _

lemma clear_updateMedia (updated : Bool) :
    Holds (fun d => Clear removed d.receive) (updateMedia E updated : Driving σ ρ Unit)
      fun _ d => Clear removed d.receive := by
  refine holds_get_bind fun d => ?_
  split
  · cases E.updateNegotiatedMedia d.state with
    | ok _ => exact holds_pure fun _ h => h
    | error error => exact holds_throw error
  · exact holds_pure fun _ h => h

lemma clear_handleWebsocketMessage (message : WsMessage τ) :
    Holds (fun d => Clear removed d.receive) (handleWebsocketMessage E message : Driving σ ρ _)
      fun _ d => Clear removed d.receive := by
  cases message with
  | text text =>
    rcases hevent : E.serde.parseEventText text with _ | event
    · simp only [handleWebsocketMessage, hevent]
      exact holds_throw _
    · simp only [handleWebsocketMessage, hevent]
      refine holds_bind (clear_onState _) fun _ => holds_bind (clear_onState _) fun effects => ?_
      refine holds_bind (clear_applyGatewayEffects effects) fun _ => ?_
      exact holds_bind (clear_updateMedia _) fun _ => holds_pure fun _ h => h
  | binary bytes =>
    refine holds_bind (clear_onState _) fun effects => ?_
    exact holds_bind (clear_applyGatewayEffects effects) fun _ => holds_pure fun _ h => h
  | close => exact holds_pure fun _ h => h
  | other => exact holds_pure fun _ h => h

lemma Clear.perform (h : Clear removed d.receive) {action : Action τ σ}
    (hd' : d.perform E action = some d') : Clear removed d'.receive := by
  cases action with
  | message message =>
    obtain ⟨effects, hexec⟩ := (perform_message E).mp hd'
    exact clear_handleWebsocketMessage message d h _ d' hexec
  | pump session =>
    cases hd'
    exact ⟨h.streams, h.pending, h.ready⟩
  | retry retry clock fuel =>
    obtain ⟨receive, hreceive, rfl⟩ := Option.map_eq_some_iff.mp hd'
    exact h.retry _ _ hreceive
  | expire now =>
    cases hd'
    exact h.expire
  | collect now =>
    cases hd'
    exact h.collect _ _ _
  | flush =>
    cases hd'
    exact h.flush

/-- No action brings a user back that it does not name. -/
lemma Rid.perform (h : Rid u removed d) {action : Action τ σ}
    (hnamed : namedBy E.serde u action = false) (hd' : d.perform E action = some d') :
    Rid u removed d' := by
  refine ⟨?_, h.clear.perform hd'⟩
  rcases known_perform hd' with ⟨message, rfl, hknown⟩ | ⟨-, hsame⟩
  · exact h.absent.message hknown hnamed
  · rw [hsame]
    exact h.absent

/-- The state without a user, but for the speaking updates. -/
def stateWithout (u : UInt64) (state : ConnectionInternalState) : ConnectionInternalState :=
  { state with
    rosterAuthoritative := true
    connectedUserIds := state.connectedUserIds.erase u
    ssrcUsers := state.ssrcUsers.without u }

/-- The driver without a user, and without the media of the user's SSRCs. -/
def driverWithout (u : UInt64) (d : ConnectionDriver σ ρ) : ConnectionDriver σ ρ :=
  { d with
    state := stateWithout u d.state
    receive := if (d.state.ssrcUsers.ssrcsOf u).isEmpty then d.receive
      else d.receive.pruneSsrcs (d.state.ssrcUsers.ssrcsOf u) }

def disconnectEffects (u : UInt64) (state : ConnectionInternalState) : GatewayEventEffects where
  disconnectedUserIds := [u]
  removedSsrcs := state.ssrcUsers.ssrcsOf u
  retryDavePendingMedia := .daveState

lemma exec_disconnect {J : Serde τ υ} {event : ParsedVoiceGatewayEvent υ}
    {disconnect : ClientDisconnectEvent}
    (hopcode : Opcode.fromCode event.opcode = some .clientDisconnect)
    (hdisconnect : J.clientDisconnect event.data = some disconnect)
    (state : ConnectionInternalState) :
    exec (handleTextEvent J event) state =
      (.ok (disconnectEffects disconnect.userId state), stateWithout disconnect.userId state) := by
  rw [handleTextEvent, hopcode]
  dsimp only
  rw [parseData, hdisconnect, pure_bind]
  rfl

lemma exec_prune (E : Parts τ υ σ) (u : UInt64) (d : ConnectionDriver σ ρ) :
    exec (applyGatewayEffects E (disconnectEffects u d.state))
        { d with state := stateWithout u d.state } =
      (.ok (), driverWithout u d) := by
  rw [applyGatewayEffects, replaceCrypto, openGrace, pruneRemoved, exec_modify_bind,
    exec_modify_bind, exec_modify, driverWithout, disconnectEffects]
  by_cases hnone : (d.state.ssrcUsers.ssrcsOf u).isEmpty = true
  · simp [hnone]
  · simp [hnone]

/-- **What the disconnection of a user does.** -/
lemma perform_disconnect (E : Parts τ υ σ) (d : ConnectionDriver σ ρ) {text : τ}
    (h : disconnected E.serde text = some u) :
    ∃ seq, d.perform E (.message (.text text)) =
      some (driverWithout u { d with state.lastSeq := seq }) := by
  obtain ⟨event, hevent, h⟩ := Option.bind_eq_some_iff.mp h
  obtain ⟨opcode, hopcode, h⟩ := Option.bind_eq_some_iff.mp h
  split at h
  next hdisconnects =>
    obtain ⟨disconnect, hdisconnect, rfl⟩ := Option.map_eq_some_iff.mp h
    rw [hdisconnects] at hopcode
    have hnoted : exec (onState (noteSeq event.seq)) d =
        (.ok (), { d with state.lastSeq := event.seq.or d.state.lastSeq }) := rfl
    refine ⟨event.seq.or d.state.lastSeq, (perform_message E).mpr
      ⟨disconnectEffects disconnect.userId d.state, ?_⟩⟩
    simp only [handleWebsocketMessage, hevent]
    rw [handleText, exec_bind_of_ok hnoted, onState, exec_bind, exec_within,
      exec_disconnect hopcode hdisconnect]
    dsimp only
    have hpruned := exec_prune E disconnect.userId
      { d with state.lastSeq := event.seq.or d.state.lastSeq }
    rw [exec_bind_of_ok hpruned]
    rfl
  · cases h

/-- **A user who disconnects.** -/
theorem gone_iff (E : Parts τ υ σ) (calls : List (ReceiveCall ρ)) {d : ConnectionDriver σ ρ}
    {order : HashOrder UInt32} (hstreams : d.receive.streams.state =
      (run (ClockedState.step E.tuning) (.start order) calls).state)
    {text : τ} (htext : disconnected E.serde text = some u) (later : List (Action τ σ))
    (hlater : ∀ action ∈ later, namedBy E.serde u action = false) :
    ∃ d₁, d.perform E (.message (.text text)) = some d₁ ∧
      ((∀ done d₂, done <+: later → d₁.performAll E done = some d₂ → Gone u d.state d₂) ↔
        ∀ ssrc update, d.state.speaking.lookup ssrc = some update → update.userId ≠ some u) := by
  obtain ⟨seq, hperform⟩ := perform_disconnect E d htext
  refine ⟨_, hperform, ?_⟩
  have hclear : Clear (d.state.ssrcUsers.ssrcsOf u)
      (driverWithout u { d with state.lastSeq := seq }).receive := by
    have hkeyed : Keyed [] d.receive.streams.state := hstreams ▸ keyed_run E.tuning order calls
    dsimp only [driverWithout]
    split
    next hnone =>
      rw [List.isEmpty_iff.mp hnone]
      exact ⟨hkeyed, fun _ _ _ => List.not_mem_nil, fun _ _ => List.not_mem_nil⟩
    · exact clear_pruned hkeyed _
  constructor
  · intro h
    exact (h [] _ List.nil_prefix rfl).absent.speaking
  · intro h done d₂ hdone hd₂
    have hrid : Rid u (d.state.ssrcUsers.ssrcsOf u)
        (driverWithout u { d with state.lastSeq := seq }) := by
      refine ⟨⟨Finset.notMem_erase _ _, fun ssrc hssrc => ?_, h⟩, hclear⟩
      exact (lookup_without _ _ hssrc).2 rfl
    have hend : Rid u (d.state.ssrcUsers.ssrcsOf u) d₂ :=
      performAll_inv E (fun _ _ _ hd hnamed => hd.perform hnamed)
        (fun action haction => hlater action (hdone.subset haction)) hd₂ hrid
    exact ⟨hend.absent, fun x hx => hend.clear.not_held ((mem_ssrcsOf _ _ _).mpr hx)⟩

/-- A connection that has heard of nobody else. -/
def alone : ConnectionDriver Bool Unit where
  state :=
    { codecPreferences := []
      lastSeq := none
      sessionDescription := some plainDescription
      rtpCodecs := none
      connectedUserIds := {1}
      ssrcUsers := ∅
      speaking := ∅
      dave := {}
      rosterAuthoritative := false
      resumed := false }
  receive := idlePipeline
  transportCrypto := plainDescription.transportCrypto

/-- Packet 0 of SSRC 7 is handed out, and packet 2 waits for the one between. -/
def received : List (ReceiveCall Unit) :=
  [⟨0, .push (Reorder.opusPacket 0)⟩, ⟨0, .drain⟩, ⟨0, .push (Reorder.opusPacket 2)⟩]

/-- A connection that has heard of user 9, under SSRC 7, but not from the user's speaking. The
frame of packet 0 has not been fetched. -/
def introduced : ConnectionDriver Bool Unit :=
  { alone with
    state.connectedUserIds := {1, 9}
    state.ssrcUsers := alone.state.ssrcUsers.insert 7 9
    receive.streams :=
      ⟨(run (ClockedState.step .default) (.start (.listed _)) received).state, fun _ => [],
        fun _ _ _ => Nat.zero_le _⟩
    receive.readyFrames :=
      ⟨[.ok ⟨[()], (Reorder.opusPacket 0).rtp, some 9, .audio, .opus, [0xf8]⟩], 1, Nat.one_pos,
        le_rfl⟩ }

def leaves : ParsedVoiceGatewayEvent Payload :=
  ⟨Opcode.clientDisconnect.code, none, .disconnect ⟨9⟩⟩

def speaks : ParsedVoiceGatewayEvent Payload :=
  ⟨Opcode.speaking.code, none, .speaking ⟨1, 7, some 9⟩⟩

theorem gone_introduced :
    (introduced.receive.streams.state.ssrc.lookup 7).map (·.pendingMedia.keys) = some [2] ∧
    Held introduced.receive 7 ∧
    ∃ d₁, introduced.perform plainParts (.message (.text leaves)) = some d₁ ∧
      ∀ done d₂, done <+: [.message (.binary [0, 7, 25]), .flush] →
        d₁.performAll plainParts done = some d₂ → Gone 9 introduced.state d₂ := by
  have hleaves : disconnected plainSerde leaves = some 9 := rfl
  obtain ⟨d₁, hd₁, hiff⟩ := gone_iff plainParts received (d := introduced) rfl hleaves
    [.message (.binary [0, 7, 25]), .flush] (by decide)
  exact ⟨by decide +kernel, .ready (.head _) rfl, d₁, hd₁, hiff.mpr nofun⟩

/-- A user who has spoken and left is still in the speaking updates. -/
theorem speaker_stays : ∃ d, alone.performAll plainParts
      [.message (.text speaks), .message (.text leaves)] = some d ∧
    disconnected plainSerde leaves = some 9 ∧
      d.state.speaking.lookup 7 = some ⟨1, 7, some 9⟩ := by
  have h : (alone.performAll plainParts [.message (.text speaks), .message (.text leaves)]).map
      (fun d => d.state.speaking.lookup 7) = some (some ⟨1, 7, some 9⟩) := by
    decide +kernel
  obtain ⟨d, hd, hspeaking⟩ := Option.map_eq_some_iff.mp h
  exact ⟨d, hd, rfl, hspeaking⟩

end Driver

end Cacophony.Disconnects
