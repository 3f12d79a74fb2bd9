import Cacophony.Arcs
import Cacophony.Runs
import Cacophony.Transport

/-!
The nonces of the transport encryption.

All streams of a connection encrypt under one key, and a nonce holds nothing but the suffix of
its stream. Each time a stream is started its suffix starts at a random value and takes an arc
of values from there on. The suffixes of a run are distinct exactly when these arcs are apart,
and nothing in the pipeline keeps them apart.
-/

namespace Cacophony.TransportNonces

open Arcs Runs Cacophony.Frame FrameCodecs Transport

/-! ### One frame -/

section Frames

variable (T : TransportCrypto) {s s' : OutboundRtpState} {calls : List OutboundEncryptParams}

/-- The calls count the suffix of the stream on. -/
def Counts (s s' : OutboundRtpState) (calls : List OutboundEncryptParams) : Prop :=
  calls.map OutboundEncryptParams.nonceSuffix = (Arc.mk s.nonceSuffix calls.length).values ∧
    s'.nonceSuffix = (Arc.mk s.nonceSuffix calls.length).next

lemma counts_nil (s : OutboundRtpState) : Counts s s [] := by
  simp [Counts, Arc.values, Arc.next]

lemma Counts.cons (marker : Bool) (duration : ℕ) (h : Counts (s.advance marker duration) s' calls) :
    Counts s s' (s.encryptParams marker :: calls) := by
  have hext : Arc.mk s.nonceSuffix (calls.length + 1) =
      (Arc.mk s.nonceSuffix 1).extend calls.length := by
    simp [Arc.extend, Nat.add_comm]
  have hone : (Arc.mk s.nonceSuffix 1).next = (s.advance marker duration).nonceSuffix := rfl
  have hfirst : (Arc.mk s.nonceSuffix 1).values = [s.nonceSuffix] := by simp [Arc.values]
  constructor
  · rw [List.map_cons, List.length_cons, hext, Arc.values_extend, hone, ← h.1, hfirst]
    rfl
  · rw [h.2, List.length_cons, hext, Arc.next_extend, hone]
    rfl

lemma buildPacket_of_ne_nil {payload : Bytes} (h : payload ≠ []) (marker : Bool) (duration : ℕ) :
    ∃ packet, s.buildPacket T payload marker duration =
      (.ok packet, s.advance marker duration) := by
  have hsome := T.isSome_encrypt (rtpsizeNonce T.mode.nonceLen (s.encryptParams marker).nonceSuffix)
    (headerBytes (s.encryptParams marker).header (s.encryptParams marker).marker) payload
  obtain ⟨⟨sealed, tag⟩, hseal⟩ := Option.isSome_iff_exists.mp hsome
  rw [OutboundRtpState.buildPacket, if_neg (by simpa using h)]
  simp only [TransportCrypto.encryptPayload, hseal]
  exact ⟨_, rfl⟩

lemma counts_sendPackets (duration : ℕ) (last : Option OutboundPacket)
    (packets : List (Bytes × Bool)) (s : OutboundRtpState) :
    Counts s (s.sendPackets T duration last packets).2.1
      (s.sendPackets T duration last packets).2.2 := by
  induction packets generalizing s last with
  | nil => exact counts_nil s
  | cons head packets ih =>
    obtain ⟨payload, marker⟩ := head
    rw [OutboundRtpState.sendPackets]
    by_cases hp : payload = []
    · subst hp
      exact counts_nil s
    · obtain ⟨packet, hb⟩ := buildPacket_of_ne_nil T (s := s) hp marker duration
      simp only [hb, List.isEmpty_iff, hp, if_false]
      exact (ih (some packet) (s.advance marker duration)).cons marker duration

lemma counts_sendFrame (s : OutboundRtpState) (codec : Codec) (packets : List (Bytes × Bool))
    (duration : ℕ) : Counts s (s.sendFrame T codec packets duration).2.1
      (s.sendFrame T codec packets duration).2.2 := by
  have h := counts_sendPackets T duration none packets s
  unfold OutboundRtpState.sendFrame
  split
  · exact counts_nil s
  generalize s.sendPackets T duration none packets = sent at h
  obtain ⟨_ | _ | packet, s', calls⟩ := sent <;> exact h

end Frames

/-! ### Runs -/

inductive Event
  /-- A frame, as the packets that are built for it. -/
  | frame (codec : Codec) (packets : List (Bytes × Bool)) (duration : ℕ)
  /-- The video stream is negotiated anew, or none is; the random source gives `draw`. -/
  | negotiated (video : Option NegotiatedVideoMedia) (draw : Option UInt32)

/-- A pipeline, the suffixes it has encrypted with, and the arcs of its streams. -/
structure Trace where
  pipeline : SendPipeline
  suffixes : List UInt32 := []
  audio : Arc
  video : Option Arc
  retired : List Arc := []

/-- The arcs of all streams there have been. -/
def Trace.arcs (t : Trace) : List Arc := t.audio :: (t.video.toList ++ t.retired)

def arcOf (rtp : OutboundRtpState) : Arc := ⟨rtp.nonceSuffix, 0⟩

def Trace.start (audioSsrc : UInt32) (video : Option NegotiatedVideoMedia)
    (audioDraw videoDraw : Option UInt32) : Except SendError Trace :=
  (SendPipeline.new audioSsrc video audioDraw videoDraw).map fun pipeline =>
    { pipeline
      audio := arcOf pipeline.outboundAudioRtp
      video := pipeline.outboundVideoRtp.map arcOf }

/-- The video stream of the pipeline outlives a negotiation. -/
def keepsStream (p : SendPipeline) (video : Option NegotiatedVideoMedia) (draw : Option UInt32) :
    Bool :=
  video.any fun video =>
    p.outboundVideoRtp.any (fun rtp => rtp.binding.ssrc = video.ssrc) || draw.isNone

def Trace.step (T : TransportCrypto) (t : Trace) : Event → Trace
  | .frame codec packets duration =>
    let (_, pipeline, calls) := t.pipeline.sendReadyMediaFrame T codec packets duration
    let t := { t with
      pipeline, suffixes := t.suffixes ++ calls.map OutboundEncryptParams.nonceSuffix }
    match codec.mediaType with
    | .audio => { t with audio := t.audio.extend calls.length }
    | .video => { t with video := t.video.map fun a => a.extend calls.length }
  | .negotiated video draw =>
    let (_, pipeline) := t.pipeline.updateNegotiatedMedia video draw
    if keepsStream t.pipeline video draw then { t with pipeline }
    else { t with
      pipeline
      video := pipeline.outboundVideoRtp.map arcOf
      retired := t.video.toList ++ t.retired }

/-- The suffixes of the run lie on the arcs, and each stream stands at the end of its own. -/
structure Sound (t : Trace) : Prop where
  perm : t.suffixes.Perm (t.arcs.flatMap Arc.values)
  audio : t.pipeline.outboundAudioRtp.nonceSuffix = t.audio.next
  video : t.pipeline.outboundVideoRtp.map OutboundRtpState.nonceSuffix = t.video.map Arc.next

lemma next_arcOf (rtp : OutboundRtpState) : (arcOf rtp).next = rtp.nonceSuffix := by
  simp [arcOf, Arc.next]

lemma values_arcOf (rtp : OutboundRtpState) : (arcOf rtp).values = [] := rfl

lemma flatMap_arcOf (rtp : Option OutboundRtpState) :
    (rtp.map arcOf).toList.flatMap Arc.values = [] := by
  cases rtp <;> rfl

lemma sound_start {audioSsrc : UInt32} {video : Option NegotiatedVideoMedia}
    {audioDraw videoDraw : Option UInt32} {t : Trace}
    (h : Trace.start audioSsrc video audioDraw videoDraw = .ok t) : Sound t := by
  unfold Trace.start at h
  rcases hp : SendPipeline.new audioSsrc video audioDraw videoDraw with _ | pipeline
  · rw [hp] at h
    cases h
  · rw [hp] at h
    cases h
    refine ⟨?_, (next_arcOf _).symm, ?_⟩
    · simp [Trace.arcs, values_arcOf, flatMap_arcOf]
    · simp [Function.comp_def, next_arcOf]

/-- An arc that grows takes up the suffixes of the calls. -/
lemma perm_extend {log : List UInt32} {a : Arc} (before : List Arc) {after : List Arc}
    {s s' : OutboundRtpState} {calls : List OutboundEncryptParams}
    (hp : log.Perm ((before ++ a :: after).flatMap Arc.values))
    (hs : s.nonceSuffix = a.next) (hc : Counts s s' calls) :
    (log ++ calls.map OutboundEncryptParams.nonceSuffix).Perm
      ((before ++ a.extend calls.length :: after).flatMap Arc.values) ∧
    s'.nonceSuffix = (a.extend calls.length).next := by
  constructor
  · rw [hc.1, hs]
    simp only [List.flatMap_append, List.flatMap_cons, Arc.values_extend] at hp ⊢
    have := hp.append_right (Arc.mk a.next calls.length).values
    refine this.trans ?_
    simp only [List.append_assoc]
    exact (List.perm_append_comm.append_left _).append_left _
  · rw [hc.2, hs, Arc.next_extend]
    rfl

lemma audio_updateNegotiatedMedia (p : SendPipeline) (video : Option NegotiatedVideoMedia)
    (draw : Option UInt32) : (p.updateNegotiatedMedia video draw).2.outboundAudioRtp.nonceSuffix =
      p.outboundAudioRtp.nonceSuffix := by
  unfold SendPipeline.updateNegotiatedMedia
  split
  · rfl
  split
  · rfl
  split <;> rfl

/-- A stream that goes on does not touch its suffix. -/
lemma updateNegotiatedMedia_of_keeps {p : SendPipeline} {video : Option NegotiatedVideoMedia}
    {draw : Option UInt32} (h : keepsStream p video draw = true) :
    (p.updateNegotiatedMedia video draw).2.outboundVideoRtp.map OutboundRtpState.nonceSuffix =
      p.outboundVideoRtp.map OutboundRtpState.nonceSuffix := by
  rcases video with _ | video
  · simp [keepsStream] at h
  unfold SendPipeline.updateNegotiatedMedia
  dsimp only
  split
  next rtp hsame =>
    obtain ⟨hv, -⟩ := Option.filter_eq_some_iff.mp hsame
    simp [hv]
  next hother =>
    -- no stream with this SSRC, so it is the random source that failed
    have hdraw : draw = none := by
      simp only [keepsStream, Option.any_some, Bool.or_eq_true, Option.isNone_iff_eq_none] at h
      refine h.resolve_left fun hany => ?_
      rcases hv : p.outboundVideoRtp with _ | rtp
      · simp [hv] at hany
      · rw [hv, Option.any_some] at hany
        exact Option.filter_eq_none_iff.mp hother rtp hv hany
    subst hdraw
    rfl

/-- **One event.** -/
theorem Sound.step (T : TransportCrypto) {t : Trace} (h : Sound t) (e : Event) :
    Sound (t.step T e) := by
  cases e with
  | frame codec packets duration =>
    cases hm : codec.mediaType with
    | audio =>
      have hc := counts_sendFrame T t.pipeline.outboundAudioRtp codec packets duration
      obtain ⟨hperm, hnext⟩ := perm_extend [] h.perm h.audio hc
      simp only [Trace.step, SendPipeline.sendReadyMediaFrame, hm]
      exact ⟨hperm, hnext, h.video⟩
    | video =>
      rcases hv : t.pipeline.outboundVideoRtp with _ | rtp
      · have hnone : t.video = none := by simpa [hv] using h.video.symm
        simp only [Trace.step, SendPipeline.sendReadyMediaFrame, hm, hv, List.map_nil,
          List.append_nil, hnone, Option.map_none]
        exact ⟨by simpa [Trace.arcs, hnone] using h.perm, h.audio, by simp [hv]⟩
      · obtain ⟨a, ha, hnext⟩ : ∃ a, t.video = some a ∧ a.next = rtp.nonceSuffix := by
          simpa [hv, eq_comm, Option.map_eq_some_iff] using h.video
        have hc := counts_sendFrame T rtp codec packets duration
        have harcs : t.arcs = [t.audio] ++ a :: t.retired := by simp [Trace.arcs, ha]
        obtain ⟨hperm, hend⟩ := perm_extend [t.audio] (harcs ▸ h.perm) hnext.symm hc
        simp only [Trace.step, SendPipeline.sendReadyMediaFrame, hm, hv, ha, Option.map_some]
        exact ⟨hperm, h.audio, by simp [hend]⟩
  | negotiated video draw =>
    have haudio := (audio_updateNegotiatedMedia t.pipeline video draw).trans h.audio
    simp only [Trace.step]
    split
    next hkeeps =>
      exact ⟨h.perm, haudio, (updateNegotiatedMedia_of_keeps hkeeps).trans h.video⟩
    next =>
      refine ⟨?_, haudio, by simp [Function.comp_def, next_arcOf]⟩
      have hperm := h.perm
      simp only [Trace.arcs, List.flatMap_cons, List.flatMap_append, flatMap_arcOf,
        List.nil_append] at hperm ⊢
      exact hperm

/-- **Nonces of a connection.** In a run with fewer than `2 ^ 32` packets no suffix is used
twice exactly when the arcs of the streams, from the value drawn for each and as long as the
packets sent on it, are apart. -/
theorem suffixes_nodup_iff (T : TransportCrypto) {audioSsrc : UInt32}
    {video : Option NegotiatedVideoMedia} {audioDraw videoDraw : Option UInt32} {t : Trace}
    (hstart : Trace.start audioSsrc video audioDraw videoDraw = .ok t) (events : List Event)
    (hlen : (run (Trace.step T) t events).suffixes.length < 2 ^ 32) :
    (run (Trace.step T) t events).suffixes.Nodup ↔
      (run (Trace.step T) t events).arcs.Pairwise Arc.Apart := by
  have hsound : Sound (run (Trace.step T) t events) :=
    run_inv_of_step (fun _ e h => h.step T e) events (sound_start hstart)
  exact nodup_values_iff hsound.perm hlen

/-- A cipher for the examples. -/
def toyCrypto : TransportCrypto where
  mode := .aeadAes256GcmRtpSize
  encryptInPlaceDetached _ _ payload := some (payload, List.replicate 16 0)
  isSome_encrypt _ _ _ := rfl

/-- Audio and VP8 video, both started at `5`. -/
def bothAtFive : Trace where
  pipeline := ⟨⟨0, 0, 5, .new .opus 1⟩, some ⟨0, 0, 5, .new .vp8 2⟩⟩
  audio := ⟨5, 0⟩
  video := some ⟨5, 0⟩

/-- One packet on each stream. -/
def onePacketEach : List Event :=
  [.frame .opus [([1], false)] 20000000, .frame .vp8 [([0x10, 1], true)] 20000000]

theorem suffixes_nodup_iff_bothAtFive :
    Trace.start 1 (some ⟨.vp8, 2⟩) (some 5) (some 5) = .ok bothAtFive ∧
    ((run (Trace.step toyCrypto) bothAtFive onePacketEach).suffixes.Nodup ↔
      (run (Trace.step toyCrypto) bothAtFive onePacketEach).arcs.Pairwise Arc.Apart) := by
  have hstart : Trace.start 1 (some ⟨.vp8, 2⟩) (some 5) (some 5) = .ok bothAtFive := rfl
  exact ⟨hstart, suffixes_nodup_iff toyCrypto hstart onePacketEach (by decide)⟩

/-- The two packets are encrypted with the same nonce. -/
theorem suffix_used_twice :
    Trace.start 1 (some ⟨.vp8, 2⟩) (some 5) (some 5) = .ok bothAtFive ∧
    (run (Trace.step toyCrypto) bothAtFive onePacketEach).suffixes = [5, 5] :=
  ⟨rfl, by decide⟩

end Cacophony.TransportNonces
