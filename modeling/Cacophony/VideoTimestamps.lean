import Cacophony.Progs
import Cacophony.Runs
import Cacophony.TransportNonces
import Cacophony.UnitPackets

/-!
The packets of a video stream, `send_ready_media_frame` with its packetizer and its socket.

Each call builds the packets of a frame and sends them one by one. The sequence number and the
nonce count the packets. The timestamp moves on with the packet that carries the marker, the last
of its frame. A call that fails before it leaves the timestamp to the next frame.
-/

namespace Cacophony.VideoTimestamps

open AnnexB FrameCodecs Transport RtpPayload
open Assembler FramePackets PayloadRoundTrip H26xPackets
open UnitPackets TransportNonces Runs Progs

/-! ### A call -/

/-- What comes of the wait for a packet to be sent. -/
inductive SendOutcome
  | sent
  | failed
  | closed
  deriving DecidableEq

inductive FrameSendError
  | dave
  | rtp (error : RtpError)
  | send (error : SendError)
  | io
  | closed
  | dropped
  deriving DecidableEq

/-- The result of a call, the stream after it, and the packets that were built. -/
abbrev SendResult := Except FrameSendError OutboundPacket × OutboundRtpState × List OutboundPacket

/-- The loop over the payloads of a packetizer. There is an outcome for each packet, and a call
whose outcomes run out has been dropped while it waited. -/
def sendLoop (T : TransportCrypto) (codec : Codec) (duration : ℕ) :
    List SendOutcome → Option OutboundPacket → RtpPayloadPacketizer → OutboundRtpState → SendResult
  | outcomes, lastPacket, p, s =>
    match p.next with
    | (.error error, _) => (.error (.rtp error), s, [])
    | (.ok none, _) =>
      (lastPacket.elim (.error (.send (.emptyPayload codec))) .ok, s, [])
    | (.ok (some (payload, marker)), p) =>
      match s.buildPacket T payload marker duration with
      | (.error error, s) => (.error (.send error), s, [])
      | (.ok packet, s) =>
        match outcomes with
        | [] => (.error .dropped, s, [packet])
        | .failed :: _ => (.error .io, s, [packet])
        | .closed :: _ => (.error .closed, s, [packet])
        | .sent :: outcomes =>
          let (result, s, packets) := sendLoop T codec duration outcomes (some packet) p s
          (result, s, packet :: packets)

/-- A call: the payload is the frame, or what the session makes of it; `none` when that fails. -/
structure Call where
  codec : Codec
  payload : Option Bytes
  duration : ℕ
  outcomes : List SendOutcome

/-- `send_ready_media_frame` on its stream. -/
def sendReadyMediaFrame (T : TransportCrypto) (s : OutboundRtpState) (c : Call) : SendResult :=
  match c.payload with
  | none => (.error .dave, s, [])
  | some payload =>
    match RtpPayloadPacketizer.new c.codec payload with
    | .error error => (.error (.rtp error), s, [])
    | .ok p =>
      if s.codec ≠ c.codec then (.error (.send (.mediaCodecNotNegotiated c.codec s.codec)), s, [])
      else sendLoop T c.codec c.duration c.outcomes none p s

/-! ### The packets of a call -/

/-- The packets are built from the payloads. -/
inductive Builds (T : TransportCrypto) (duration : ℕ) :
    OutboundRtpState → List (Bytes × Bool) → List OutboundPacket → OutboundRtpState → Prop
  | nil (s : OutboundRtpState) : Builds T duration s [] [] s
  | cons {s s' s'' : OutboundRtpState} {x : Bytes × Bool} {xs : List (Bytes × Bool)}
      {packet : OutboundPacket} {packets : List OutboundPacket}
      (hbuild : s.buildPacket T x.1 x.2 duration = (.ok packet, s'))
      (hrest : Builds T duration s' xs packets s'') :
      Builds T duration s (x :: xs) (packet :: packets) s''

/-- The packetizer gives the payloads `xs`, and perhaps more. -/
def Takes (p : RtpPayloadPacketizer) : List (Bytes × Bool) → Prop
  | [] => True
  | x :: xs => p.next.1 = .ok (some x) ∧ Takes p.next.2 xs

variable {T : TransportCrypto} {codec : Codec} {duration : ℕ} {s s' : OutboundRtpState}
  {p : RtpPayloadPacketizer} {xs : List (Bytes × Bool)} {packets : List OutboundPacket}
  {payload : Bytes} {state : RtpPayloadPacketizerState} {u : H26xPacketizer} {marker : Bool}

/-- A packet that is not built leaves the stream as it is. -/
lemma buildPacket_error {error : SendError}
    (h : s.buildPacket T payload marker duration = (.error error, s')) : s' = s := by
  unfold OutboundRtpState.buildPacket at h
  split at h
  · exact (Prod.mk.inj h).2.symm
  · dsimp only at h
    split at h
    · exact (Prod.mk.inj h).2.symm
    · cases h

lemma buildPacket_ok {packet : OutboundPacket}
    (h : s.buildPacket T payload marker duration = (.ok packet, s')) :
    packet.rtp = outboundHeader (s.encryptParams marker).header marker ∧
      packet.nonceSuffix = s.nonceSuffix ∧ s' = s.advance marker duration := by
  unfold OutboundRtpState.buildPacket TransportCrypto.encryptPayload at h
  split at h
  · cases h
  · dsimp only at h
    split at h
    · cases h
    next hencrypt =>
      split at hencrypt
      · cases hencrypt
      · cases hencrypt
        cases h
        exact ⟨rfl, rfl, rfl⟩

variable (T codec duration) in
/-- The loop builds no packet, or it builds one and goes on if that was sent. -/
lemma sendLoop_cases (outcomes : List SendOutcome) (lastPacket : Option OutboundPacket)
    (p : RtpPayloadPacketizer) (s : OutboundRtpState) :
    (sendLoop T codec duration outcomes lastPacket p s).2 = (s, []) ∧
        (∀ x packet s', p.next.1 = .ok (some x) →
          s.buildPacket T x.1 x.2 duration ≠ (.ok packet, s')) ∨
      ∃ x packet s', p.next.1 = .ok (some x) ∧
        s.buildPacket T x.1 x.2 duration = (.ok packet, s') ∧
        ((∃ rest, outcomes = .sent :: rest ∧
            (sendLoop T codec duration outcomes lastPacket p s).2 =
              ((sendLoop T codec duration rest (some packet) p.next.2 s').2.1,
                packet :: (sendLoop T codec duration rest (some packet) p.next.2 s').2.2)) ∨
          (outcomes.takeWhile (· = .sent) = [] ∧
            (sendLoop T codec duration outcomes lastPacket p s).2 = (s', [packet]))) := by
  rw [sendLoop.eq_def]
  dsimp only
  rcases hnext : p.next with ⟨error | _ | x, p'⟩
  · refine .inl ⟨rfl, ?_⟩
    rintro x packet s' ⟨⟩
  · refine .inl ⟨rfl, ?_⟩
    rintro x packet s' ⟨⟩
  · rcases hbuild : s.buildPacket T x.1 x.2 duration with ⟨error | packet, s'⟩
    · simp only [hbuild]
      refine .inl ⟨by rw [buildPacket_error hbuild], ?_⟩
      rintro y packet s'' ⟨⟩ hok
      rw [hbuild] at hok
      cases hok
    · refine .inr ⟨x, packet, s', rfl, hbuild, ?_⟩
      simp only [hbuild]
      rcases outcomes with _ | ⟨_ | _ | _, rest⟩
      · exact .inr ⟨List.takeWhile_nil, rfl⟩
      · exact .inl ⟨rest, rfl, rfl⟩
      · exact .inr ⟨List.takeWhile_cons_of_neg (by simp), rfl⟩
      · exact .inr ⟨List.takeWhile_cons_of_neg (by simp), rfl⟩

variable (T codec duration) in
/-- The packets of a call are built from the first payloads of its packetizer. -/
lemma sendLoop_builds (outcomes : List SendOutcome) (lastPacket : Option OutboundPacket)
    (p : RtpPayloadPacketizer) (s : OutboundRtpState) :
    ∃ xs, Takes p xs ∧ Builds T duration s xs
      (sendLoop T codec duration outcomes lastPacket p s).2.2
      (sendLoop T codec duration outcomes lastPacket p s).2.1 := by
  induction hn : outcomes.length using Nat.strong_induction_on
    generalizing outcomes lastPacket p s with
  | h n ih =>
  rcases sendLoop_cases T codec duration outcomes lastPacket p s with
    ⟨hnone, -⟩ | ⟨x, packet, s', hnext, hbuild, ⟨rest, rfl, hrest⟩ | ⟨-, hlast⟩⟩
  · rw [hnone]
    exact ⟨[], trivial, .nil s⟩
  · obtain ⟨xs, htakes, hbuilds⟩ :=
      ih rest.length (by simp [← hn]) rest (some packet) p.next.2 s' rfl
    rw [hrest]
    exact ⟨x :: xs, ⟨hnext, htakes⟩, .cons hbuild hbuilds⟩
  · rw [hlast]
    exact ⟨[x], ⟨hnext, trivial⟩, .cons hbuild (.nil s')⟩

variable (codec) in
/-- When all packets but the last are sent, all of the payloads become packets. -/
lemma sendLoop_all {outcomes : List SendOutcome} (lastPacket : Option OutboundPacket)
    (hgives : Gives p xs) (hpayload : ∀ x ∈ xs, x.1 ≠ [])
    (hsent : xs.length ≤ (outcomes.takeWhile (· = .sent)).length + 1) :
    Builds T duration s xs (sendLoop T codec duration outcomes lastPacket p s).2.2
      (sendLoop T codec duration outcomes lastPacket p s).2.1 := by
  induction xs generalizing outcomes lastPacket p s with
  | nil =>
    rcases sendLoop_cases T codec duration outcomes lastPacket p s with
      ⟨hnone, -⟩ | ⟨x, packet, s', hnext, -⟩
    · rw [hnone]
      exact .nil s
    · rw [show p.next.1 = .ok none from hgives] at hnext
      cases hnext
  | cons x xs ih =>
    obtain ⟨hx, hxs⟩ := List.forall_mem_cons.mp hpayload
    obtain ⟨packet, hbuild⟩ := buildPacket_of_ne_nil T (s := s) hx x.2 duration
    rcases sendLoop_cases T codec duration outcomes lastPacket p s with
      ⟨-, hnot⟩ | ⟨y, packet', s', hnext, hbuild', ⟨rest, rfl, hrest⟩ | ⟨hstop, hlast⟩⟩
    · exact absurd hbuild (hnot x packet _ hgives.1)
    · obtain rfl : x = y := by simpa using hgives.1.symm.trans hnext
      rw [hrest]
      refine .cons hbuild' (ih _ hgives.2 hxs ?_)
      simpa using hsent
    · obtain rfl : x = y := by simpa using hgives.1.symm.trans hnext
      obtain rfl : xs = [] := by simpa [hstop] using hsent
      rw [hlast]
      exact .cons hbuild' (.nil s')

/-! ### Markers -/

lemma nextNalu_of_isEmpty (h : u.nalus.isEmpty = true) : u.nextNalu.nalu = none := by
  have hnext : u.nalus.next = none := by simpa [AnnexBNalus.isEmpty] using h
  have hadvance : u.nalus.advance = none := by
    rw [AnnexBNalus.advance]
    split
    · rfl
    · simp_all
  rw [H26xPacketizer.nextNalu, hadvance]

/-- The marker is on the last payload of the last unit. -/
lemma nextPayload_of_marker {C : H26xRtpPayload} {u' : H26xPacketizer}
    (h : u.nextPayload C = .ok (some (payload, true, u'))) : u'.nalu = none := by
  unfold H26xPacketizer.nextPayload at h
  split at h
  · cases h
  split at h
  · simp only [Except.ok.injEq, Option.some.injEq, Prod.mk.injEq] at h
    obtain ⟨-, hempty, rfl⟩ := h
    exact nextNalu_of_isEmpty hempty
  · unfold H26xPacketizer.nextFragment at h
    dsimp only at h
    split at h
    · cases h
    obtain ⟨body, -, h⟩ := (bind_ok_iff _ _ _).mp h
    obtain ⟨header, -, h⟩ := (bind_ok_iff _ _ _).mp h
    simp only [pure, Except.pure, Except.ok.injEq, Option.some.injEq, Prod.mk.injEq,
      Bool.and_eq_true, decide_eq_true_eq] at h
    obtain ⟨-, ⟨hempty, hlast⟩, rfl⟩ := h
    rw [if_pos hlast]
    exact nextNalu_of_isEmpty hempty

lemma wrap_ok {r : Except RtpError (Option (Bytes × Bool × H26xPacketizer))}
    {f : H26xPacketizer → RtpPayloadPacketizerState}
    (h : RtpPayloadPacketizer.wrap r f = .ok (some (payload, marker, state))) :
    ∃ u, r = .ok (some (payload, marker, u)) ∧ state = f u := by
  rcases r with error | _ | ⟨payload', marker', u⟩
  · cases h
  · cases h
  · cases h
    exact ⟨u, rfl, rfl⟩

lemma wrap_none {C : H26xRtpPayload} (h : u.nalu = none)
    (f : H26xPacketizer → RtpPayloadPacketizerState) :
    RtpPayloadPacketizer.wrap (u.nextPayload C) f = .ok none := by
  rw [H26xPacketizer.nextPayload, h]
  rfl

lemma nextAv1Fragment_of_marker {frame : Bytes} {obuStart obuEnd fragmentOffset : ℕ}
    (h : nextAv1Fragment frame obuStart obuEnd fragmentOffset = (payload, true, state)) :
    state = .av1 frame frame.length frame.length 0 := by
  simp only [nextAv1Fragment, Prod.mk.injEq, Bool.and_eq_true, decide_eq_true_eq] at h
  obtain ⟨-, ⟨hobu, hlast⟩, rfl⟩ := h
  rw [if_pos hlast, hobu]

/-- Behind the payload with the marker the packetizer has no more. -/
lemma nextState_of_marker {state' : RtpPayloadPacketizerState}
    (h : RtpPayloadPacketizer.nextState codec state = .ok (some (payload, true, state'))) :
    RtpPayloadPacketizer.nextState codec state' = .ok none := by
  cases state with
  | single frame marker emitted =>
    simp only [RtpPayloadPacketizer.nextState] at h
    split at h
    · cases h
    split at h
    · cases h
    · cases h
      rfl
  | fragmented frame offset header =>
    simp only [RtpPayloadPacketizer.nextState, nextFragmentedPayload] at h
    split at h
    · cases h
    split at h
    · cases h
    · simp only [Except.ok.injEq, Option.some.injEq, Prod.mk.injEq, decide_eq_true_eq] at h
      obtain ⟨-, hlast, rfl⟩ := h
      rw [RtpPayloadPacketizer.nextState, nextFragmentedPayload, if_pos hlast.ge]
  | h264 u =>
    obtain ⟨u', hu, rfl⟩ := wrap_ok h
    exact wrap_none (nextPayload_of_marker hu) _
  | h265 u =>
    obtain ⟨u', hu, rfl⟩ := wrap_ok h
    exact wrap_none (nextPayload_of_marker hu) _
  | av1 frame obuStart obuEnd fragmentOffset =>
    simp only [RtpPayloadPacketizer.nextState, nextAv1Payload] at h
    obtain ⟨obuEnd, hfragment⟩ : ∃ obuEnd,
        nextAv1Fragment frame obuStart obuEnd fragmentOffset = (payload, true, state') := by
      split at h
      · cases h
      split at h
      · cases h
      split at h
      · rcases hobu : av1ObuEnd codec frame obuStart with error | obuEnd
        · rw [hobu] at h
          cases h
        · rw [hobu] at h
          exact ⟨obuEnd, by simpa [Except.map] using h⟩
      · exact ⟨obuEnd, by simpa using h⟩
    rw [nextAv1Fragment_of_marker hfragment, RtpPayloadPacketizer.nextState, nextAv1Payload,
      if_pos le_rfl]
  | done => cases h

lemma next_of_marker {x : Bytes × Bool} (h : p.next.1 = .ok (some x)) (hmarker : x.2 = true) :
    p.next.2.next.1 = .ok none := by
  obtain ⟨payload, marker⟩ := x
  obtain rfl : marker = true := hmarker
  rcases hstate : RtpPayloadPacketizer.nextState p.codec p.state with
    error | _ | ⟨payload', marker', state⟩
  · simp [RtpPayloadPacketizer.next, hstate] at h
  · simp [RtpPayloadPacketizer.next, hstate] at h
  · simp only [RtpPayloadPacketizer.next, hstate] at h ⊢
    cases h
    rw [nextState_of_marker hstate]

lemma Takes.markers (h : Takes p xs) : ∀ x ∈ xs.dropLast, x.2 = false := by
  induction xs generalizing p with
  | nil => exact List.forall_mem_nil _
  | cons x xs ih =>
    rcases xs with _ | ⟨y, ys⟩
    · exact List.forall_mem_nil _
    · rw [List.dropLast_cons_cons]
      refine List.forall_mem_cons.mpr ⟨Bool.eq_false_iff.mpr fun hmarker => ?_, ih h.2⟩
      have hnone := next_of_marker h.1 hmarker
      rw [h.2.1] at hnone
      cases hnone

/-- No payload that can be read is empty. -/
lemma Carries.payload_ne_nil {begun : Bool} {bytes : Bytes} (hcodec : codec ∈ [.vp8, .vp9, .av1])
    (h : Carries codec begun xs bytes) : ∀ x ∈ xs, x.1 ≠ [] := by
  have hreads : ∀ {x starts completes piece}, Reads codec x starts completes piece → x.1 ≠ [] := by
    rintro ⟨payload, marker⟩ starts completes piece hx rfl
    obtain ⟨depacketized, hparse, -⟩ := hx false
    simp only [List.mem_cons, List.not_mem_nil, or_false] at hcodec
    rcases hcodec with rfl | rfl | rfl <;> cases hparse
  induction h with
  | last hx _ => exact List.forall_mem_singleton.mpr (hreads hx)
  | more hx _ _ ih => exact List.forall_mem_cons.mpr ⟨hreads hx, ih⟩

/-- The payloads of a video frame: the last one has the marker, and none is empty. -/
lemma marked_of_gives {frame : Bytes} (hvideo : codec.mediaType = .video)
    (hnew : RtpPayloadPacketizer.new codec frame = .ok p) (hgives : Gives p xs) :
    Marked xs ∧ ∀ x ∈ xs, x.1 ≠ [] := by
  have hpacked : codec ∈ [.vp8, .vp9, .av1] → Marked xs ∧ ∀ x ∈ xs, x.1 ≠ [] := by
    intro hcodec
    have hpacked := packed_of_gives hcodec hnew hgives
    exact ⟨hpacked.marked, Carries.payload_ne_nil hcodec hpacked.carries⟩
  have hunits : ∀ D : H26x, D.codec = codec → Marked xs ∧ ∀ x ∈ xs, x.1 ≠ [] := by
    rintro D rfl
    obtain ⟨hne, rfl⟩ := framePayloads_of_gives hnew hgives
    exact ⟨marked_framePayloads D hne, fun x hx =>
      framePayloads_payload_ne_nil (fun n hn => AnnexBNalus.ne_nil_of_mem_toList hn) hx⟩
  cases codec with
  | opus => cases hvideo
  | vp8 => exact hpacked (by simp)
  | vp9 => exact hpacked (by simp)
  | av1 => exact hpacked (by simp)
  | h264 => exact hunits .h264 rfl
  | h265 => exact hunits .h265 rfl

/-! ### Counters -/

/-- The packets count the sequence number and the nonce of the stream on, from `s` to `s'`. -/
structure Counted (s s' : OutboundRtpState) (packets : List OutboundPacket) : Prop where
  seqs : packets.map (fun q => q.rtp.seq) =
    (List.range packets.length).map fun i => s.seq + UInt16.ofNat i
  nonces : packets.map (fun q => q.nonceSuffix) =
    (List.range packets.length).map fun i => s.nonceSuffix + UInt32.ofNat i
  seq : s'.seq = s.seq + UInt16.ofNat packets.length
  nonce : s'.nonceSuffix = s.nonceSuffix + UInt32.ofNat packets.length

lemma counted_nil (s : OutboundRtpState) : Counted s s [] := by
  constructor <;> simp

lemma Counted.append {s'' : OutboundRtpState} {packets' : List OutboundPacket}
    (h : Counted s s' packets) (h' : Counted s' s'' packets') :
    Counted s s'' (packets ++ packets') where
  seqs := by
    rw [List.map_append, h.seqs, h'.seqs, List.length_append, List.range_add, List.map_append,
      List.map_map, h.seq]
    simp only [Function.comp_def, UInt16.ofNat_add, UInt16.add_assoc]
  nonces := by
    rw [List.map_append, h.nonces, h'.nonces, List.length_append, List.range_add, List.map_append,
      List.map_map, h.nonce]
    simp only [Function.comp_def, UInt32.ofNat_add, UInt32.add_assoc]
  seq := by rw [h'.seq, h.seq, List.length_append, UInt16.ofNat_add, UInt16.add_assoc]
  nonce := by rw [h'.nonce, h.nonce, List.length_append, UInt32.ofNat_add, UInt32.add_assoc]

lemma counted_buildPacket {x : Bytes × Bool} {packet : OutboundPacket}
    (h : s.buildPacket T x.1 x.2 duration = (.ok packet, s')) : Counted s s' [packet] := by
  obtain ⟨hrtp, hnonce, rfl⟩ := buildPacket_ok h
  constructor <;> simp [hrtp, hnonce, outboundHeader, OutboundRtpState.encryptParams,
    OutboundRtpState.advance]

lemma Builds.counted (h : Builds T duration s xs packets s') : Counted s s' packets := by
  induction h with
  | nil s => exact counted_nil s
  | cons hbuild _ ih => exact (counted_buildPacket hbuild).append ih

lemma Builds.binding (h : Builds T duration s xs packets s') : s'.binding = s.binding := by
  induction h with
  | nil => rfl
  | cons hbuild _ ih =>
    obtain ⟨-, -, rfl⟩ := buildPacket_ok hbuild
    exact ih

/-! ### Timestamps -/

/-- Among the packets is the one with the marker. -/
def hasMarker (packets : List OutboundPacket) : Bool := packets.any fun q => q.rtp.marker

/-- The ticks a call moves the timestamp on. -/
def ticksOf (s : OutboundRtpState) (duration : ℕ) (packets : List OutboundPacket) : ℕ :=
  if hasMarker packets then
    (timestampIncrement s.binding.descriptor.clockRateHz duration).toNat else 0

lemma Builds.hasMarker_eq (h : Builds T duration s xs packets s') :
    hasMarker packets = xs.any fun x => x.2 := by
  induction h with
  | nil => rfl
  | cons hbuild _ ih =>
    obtain ⟨hrtp, -, -⟩ := buildPacket_ok hbuild
    rw [hasMarker, List.any_cons, List.any_cons, ← ih, hrtp]
    rfl

lemma Builds.hasMarker_of_marked (h : Builds T duration s xs packets s') (hxs : Marked xs) :
    hasMarker packets = true := by
  obtain ⟨ys, payload, rfl, -⟩ := hxs
  rw [h.hasMarker_eq]
  simp

lemma advance_timestamp (hvideo : s.codec.mediaType = .video) (marker : Bool) :
    (s.advance marker duration).timestamp =
      s.timestamp + if marker then timestampIncrement s.binding.descriptor.clockRateHz duration
        else 0 := by
  cases marker <;> simp [OutboundRtpState.advance, hvideo]

lemma timestampIncrement_pos (sampleRate duration : ℕ) :
    0 < (timestampIncrement sampleRate duration).toNat := by
  rw [timestampIncrement, UInt32.toNat_ofNat']
  omega

/-- All packets have the timestamp of the stream, which moves on behind them. -/
lemma Builds.timestamps (h : Builds T duration s xs packets s')
    (hvideo : s.codec.mediaType = .video) (hmarkers : ∀ x ∈ xs.dropLast, x.2 = false) :
    (∀ q ∈ packets, q.rtp.timestamp = s.timestamp) ∧
      s'.timestamp = s.timestamp + UInt32.ofNat (ticksOf s duration packets) := by
  induction h with
  | nil s => simp [ticksOf, hasMarker]
  | @cons s s' s'' x xs packet packets hbuild hrest ih =>
    obtain ⟨hrtp, -, rfl⟩ := buildPacket_ok hbuild
    have hfirst : packet.rtp.timestamp = s.timestamp := by rw [hrtp]; rfl
    have hmarker : packet.rtp.marker = x.2 := by rw [hrtp]; rfl
    rcases xs with _ | ⟨y, ys⟩
    · cases hrest
      refine ⟨List.forall_mem_singleton.mpr hfirst, ?_⟩
      rw [advance_timestamp hvideo]
      cases hx : x.2 <;> simp [ticksOf, hasMarker, hmarker, hx]
    · rw [List.dropLast_cons_cons] at hmarkers
      obtain ⟨hx, hys⟩ := List.forall_mem_cons.mp hmarkers
      have hstay : (s.advance x.2 duration).timestamp = s.timestamp := by
        rw [advance_timestamp hvideo, hx]
        simp
      obtain ⟨hsame, hend⟩ := ih hvideo hys
      refine ⟨List.forall_mem_cons.mpr ⟨hfirst, fun q hq => (hsame q hq).trans hstay⟩, ?_⟩
      rw [hend, hstay]
      simp [ticksOf, hasMarker, hmarker, hx, OutboundRtpState.advance]

/-! ### Calls -/

/-- The packets of the frame are all built if one is: the payload has no flaw that shows behind
the first packet, and no packet but the last fails to be sent. -/
def Call.Whole (s : OutboundRtpState) (c : Call) : Prop :=
  ∀ payload p, c.codec = s.codec → c.payload = some payload →
    RtpPayloadPacketizer.new c.codec payload = .ok p → (∃ x, p.next.1 = .ok (some x)) →
    ∃ xs, Gives p xs ∧ xs.length ≤ (c.outcomes.takeWhile (· = .sent)).length + 1

variable (T) in
lemma sendReadyMediaFrame_cases (s : OutboundRtpState) (c : Call) :
    (sendReadyMediaFrame T s c).2 = (s, []) ∨
      ∃ payload p, c.codec = s.codec ∧ c.payload = some payload ∧
        RtpPayloadPacketizer.new c.codec payload = .ok p ∧
        sendReadyMediaFrame T s c = sendLoop T c.codec c.duration c.outcomes none p s := by
  unfold sendReadyMediaFrame
  split
  · exact .inl rfl
  next payload hpayload =>
    split
    · exact .inl rfl
    next p hnew =>
      split
      · exact .inl rfl
      next hcodec => exact .inr ⟨payload, p, (not_not.mp hcodec).symm, hpayload, hnew, rfl⟩

variable (T) in
lemma sendReadyMediaFrame_builds (s : OutboundRtpState) (c : Call) :
    ∃ xs, (∀ x ∈ xs.dropLast, x.2 = false) ∧
      Builds T c.duration s xs (sendReadyMediaFrame T s c).2.2 (sendReadyMediaFrame T s c).2.1 := by
  rcases sendReadyMediaFrame_cases T s c with hnone | ⟨payload, p, -, -, -, hloop⟩
  · rw [hnone]
    exact ⟨[], List.forall_mem_nil _, .nil s⟩
  · rw [hloop]
    obtain ⟨xs, htakes, hbuilds⟩ := sendLoop_builds T c.codec c.duration c.outcomes none p s
    exact ⟨xs, htakes.markers, hbuilds⟩

/-- The packets of a frame, when all but the last are sent. -/
lemma sendReadyMediaFrame_all {c : Call} (hcodec : c.codec = s.codec)
    (hpayload : c.payload = some payload) (hnew : RtpPayloadPacketizer.new c.codec payload = .ok p)
    (hgives : Gives p xs) (hxs : ∀ x ∈ xs, x.1 ≠ [])
    (hsent : xs.length ≤ (c.outcomes.takeWhile (· = .sent)).length + 1) :
    Builds T c.duration s xs (sendReadyMediaFrame T s c).2.2 (sendReadyMediaFrame T s c).2.1 := by
  have hloop : sendReadyMediaFrame T s c = sendLoop T c.codec c.duration c.outcomes none p s := by
    simp only [sendReadyMediaFrame, hpayload, hnew]
    rw [if_neg (not_not.mpr hcodec.symm)]
  rw [hloop]
  exact sendLoop_all c.codec none hgives hxs hsent

lemma hasMarker_of_whole {c : Call} (hvideo : s.codec.mediaType = .video) (hwhole : c.Whole s)
    (hne : (sendReadyMediaFrame T s c).2.2 ≠ []) :
    hasMarker (sendReadyMediaFrame T s c).2.2 = true := by
  rcases sendReadyMediaFrame_cases T s c with
    hnone | ⟨payload, p, hcodec, hpayload, hnew, hloop⟩
  · rw [hnone] at hne
    exact absurd rfl hne
  have hfirst : ∃ x, p.next.1 = .ok (some x) := by
    rw [hloop] at hne
    rcases sendLoop_cases T c.codec c.duration c.outcomes none p s with
      ⟨hnone, -⟩ | ⟨x, -, -, hnext, -⟩
    · rw [hnone] at hne
      exact absurd rfl hne
    · exact ⟨x, hnext⟩
  obtain ⟨xs, hgives, hsent⟩ := hwhole payload p hcodec hpayload hnew hfirst
  obtain ⟨hmarked, hxs⟩ := marked_of_gives (hcodec ▸ hvideo) hnew hgives
  exact (sendReadyMediaFrame_all hcodec hpayload hnew hgives hxs hsent).hasMarker_of_marked hmarked

/-- The call is one of `sendFrame` for the payloads it comes to build. -/
lemma Builds.sendPackets (h : Builds T duration s xs packets s') (last : Option OutboundPacket) :
    (s.sendPackets T duration last xs).2.1 = s' ∧
      (s.sendPackets T duration last xs).2.2.map OutboundEncryptParams.nonceSuffix =
        packets.map fun q => q.nonceSuffix := by
  induction h generalizing last with
  | nil => exact ⟨rfl, rfl⟩
  | @cons s s' s'' x xs packet packets hbuild hrest ih =>
    have hx : x.1 ≠ [] := by
      intro hnil
      rw [hnil] at hbuild
      cases hbuild
    obtain ⟨-, hnonce, -⟩ := buildPacket_ok hbuild
    obtain ⟨hstream, hcalls⟩ := ih (some packet)
    rw [OutboundRtpState.sendPackets]
    simp only [hbuild, List.isEmpty_iff, hx, if_false]
    refine ⟨hstream, ?_⟩
    rw [List.map_append, hcalls, List.map_singleton, List.map_cons, hnonce]
    rfl

theorem sendReadyMediaFrame_sendFrame (T : TransportCrypto) (s : OutboundRtpState) (c : Call) :
    ∃ xs, (s.sendFrame T c.codec xs c.duration).2.1 = (sendReadyMediaFrame T s c).2.1 ∧
      (s.sendFrame T c.codec xs c.duration).2.2.map OutboundEncryptParams.nonceSuffix =
        (sendReadyMediaFrame T s c).2.2.map fun q => q.nonceSuffix := by
  rcases sendReadyMediaFrame_cases T s c with hnone | ⟨payload, p, hcodec, -, -, hloop⟩
  · refine ⟨[], ?_⟩
    rw [hnone, OutboundRtpState.sendFrame]
    split <;> exact ⟨rfl, rfl⟩
  · rw [hloop]
    obtain ⟨xs, -, hbuilds⟩ := sendLoop_builds T c.codec c.duration c.outcomes none p s
    have hpackets := hbuilds.sendPackets none
    refine ⟨xs, ?_⟩
    rw [OutboundRtpState.sendFrame, if_neg (not_not.mpr hcodec.symm)]
    generalize s.sendPackets T c.duration none xs = sent at hpackets
    obtain ⟨_ | _ | packet, s', calls⟩ := sent <;> exact hpackets

/-! ### Runs -/

/-- The stream, the packets that were built in each call, and the ticks of its timestamp. -/
structure Sending where
  stream : OutboundRtpState
  frames : List (List OutboundPacket) := []
  ticks : ℕ := 0

def Sending.step (T : TransportCrypto) (t : Sending) (c : Call) : Sending :=
  let (_, stream, packets) := sendReadyMediaFrame T t.stream c
  { stream
    frames := t.frames ++ [packets]
    ticks := t.ticks + ticksOf t.stream c.duration packets }

def SameTimestamp (packets : List OutboundPacket) : Prop :=
  ∀ q ∈ packets, ∀ q' ∈ packets, q.rtp.timestamp = q'.rtp.timestamp

def OtherTimestamps (packets packets' : List OutboundPacket) : Prop :=
  ∀ q ∈ packets, ∀ q' ∈ packets', q.rtp.timestamp ≠ q'.rtp.timestamp

/-- What every run keeps: the counters and the clock of the stream. -/
structure Sound (s : OutboundRtpState) (t : Sending) : Prop where
  binding : t.stream.binding = s.binding
  counted : Counted s t.stream t.frames.flatten
  same : ∀ packets ∈ t.frames, SameTimestamp packets
  clock : t.stream.timestamp = s.timestamp + UInt32.ofNat t.ticks

/-- Where every frame is whole: the clock has moved past all packets. -/
structure Past (s : OutboundRtpState) (t : Sending) : Prop where
  earlier : ∀ packets ∈ t.frames, ∀ q ∈ packets,
    ∃ k < t.ticks, q.rtp.timestamp = s.timestamp + UInt32.ofNat k
  others : t.ticks < 2 ^ 32 → t.frames.Pairwise OtherTimestamps

variable {t : Sending} {c : Call}

lemma Sound.codec_eq (h : Sound s t) : t.stream.codec = s.codec :=
  congrArg (fun b => b.descriptor.codec) h.binding

/-- **One call.** -/
theorem Sound.step (h : Sound s t) (hvideo : s.codec.mediaType = .video) (c : Call) :
    Sound s (t.step T c) := by
  obtain ⟨xs, hmarkers, hbuilds⟩ := sendReadyMediaFrame_builds T t.stream c
  obtain ⟨hsame, hclock⟩ := hbuilds.timestamps (h.codec_eq ▸ hvideo) hmarkers
  refine ⟨hbuilds.binding.trans h.binding, ?_, ?_, ?_⟩
  · have hflat : (t.step T c).frames.flatten =
        t.frames.flatten ++ (sendReadyMediaFrame T t.stream c).2.2 := by
      simp [Sending.step]
    rw [hflat]
    exact h.counted.append hbuilds.counted
  · refine List.forall_mem_append.mpr ⟨h.same, List.forall_mem_singleton.mpr ?_⟩
    intro q hq q' hq'
    rw [hsame q hq, hsame q' hq']
  · exact hclock.trans (by rw [h.clock, UInt32.add_assoc, ← UInt32.ofNat_add]; rfl)

lemma timestamp_ne {start : UInt32} {k n : ℕ} (hk : k < n) (hn : n < 2 ^ 32) :
    start + UInt32.ofNat k ≠ start + UInt32.ofNat n := by
  intro heq
  have hkn := congrArg UInt32.toNat ((UInt32.add_right_inj start).mp heq)
  rw [UInt32.toNat_ofNat', UInt32.toNat_ofNat'] at hkn
  omega

/-- A call for a whole frame. -/
theorem Past.step (hpast : Past s t) (h : Sound s t) (hvideo : s.codec.mediaType = .video)
    (hwhole : c.Whole s) : Past s (t.step T c) := by
  have hvideo' : t.stream.codec.mediaType = .video := h.codec_eq ▸ hvideo
  have hwhole' : c.Whole t.stream := fun payload p hcodec => hwhole payload p (h.codec_eq ▸ hcodec)
  obtain ⟨xs, hmarkers, hbuilds⟩ := sendReadyMediaFrame_builds T t.stream c
  obtain ⟨hsame, -⟩ := hbuilds.timestamps hvideo' hmarkers
  have hnow : ∀ q ∈ (sendReadyMediaFrame T t.stream c).2.2,
      q.rtp.timestamp = s.timestamp + UInt32.ofNat t.ticks :=
    fun q hq => (hsame q hq).trans h.clock
  have hticks : (t.step T c).ticks =
      t.ticks + ticksOf t.stream c.duration (sendReadyMediaFrame T t.stream c).2.2 := rfl
  constructor
  · refine List.forall_mem_append.mpr ⟨fun packets hmem q hq => ?_, ?_⟩
    · obtain ⟨k, hk, hstamp⟩ := hpast.earlier packets hmem q hq
      exact ⟨k, by omega, hstamp⟩
    · refine List.forall_mem_singleton.mpr fun q hq => ⟨t.ticks, ?_, hnow q hq⟩
      have hmarker := hasMarker_of_whole hvideo' hwhole' (List.ne_nil_of_mem hq)
      have hpos := timestampIncrement_pos t.stream.binding.descriptor.clockRateHz c.duration
      rw [hticks, ticksOf, if_pos hmarker]
      omega
  · intro hlt
    have hlt' : t.ticks < 2 ^ 32 := by omega
    refine List.pairwise_append.mpr ⟨hpast.others hlt', List.pairwise_singleton _ _, ?_⟩
    intro packets hmem new hnew q hq q' hq'
    obtain rfl := List.mem_singleton.mp hnew
    obtain ⟨k, hk, hstamp⟩ := hpast.earlier packets hmem q hq
    rw [hstamp, hnow q' hq']
    exact timestamp_ne hk hlt'

/-- **Timestamps of a video stream.** In every run of fewer than `2 ^ 32` ticks the packets count
the sequence number and the nonce, and those of one frame share a timestamp. Those of different
frames have different timestamps when every frame that is begun is completed. -/
theorem frames_timestamps (T : TransportCrypto) {s : OutboundRtpState}
    (hvideo : s.codec.mediaType = .video) (calls : List Call)
    (hticks : (run (Sending.step T) { stream := s } calls).ticks < 2 ^ 32) :
    Counted s (run (Sending.step T) { stream := s } calls).stream
        (run (Sending.step T) { stream := s } calls).frames.flatten ∧
      (∀ packets ∈ (run (Sending.step T) { stream := s } calls).frames, SameTimestamp packets) ∧
      ((∀ c ∈ calls, c.Whole s) →
        (run (Sending.step T) { stream := s } calls).frames.Pairwise OtherTimestamps) := by
  have hstart : Sound s { stream := s } :=
    ⟨rfl, counted_nil s, List.forall_mem_nil _, (UInt32.add_zero s.timestamp).symm⟩
  have hpast : Past s { stream := s } := ⟨List.forall_mem_nil _, fun _ => List.Pairwise.nil⟩
  have hsound : Sound s (run (Sending.step T) { stream := s } calls) :=
    run_inv_of_step (fun t c h => h.step hvideo c) calls hstart
  refine ⟨hsound.counted, hsound.same, fun hwhole => ?_⟩
  have halong : Along (Sending.step T) (fun _ c => c.Whole s) { stream := s } calls :=
    along_iff.mpr fun pre c post heq => hwhole c (by simp [heq])
  have hstep : ∀ t c, Sound s t ∧ Past s t → c.Whole s →
      Sound s (t.step T c) ∧ Past s (t.step T c) :=
    fun t c h hc => ⟨h.1.step hvideo c, h.2.step h.1 hvideo hc⟩
  exact (run_inv hstep ⟨hstart, hpast⟩ halong).2.others hticks

/-- An AV1 stream at its start. -/
def av1Stream : OutboundRtpState := { nonceSuffix := 5, binding := .new .av1 2 }

/-- A frame of two units, each a packet of its own; the first is sent. -/
def twoUnits (outcomes : List SendOutcome) : Call :=
  ⟨.av1, some [0x32, 1, 7, 0x30, 8], 33333333, .sent :: outcomes⟩

lemma whole_twoUnits (outcomes : List SendOutcome) : (twoUnits outcomes).Whole av1Stream := by
  rintro payload p - ⟨⟩ ⟨⟩ -
  have hgives : Gives ⟨.av1, .av1 [0x32, 1, 7, 0x30, 8] 0 0 0⟩
      [([0x10, 0x32, 1, 7], false), ([0x10, 0x30, 8], true)] :=
    ⟨by decide +kernel, by decide +kernel,
      show (RtpPayloadPacketizer.next _).1 = _ by decide +kernel⟩
  exact ⟨_, hgives, by simp [twoUnits]⟩

/-- Two frames; the second packet of the second frame is not sent. -/
def twoFrames : List Call := [twoUnits [.sent], twoUnits [.failed]]

theorem frames_timestamps_twoFrames :
    (run (Sending.step toyCrypto) { stream := av1Stream } twoFrames).ticks = 5998 ∧
    (∀ c ∈ twoFrames, c.Whole av1Stream) ∧
    (run (Sending.step toyCrypto) { stream := av1Stream } twoFrames).frames.Pairwise
      OtherTimestamps := by
  have hticks : (run (Sending.step toyCrypto) { stream := av1Stream } twoFrames).ticks = 5998 := by
    decide +kernel
  have hwhole : ∀ c ∈ twoFrames, c.Whole av1Stream := by simp [twoFrames, whole_twoUnits]
  exact ⟨hticks, hwhole, (frames_timestamps toyCrypto rfl _ (by rw [hticks]; decide)).2.2 hwhole⟩

/-- A frame whose second unit has no size, and a sound one. -/
def brokenFrame : List Call :=
  [⟨.av1, some [0x32, 1, 7, 0x32], 33333333, [.sent]⟩, twoUnits [.sent]]

/-- The first call fails behind its first packet, and the next frame has the timestamp of that
packet. -/
theorem timestamp_shared :
    (run (Sending.step toyCrypto) { stream := av1Stream } brokenFrame).ticks = 2999 ∧
    (run (Sending.step toyCrypto) { stream := av1Stream } brokenFrame).frames.map
      (fun packets => packets.map fun q => q.rtp.timestamp) = [[0], [0, 0]] ∧
    ¬ (run (Sending.step toyCrypto) { stream := av1Stream } brokenFrame).frames.Pairwise
      OtherTimestamps := by
  unfold OtherTimestamps
  decide +kernel

end Cacophony.VideoTimestamps
