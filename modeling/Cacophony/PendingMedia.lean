import Cacophony.Assembler
import Cacophony.BucketQueue
import Cacophony.DaveSession
import Cacophony.Gateway
import Cacophony.Loops

/-!
Encrypted frames that wait, `PendingDaveMediaQueues` of `state.rs`, and the retry of them,
`retry_pending_dave_media` of `receive.rs`.

A frame that cannot be decrypted yet waits in the bucket of its reason. The retry pops the frames
of some of the buckets and tries each again, and a frame that still cannot be decrypted goes back
to the bucket of its reason now, which the retry may go on popping from.
-/

namespace Cacophony.PendingMedia

open Gcm Cacophony.Frame Ratchet FrameCodecs Transport
open Assembler Gateway Mls DaveSession
open BucketQueue Loops

/-! ### The queues -/

inductive DavePendingMediaReason
  | missingUser
  | sessionNotReady
  | gatewayPending
  | decryptStatePending
  | noValidCryptorPending
  | stableDecryptFailure
  | expired
  deriving DecidableEq

inductive DavePendingMediaBucket
  | missingUser
  | sessionNotReady
  | gatewayPending
  | decryptStatePending
  deriving DecidableEq

namespace DavePendingMediaBucket

def all : List DavePendingMediaBucket :=
  [missingUser, sessionNotReady, gatewayPending, decryptStatePending]

instance : Fintype DavePendingMediaBucket where
  elems := {missingUser, sessionNotReady, gatewayPending, decryptStatePending}
  complete bucket := by cases bucket <;> decide

def bit : DavePendingMediaBucket → UInt8
  | missingUser => (1 : UInt8) <<< 0
  | sessionNotReady => (1 : UInt8) <<< 1
  | gatewayPending => (1 : UInt8) <<< 2
  | decryptStatePending => (1 : UInt8) <<< 3

def fromReason : DavePendingMediaReason → Option DavePendingMediaBucket
  | .missingUser => some missingUser
  | .sessionNotReady => some sessionNotReady
  | .gatewayPending => some gatewayPending
  | .decryptStatePending | .noValidCryptorPending => some decryptStatePending
  | .stableDecryptFailure | .expired => none

end DavePendingMediaBucket

structure DavePendingMediaRetry where
  bits : UInt8
  deriving DecidableEq

namespace DavePendingMediaRetry

open DavePendingMediaBucket in
def daveState : DavePendingMediaRetry :=
  ⟨sessionNotReady.bit ||| gatewayPending.bit ||| decryptStatePending.bit⟩

def missingUser : DavePendingMediaRetry := ⟨DavePendingMediaBucket.missingUser.bit⟩

def isEmpty (r : DavePendingMediaRetry) : Bool := r.bits = 0

def includes (r : DavePendingMediaRetry) (bucket : DavePendingMediaBucket) : Bool :=
  r.bits &&& bucket.bit ≠ 0

lemma includes_of_isEmpty {r : DavePendingMediaRetry} (h : r.isEmpty = true)
    (bucket : DavePendingMediaBucket) : r.includes bucket = false := by
  have hbits : r.bits = 0 := by simpa [isEmpty] using h
  simp [includes, hbits]

end DavePendingMediaRetry

/-- `PendingMediaFrame`, with the fields that the queues use. -/
structure Media (ρ : Type) extends PendingMediaFrame ρ where
  enqueuedAt : ℕ
  reason : DavePendingMediaReason := .decryptStatePending
  wasPending : Bool := false
  deriving DecidableEq

structure PendingDaveMediaQueues (ρ : Type) where
  ttl : ℕ
  buckets : BucketDeadlineQueue DavePendingMediaBucket (Media ρ) := .empty

namespace PendingDaveMediaQueues

variable {ρ : Type}

/-- `push`; it is called with a reason that has a bucket, and panics with another one. -/
def push (q : PendingDaveMediaQueues ρ) (media : Media ρ) : PendingDaveMediaQueues ρ :=
  match DavePendingMediaBucket.fromReason media.reason with
  | none => q
  | some bucket => { q with buckets := q.buckets.push bucket media (media.enqueuedAt + q.ttl) }

def popRetry (q : PendingDaveMediaQueues ρ) (retry : DavePendingMediaRetry) :
    Option (Media ρ) × PendingDaveMediaQueues ρ :=
  let (media, buckets) := q.buckets.popMatching retry.includes
  (media, { q with buckets })

def popExpired (q : PendingDaveMediaQueues ρ) (now : ℕ) :
    Option (Media ρ) × PendingDaveMediaQueues ρ :=
  let (media, buckets) := q.buckets.popExpired now
  (media, { q with buckets })

def deadline (q : PendingDaveMediaQueues ρ) : Option ℕ := q.buckets.nextDeadline

def pruneSsrcs (q : PendingDaveMediaQueues ρ) (removedSsrcs : List UInt32) :
    PendingDaveMediaQueues ρ :=
  { q with
    buckets := DavePendingMediaBucket.all.foldl
      (fun buckets bucket => buckets.retain bucket fun media => media.rtp.ssrc ∉ removedSsrcs)
      q.buckets }

end PendingDaveMediaQueues

/-! ### Decoding -/

inductive DaveDecryptError
  | missingUser
  | source (error : DecryptError)
  deriving DecidableEq

/-- The kinds of error that the decryption of a frame has. -/
inductive ReceiveDecodeErrorKind
  | missingDaveUser
  | daveNoDecryptorForUser
  | daveNoValidCryptor
  | daveUnencryptedWhenPassthroughDisabled
  | daveOtherDecryptError
  deriving DecidableEq

namespace DaveDecryptError

def receiveDecodeKind : DaveDecryptError → ReceiveDecodeErrorKind
  | missingUser => .missingDaveUser
  | source (.noDecryptorForUser _) => .daveNoDecryptorForUser
  | source (.frame (.noValidCryptor _ _ _ _)) => .daveNoValidCryptor
  | source (.frame .passthroughDisabled) => .daveUnencryptedWhenPassthroughDisabled
  | source (.frame _) => .daveOtherDecryptError

def isNoValidCryptor : DaveDecryptError → Bool
  | source (.frame (.noValidCryptor _ _ _ _)) => true
  | _ => false

end DaveDecryptError

namespace ReceiveDecodeErrorKind

def daveDecryptFailureCanBecomeRecoverable : ReceiveDecodeErrorKind → Bool
  | daveNoDecryptorForUser | daveNoValidCryptor | daveOtherDecryptError => true
  | _ => false

def shouldRetryDaveDecrypt (kind : ReceiveDecodeErrorKind) (stateCanStillChange : Bool) : Bool :=
  kind.daveDecryptFailureCanBecomeRecoverable && stateCanStillChange

end ReceiveDecodeErrorKind

/-- What the receive path asks of the session: whether it is ready, and to decrypt a frame at a
time, which returns and does not change that. -/
structure DaveMedia (σ : Type) where
  ready : σ → Bool
  decryptMediaFrameInto : σ → Option UInt64 → MediaType → Bytes → ℕ →
    Except DaveDecryptError Bytes × σ
  ready_decrypt : ∀ s u t f now, ready (decryptMediaFrameInto s u t f now).2 = ready s

/-- The session itself. A call that does not return is not looked at here and counts as failed. -/
def ofSession (A : Aead) (K : Kdf) (M : OpenMls) (capacity : ℕ) : DaveMedia (Session M) where
  ready s := s.receiveReady
  decryptMediaFrameInto s userId mediaType frame now :=
    match userId with
    | none => (.error .missingUser, s)
    | some userId =>
      let (result, s) := decryptInto A K userId mediaType frame capacity now s
      ((result.getD (.error (.frame .invalidKey))).mapError .source, s)
  ready_decrypt s u t f now := by
    rcases u with _ | u
    · rfl
    · dsimp only
      unfold decryptInto
      split <;> rfl

/-- What a call reads of the connection's state. -/
structure Surroundings where
  ssrcUsers : UInt32 → Option UInt64
  dave : DaveInternalState
  transitionReady : Option UInt16
  davePendingMediaTtl : ℕ

structure ReceivedFrame (ρ : Type) where
  raw : List ρ
  rtp : RtpHeader
  userId : Option UInt64
  mediaType : MediaType
  codec : Codec
  frame : Bytes

/-- The queues and the session, and the frames handed on so far. -/
structure Receive (σ ρ : Type) where
  pendingDaveMedia : PendingDaveMediaQueues ρ
  session : σ
  handedOn : List (Except DaveDecryptError (ReceivedFrame ρ)) := []

variable {σ ρ : Type} (D : DaveMedia σ) (env : Surroundings)

def daveDecryptStateCanStillChange (session : σ) : Bool :=
  !D.ready session || (!env.dave.transitionZeroMediaReady env.transitionReady &&
    !env.dave.gatewayMediaReady)

def enqueueDaveMedia (r : Receive σ ρ) (media : Media ρ) (reason : DavePendingMediaReason) :
    Receive σ ρ :=
  { r with pendingDaveMedia := r.pendingDaveMedia.push { media with reason } }

/-- `decode_or_enqueue_dave_media` at a time; the observer is left out. -/
def decodeOrEnqueueDaveMedia (r : Receive σ ρ) (media : Media ρ) (now : ℕ) :
    Option (Except DaveDecryptError (ReceivedFrame ρ)) × Receive σ ρ :=
  let media := { media with userId := env.ssrcUsers media.rtp.ssrc }
  let gatewayPending := !env.dave.gatewayMediaReady
  let transitionZeroReady := env.dave.transitionZeroMediaReady env.transitionReady
  if media.userId.isNone then (none, enqueueDaveMedia r media .missingUser)
  else if !D.ready r.session then (none, enqueueDaveMedia r media .sessionNotReady)
  else if gatewayPending && !transitionZeroReady then
    (none, enqueueDaveMedia r media .gatewayPending)
  else
    let (result, session) := D.decryptMediaFrameInto r.session media.userId media.codec.mediaType
      media.encryptedFrame now
    let r := { r with session }
    match result with
    | .ok frame => (some (.ok
        ⟨media.raw, media.rtp, media.userId, media.codec.mediaType, media.codec, frame⟩), r)
    | .error error =>
      if now - media.enqueuedAt < env.davePendingMediaTtl &&
          error.receiveDecodeKind.shouldRetryDaveDecrypt
            (daveDecryptStateCanStillChange D env session) then
        let reason := if error.isNoValidCryptor then DavePendingMediaReason.noValidCryptorPending
          else .decryptStatePending
        (none, enqueueDaveMedia r media reason)
      else (some (.error error), r)

/-! ### The retry -/

/-- A retry under way: the frames it has given to `decode_or_enqueue_dave_media`, those it has
dropped, and the rounds so far. -/
structure Retrying (σ ρ : Type) where
  receive : Receive σ ρ
  attempts : List (Media ρ) := []
  expired : List (Media ρ) := []
  rounds : ℕ := 0

/-- A round of the loop; `clock` has the reading of each round. -/
def retryRound (retry : DavePendingMediaRetry) (clock : ℕ → ℕ) (s : Retrying σ ρ) :
    Retrying σ ρ :=
  match s.receive.pendingDaveMedia.popRetry retry with
  | (none, _) => s
  | (some popped, pendingDaveMedia) =>
    let now := clock s.rounds
    let media := { popped with wasPending := true }
    let receive := { s.receive with pendingDaveMedia }
    if env.davePendingMediaTtl ≤ now - media.enqueuedAt then
      { s with receive, expired := s.expired ++ [popped], rounds := s.rounds + 1 }
    else
      let (result, receive) := decodeOrEnqueueDaveMedia D env receive media now
      { s with
        receive := { receive with handedOn := receive.handedOn ++ result.toList }
        attempts := s.attempts ++ [popped]
        rounds := s.rounds + 1 }

/-- `retry_pending_dave_media`; `none` when it has not returned after `fuel` rounds. -/
def retryPendingDaveMedia (retry : DavePendingMediaRetry) (clock : ℕ → ℕ) (fuel : ℕ)
    (r : Receive σ ρ) : Option (Retrying σ ρ) :=
  if retry.isEmpty then some { receive := r }
  else
    loop (fun s : Retrying σ ρ => (s.receive.pendingDaveMedia.popRetry retry).1.isSome)
      (retryRound D env retry clock) fuel { receive := r }

/-! ### What a round does -/

/-- The bucket a frame goes back to, when it cannot be decrypted yet. -/
def deferral (ready : Bool) (media : Media ρ) : Option DavePendingMediaBucket :=
  if (env.ssrcUsers media.rtp.ssrc).isNone then some .missingUser
  else if !ready then some .sessionNotReady
  else if !env.dave.gatewayMediaReady &&
      !env.dave.transitionZeroMediaReady env.transitionReady then some .gatewayPending
  else none

/-- A frame as it goes back to a bucket. -/
def requeued (media : Media ρ) : DavePendingMediaBucket → Media ρ
  | .missingUser => back .missingUser
  | .sessionNotReady => back .sessionNotReady
  | .gatewayPending => back .gatewayPending
  | .decryptStatePending => back .decryptStatePending
where
  back (reason : DavePendingMediaReason) : Media ρ :=
    { media with userId := env.ssrcUsers media.rtp.ssrc, reason, wasPending := true }

variable {D env} {r : Receive σ ρ} {media : Media ρ} {bucket : DavePendingMediaBucket} {now : ℕ}

lemma requeued_enqueuedAt : (requeued env media bucket).enqueuedAt = media.enqueuedAt := by
  cases bucket <;> rfl

lemma requeued_again : { requeued env { media with wasPending := true } bucket with
    wasPending := true } = requeued env media bucket := by
  cases bucket <;> rfl

lemma deferral_requeued {ready : Bool} :
    deferral env ready (requeued env media bucket) = deferral env ready media := by
  cases bucket <;> rfl

variable (D r now) in
/-- A frame that is deferred goes to the bucket of its reason. -/
lemma decodeOrEnqueue_of_deferral (h : deferral env (D.ready r.session) media = some bucket) :
    decodeOrEnqueueDaveMedia D env r media now =
      (none, { r with pendingDaveMedia := { r.pendingDaveMedia with
        buckets := r.pendingDaveMedia.buckets.push bucket
          { requeued env media bucket with wasPending := media.wasPending }
          (media.enqueuedAt + r.pendingDaveMedia.ttl) } }) := by
  unfold deferral at h
  unfold decodeOrEnqueueDaveMedia
  dsimp only
  split at h
  next huser =>
    cases h
    rw [if_pos huser]
    rfl
  next huser =>
    rw [if_neg huser]
    split at h
    next hready =>
      cases h
      rw [if_pos hready]
      rfl
    next hready =>
      rw [if_neg hready]
      split at h
      next hpending =>
        cases h
        rw [if_pos hpending]
        rfl
      next => cases h

variable (D r now) in
/-- Any other frame is decrypted or fails, and does not go back: the state of the decryption
cannot change any more. -/
lemma decodeOrEnqueue_of_no_deferral (h : deferral env (D.ready r.session) media = none) :
    ∃ result session, decodeOrEnqueueDaveMedia D env r media now =
        (some result, { r with session }) ∧ D.ready session = D.ready r.session := by
  unfold deferral at h
  split at h
  · cases h
  next huser =>
    split at h
    · cases h
    next hready =>
      split at h
      · cases h
      next hpending =>
        have hkeep := D.ready_decrypt r.session (env.ssrcUsers media.rtp.ssrc)
          media.codec.mediaType media.encryptedFrame now
        rcases hfound : D.decryptMediaFrameInto r.session (env.ssrcUsers media.rtp.ssrc)
          media.codec.mediaType media.encryptedFrame now with ⟨error | frame, session⟩
        all_goals
          rw [hfound] at hkeep
          simp only [decodeOrEnqueueDaveMedia, huser, hready, hpending, hfound]
        · have hstable : daveDecryptStateCanStillChange D env session = false := by
            have hready' : D.ready session = true := by
              rw [hkeep]
              simpa using hready
            rw [daveDecryptStateCanStillChange, hready', Bool.and_comm]
            simpa using hpending
          refine ⟨.error error, session, ?_, hkeep⟩
          simp [hstable, ReceiveDecodeErrorKind.shouldRetryDaveDecrypt]
        · exact ⟨_, session, rfl, hkeep⟩

/-- The frames in some of the buckets. -/
def Receive.frames (r : Receive σ ρ) (p : DavePendingMediaBucket → Bool) : Multiset (Media ρ) :=
  r.pendingDaveMedia.buckets.contents p

/-- What a round does with the frame it pops from a bucket: it drops it, puts it back, or is done
with it. -/
inductive Handles (D : DaveMedia σ) (env : Surroundings) (now : ℕ) (s s' : Retrying σ ρ)
    (popped : Media ρ) (bucket : DavePendingMediaBucket) : Prop
  | dropped (h : env.davePendingMediaTtl ≤ now - popped.enqueuedAt)
      (attempts : s'.attempts = s.attempts) (expired : s'.expired = s.expired ++ [popped])
      (handedOn : s'.receive.handedOn.length = s.receive.handedOn.length)
      (frames : ∀ p, s.receive.frames p = s'.receive.frames p + if p bucket then {popped} else 0)
  | deferred (next : DavePendingMediaBucket)
      (rest : (DavePendingMediaBucket → Bool) → Multiset (Media ρ))
      (h : now - popped.enqueuedAt < env.davePendingMediaTtl)
      (deferral : deferral env (D.ready s.receive.session) popped = some next)
      (attempts : s'.attempts = s.attempts ++ [popped]) (expired : s'.expired = s.expired)
      (handedOn : s'.receive.handedOn.length = s.receive.handedOn.length)
      (taken : ∀ p, s.receive.frames p = rest p + if p bucket then {popped} else 0)
      (put : ∀ p, s'.receive.frames p =
        rest p + if p next then {requeued env popped next} else 0)
  | finished (h : now - popped.enqueuedAt < env.davePendingMediaTtl)
      (deferral : deferral env (D.ready s.receive.session) popped = none)
      (attempts : s'.attempts = s.attempts ++ [popped]) (expired : s'.expired = s.expired)
      (handedOn : s'.receive.handedOn.length = s.receive.handedOn.length + 1)
      (frames : ∀ p, s.receive.frames p = s'.receive.frames p + if p bucket then {popped} else 0)

variable {retry : DavePendingMediaRetry} {clock : ℕ → ℕ} {s : Retrying σ ρ}

variable (D env clock) in
/-- **A round.** -/
lemma retryRound_spec (h : (s.receive.pendingDaveMedia.popRetry retry).1.isSome) :
    ∃ popped bucket, retry.includes bucket = true ∧
      Handles D env (clock s.rounds) s (retryRound D env retry clock s) popped bucket ∧
      (retryRound D env retry clock s).rounds = s.rounds + 1 ∧
      D.ready (retryRound D env retry clock s).receive.session = D.ready s.receive.session := by
  rcases s.receive.pendingDaveMedia.buckets.contents_popMatching retry.includes with
    ⟨hpop, -⟩ | ⟨bucket, popped, buckets, hbucket, hpop, hcontents⟩
  · simp [PendingDaveMediaQueues.popRetry, hpop] at h
  refine ⟨popped, bucket, hbucket, ?_⟩
  have hround : s.receive.pendingDaveMedia.popRetry retry =
      (some popped, { s.receive.pendingDaveMedia with buckets }) := by
    simp [PendingDaveMediaQueues.popRetry, hpop]
  unfold retryRound
  rw [hround]
  dsimp only
  split
  next hexpired => exact ⟨.dropped hexpired rfl rfl rfl hcontents, rfl, rfl⟩
  next hlive =>
    let popped' : Receive σ ρ :=
      { s.receive with pendingDaveMedia := { s.receive.pendingDaveMedia with buckets } }
    -- that it was pending before does not matter here
    have hsame : deferral env (D.ready s.receive.session) { popped with wasPending := true } =
      deferral env (D.ready s.receive.session) popped := rfl
    rcases hdef : deferral env (D.ready s.receive.session) popped with _ | next
    · obtain ⟨result, session, hdecode, hready⟩ :=
        decodeOrEnqueue_of_no_deferral D popped' (clock s.rounds) (hsame.trans hdef)
      rw [hdecode]
      exact ⟨.finished (not_le.mp hlive) hdef rfl rfl (by simp [popped']) hcontents, rfl, hready⟩
    · have hdecode := decodeOrEnqueue_of_deferral D popped' (clock s.rounds) (hsame.trans hdef)
      rw [requeued_again] at hdecode
      rw [hdecode]
      exact ⟨.deferred next buckets.contents (not_le.mp hlive) hdef rfl rfl (by simp [popped'])
        hcontents fun p => BucketDeadlineQueue.contents_push _ _ _ p, rfl, rfl⟩

/-! ### The whole retry -/

/-- The frames of the retry so far: each was tried once, or dropped, or still waits, and those
that were deferred are back in another bucket. -/
structure Handled (D : DaveMedia σ) (env : Surroundings) (retry : DavePendingMediaRetry)
    (clock : ℕ → ℕ) (r : Receive σ ρ) (s : Retrying σ ρ) : Prop where
  once : (s.attempts : Multiset (Media ρ)) + s.expired + s.receive.frames retry.includes =
    r.frames retry.includes
  back : s.receive.frames (fun bucket => !retry.includes bucket) =
    r.frames (fun bucket => !retry.includes bucket) + (s.attempts.filterMap fun media =>
      (deferral env (D.ready r.session) media).map (requeued env media) : Multiset (Media ρ))
  handedOn : s.receive.handedOn.length = r.handedOn.length +
    s.attempts.countP fun media => deferral env (D.ready r.session) media = none
  expired : ∀ media ∈ s.expired, ∃ k, env.davePendingMediaTtl ≤ clock k - media.enqueuedAt

/-- No frame of the retry that is not expired goes back to one of its buckets. -/
def MovesOn (D : DaveMedia σ) (env : Surroundings) (retry : DavePendingMediaRetry)
    (r : Receive σ ρ) (now : ℕ) : Prop :=
  ∀ media ∈ r.frames retry.includes, now - media.enqueuedAt < env.davePendingMediaTtl →
    ∀ bucket, deferral env (D.ready r.session) media = some bucket →
      retry.includes bucket = false

lemma handled_start : Handled D env retry clock r { receive := r } where
  once := by simp
  back := by simp
  handedOn := by simp
  expired := by simp

/-- The popped frame was in a bucket of the retry, and the other buckets have not changed. -/
lemma frames_popped {frames left : (DavePendingMediaBucket → Bool) → Multiset (Media ρ)}
    {popped : Media ρ} (hbucket : retry.includes bucket = true)
    (h : ∀ p, frames p = left p + if p bucket then {popped} else 0) :
    frames retry.includes = left retry.includes + {popped} ∧
      frames (fun bucket => !retry.includes bucket) =
        left fun bucket => !retry.includes bucket := by
  refine ⟨?_, ?_⟩
  · rw [h, if_pos hbucket]
  · rw [h, hbucket, Bool.not_true, if_neg Bool.false_ne_true, add_zero]

/-- One frame more is accounted for, and one fewer waits. -/
lemma Handled.once_taken {s' : Retrying σ ρ} {popped : Media ρ}
    (h : Handled D env retry clock r s)
    (htaken : (s'.attempts : Multiset (Media ρ)) + s'.expired = s.attempts + s.expired + {popped})
    (hframes : s.receive.frames retry.includes = s'.receive.frames retry.includes + {popped}) :
    (s'.attempts : Multiset (Media ρ)) + s'.expired + s'.receive.frames retry.includes =
      r.frames retry.includes := by
  rw [← h.once, htaken, hframes]
  ac_rfl

lemma Handled.round (h : Handled D env retry clock r s)
    (hready : D.ready s.receive.session = D.ready r.session)
    (hmoves : MovesOn D env retry r now) (hclock : ∀ k, now ≤ clock k)
    (hpop : (s.receive.pendingDaveMedia.popRetry retry).1.isSome) :
    Handled D env retry clock r (retryRound D env retry clock s) ∧
      Multiset.card ((retryRound D env retry clock s).receive.frames retry.includes) <
        Multiset.card (s.receive.frames retry.includes) := by
  obtain ⟨popped, bucket, hbucket, hhandles, -, -⟩ := retryRound_spec D env clock hpop
  generalize retryRound D env retry clock s = s' at hhandles
  cases hhandles with
  | dropped hexp hattempts hexpired hhanded hframes =>
    obtain ⟨hin, hout⟩ := frames_popped hbucket hframes
    refine ⟨⟨h.once_taken ?_ hin, ?_, ?_, ?_⟩, ?_⟩
    · rw [hattempts, hexpired, ← Multiset.coe_add, Multiset.coe_singleton, add_assoc]
    · rw [← hout, h.back, hattempts]
    · rw [hhanded, h.handedOn, hattempts]
    · intro media hmedia
      rw [hexpired] at hmedia
      rcases List.mem_append.mp hmedia with hmedia | hmedia
      · exact h.expired media hmedia
      · rw [List.mem_singleton.mp hmedia]
        exact ⟨_, hexp⟩
    · simp [hin]
  | deferred next rest hlive hdef hattempts hexpired hhanded htaken hput =>
    obtain ⟨hin, hout⟩ := frames_popped hbucket htaken
    rw [hready] at hdef
    have hmem : popped ∈ r.frames retry.includes := by
      rw [← h.once, hin]
      simp
    have hnext : retry.includes next = false := by
      refine hmoves popped hmem (lt_of_le_of_lt ?_ hlive) next hdef
      exact Nat.sub_le_sub_right (hclock _) _
    have hin' := hput retry.includes
    have hout' := hput fun bucket => !retry.includes bucket
    rw [hnext, if_neg Bool.false_ne_true, add_zero] at hin'
    rw [hnext, Bool.not_false, if_pos rfl, ← hout] at hout'
    rw [← hin'] at hin
    refine ⟨⟨h.once_taken ?_ hin, ?_, ?_, ?_⟩, ?_⟩
    · rw [hattempts, hexpired, ← Multiset.coe_add, Multiset.coe_singleton, add_right_comm]
    · rw [hout', h.back, hattempts, List.filterMap_append, ← Multiset.coe_add, add_assoc]
      simp [hdef]
    · rw [hhanded, h.handedOn, hattempts, List.countP_append]
      simp [hdef]
    · rw [hexpired]
      exact h.expired
    · simp [hin]
  | finished hlive hdef hattempts hexpired hhanded hframes =>
    obtain ⟨hin, hout⟩ := frames_popped hbucket hframes
    rw [hready] at hdef
    refine ⟨⟨h.once_taken ?_ hin, ?_, ?_, ?_⟩, ?_⟩
    · rw [hattempts, hexpired, ← Multiset.coe_add, Multiset.coe_singleton, add_right_comm]
    · rw [← hout, h.back, hattempts, List.filterMap_append]
      simp [hdef]
    · rw [hhanded, h.handedOn, hattempts, List.countP_append]
      simp [hdef, add_assoc]
    · rw [hexpired]
      exact h.expired
    · simp [hin]

lemma ready_retryRound (s : Retrying σ ρ) :
    D.ready (retryRound D env retry clock s).receive.session = D.ready s.receive.session := by
  by_cases hpop : (s.receive.pendingDaveMedia.popRetry retry).1.isSome
  · obtain ⟨_, _, _, _, _, hready⟩ := retryRound_spec D env clock hpop
    exact hready
  · have hround : retryRound D env retry clock s = s := by
      unfold retryRound
      rcases hp : s.receive.pendingDaveMedia.popRetry retry with ⟨_ | media, queues⟩
      · rfl
      · simp [hp] at hpop
    rw [hround]

/-- Nothing is left to pop. -/
lemma frames_eq_zero (h : (r.pendingDaveMedia.popRetry retry).1.isSome = false) :
    r.frames retry.includes = 0 := by
  rcases r.pendingDaveMedia.buckets.contents_popMatching retry.includes with
    ⟨-, hempty⟩ | ⟨bucket, popped, buckets, -, hpop, -⟩
  · exact hempty
  · simp [PendingDaveMediaQueues.popRetry, hpop] at h

/-- When no frame goes back to a bucket of the retry, the retry ends after one round a frame. -/
lemma retry_of_movesOn (hmoves : MovesOn D env retry r now) (hclock : ∀ k, now ≤ clock k) :
    ∃ fuel s, retryPendingDaveMedia D env retry clock fuel r = some s ∧
      Handled D env retry clock r s ∧ s.receive.frames retry.includes = 0 := by
  by_cases hempty : retry.isEmpty = true
  · refine ⟨0, { receive := r }, by simp [retryPendingDaveMedia, hempty], handled_start, ?_⟩
    refine BucketDeadlineQueue.contents_eq_zero.mpr fun bucket hbucket => ?_
    rw [DavePendingMediaRetry.includes_of_isEmpty hempty] at hbucket
    exact absurd hbucket Bool.false_ne_true
  · let I (s : Retrying σ ρ) : Prop :=
      Handled D env retry clock r s ∧ D.ready s.receive.session = D.ready r.session
    have hround : ∀ s, I s → (s.receive.pendingDaveMedia.popRetry retry).1.isSome = true →
        I (retryRound D env retry clock s) ∧
          Multiset.card ((retryRound D env retry clock s).receive.frames retry.includes) <
            Multiset.card (s.receive.frames retry.includes) := by
      intro s hs hpop
      obtain ⟨hs', hlt⟩ := hs.1.round hs.2 hmoves hclock hpop
      exact ⟨⟨hs', (ready_retryRound s).trans hs.2⟩, hlt⟩
    have hstart : I { receive := r } := ⟨handled_start, rfl⟩
    obtain ⟨s, hloop, ⟨hs, -⟩, hend⟩ :=
      loop_spec (fun s => Multiset.card (s.receive.frames retry.includes)) hround hstart le_rfl
    refine ⟨Multiset.card (r.frames retry.includes), s, ?_, hs, frames_eq_zero hend⟩
    rw [retryPendingDaveMedia, if_neg hempty]
    exact hloop

/-- A frame that waits in a bucket of the retry and goes back to one of them. -/
def Circles (D : DaveMedia σ) (env : Surroundings) (retry : DavePendingMediaRetry) (now : ℕ)
    (r : Receive σ ρ) : Prop :=
  ∃ media ∈ r.frames retry.includes, now - media.enqueuedAt < env.davePendingMediaTtl ∧
    ∃ bucket, deferral env (D.ready r.session) media = some bucket ∧
      retry.includes bucket = true

/-- While the clock stands still, such a frame is popped again and again. -/
lemma Circles.round (h : Circles D env retry now s.receive) :
    (s.receive.pendingDaveMedia.popRetry retry).1.isSome = true ∧
      Circles D env retry now (retryRound D env retry (fun _ => now) s).receive := by
  obtain ⟨media, hmedia, hlive, bucket, hdef, hbucket⟩ := h
  have hpop : (s.receive.pendingDaveMedia.popRetry retry).1.isSome = true := by
    by_contra hno
    rw [frames_eq_zero (by simpa using hno)] at hmedia
    simp at hmedia
  obtain ⟨popped, source, hsource, hhandles, -, hready⟩ :=
    retryRound_spec D env (fun _ => now) hpop
  refine ⟨hpop, ?_⟩
  unfold Circles
  rw [hready]
  -- another frame was popped, and this one still waits
  have hstays (hin : media ∈ (retryRound D env retry (fun _ => now) s).receive.frames
      retry.includes) := (⟨media, hin, hlive, bucket, hdef, hbucket⟩ :
        ∃ media ∈ (retryRound D env retry (fun _ => now) s).receive.frames retry.includes,
          now - media.enqueuedAt < env.davePendingMediaTtl ∧ ∃ bucket,
            deferral env (D.ready s.receive.session) media = some bucket ∧
              retry.includes bucket = true)
  cases hhandles with
  | dropped hexp _ _ _ hframes =>
    rw [hframes, if_pos hsource, Multiset.mem_add, Multiset.mem_singleton] at hmedia
    rcases hmedia with hmedia | rfl
    · exact hstays hmedia
    · omega
  | deferred next rest _ hdef' _ _ _ htaken hput =>
    rw [htaken, if_pos hsource, Multiset.mem_add, Multiset.mem_singleton] at hmedia
    rcases hmedia with hmedia | rfl
    · refine hstays ?_
      rw [hput]
      exact Multiset.mem_add.mpr (.inl hmedia)
    · -- it was this one, and it is back
      rw [hdef] at hdef'
      obtain rfl := Option.some.inj hdef'
      refine ⟨requeued env media bucket, ?_, by rwa [requeued_enqueuedAt], bucket, ?_, hbucket⟩
      · rw [hput, if_pos hbucket]
        simp
      · rwa [deferral_requeued]
  | finished _ hdef' _ _ _ hframes =>
    rw [hframes, if_pos hsource, Multiset.mem_add, Multiset.mem_singleton] at hmedia
    rcases hmedia with hmedia | rfl
    · exact hstays hmedia
    · rw [hdef] at hdef'
      cases hdef'

lemma retry_eq_none (h : Circles D env retry now r) (fuel : ℕ) :
    retryPendingDaveMedia D env retry (fun _ => now) fuel r = none := by
  have hempty : ¬ retry.isEmpty = true := by
    obtain ⟨_, _, _, bucket, _, hbucket⟩ := h
    intro hempty
    rw [DavePendingMediaRetry.includes_of_isEmpty hempty] at hbucket
    exact Bool.false_ne_true hbucket
  rw [retryPendingDaveMedia, if_neg hempty]
  exact loop_eq_none (I := fun s : Retrying σ ρ => Circles D env retry now s.receive)
    (fun s hs => hs.round) fuel h

lemma circles_of_not_movesOn (h : ¬ MovesOn D env retry r now) : Circles D env retry now r := by
  simp only [MovesOn, not_forall, Bool.not_eq_false] at h
  obtain ⟨media, hmedia, hlive, bucket, hdef, hbucket⟩ := h
  exact ⟨media, hmedia, hlive, bucket, hdef, hbucket⟩

/-- **The retry.** At every pace of the clock it ends and handles each frame once, exactly when
no frame that is not expired goes back to one of its own buckets. -/
theorem retry_once_iff (D : DaveMedia σ) (env : Surroundings) (retry : DavePendingMediaRetry)
    (r : Receive σ ρ) (now : ℕ) :
    (∀ clock : ℕ → ℕ, Monotone clock → clock 0 = now →
      ∃ fuel s, retryPendingDaveMedia D env retry clock fuel r = some s ∧
        Handled D env retry clock r s ∧ s.receive.frames retry.includes = 0) ↔
    MovesOn D env retry r now := by
  constructor
  · intro h
    by_contra hmoves
    obtain ⟨fuel, s, hreturns, -⟩ := h (fun _ => now) monotone_const rfl
    rw [retry_eq_none (circles_of_not_movesOn hmoves)] at hreturns
    cases hreturns
  · rintro hmoves clock hclock rfl
    exact retry_of_movesOn hmoves fun k => hclock (Nat.zero_le k)

def idleMedia : DaveMedia Bool where
  ready := id
  decryptMediaFrameInto s _ _ _ _ := (.error .missingUser, s)
  ready_decrypt _ _ _ _ _ := rfl

/-- A frame of a user whose stream is not known yet. -/
def unknownStream : Media Unit where
  raw := []
  rtp := ⟨2, false, false, true, 120, 0, 0, 7, 12, 12⟩
  userId := none
  codec := .opus
  encryptedFrame := [1, 2, 3]
  dave := true
  enqueuedAt := 0
  reason := .missingUser

def waiting : Receive Bool Unit where
  pendingDaveMedia := PendingDaveMediaQueues.push { ttl := 5 } unknownStream
  session := true

/-- The stream of another user is known. -/
def otherUser : Surroundings :=
  ⟨fun ssrc => if ssrc = 8 then some 1 else none, {}, none, 5⟩

/-- The retry of the frames without a user does not return while the clock stands still. -/
theorem retry_does_not_return :
    ¬ ∃ fuel s, retryPendingDaveMedia idleMedia otherUser .missingUser (fun _ => 1) fuel waiting =
      some s := by
  rintro ⟨fuel, s, hreturns⟩
  have hcircles : Circles idleMedia otherUser .missingUser 1 waiting :=
    ⟨unknownStream, by decide +kernel, by decide, .missingUser, by decide, by decide⟩
  rw [retry_eq_none hcircles] at hreturns
  cases hreturns

end Cacophony.PendingMedia
