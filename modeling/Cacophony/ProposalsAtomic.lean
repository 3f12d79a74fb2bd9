import Cacophony.DaveSession
import Cacophony.MlsPolicy

/-!
What `process_proposals` leaves behind when it rejects its payload.

Messages to append are all checked before the first is stored, so a bad one leaves everything as it
was. References to revoke are followed one by one: those in front of a bad one are revoked, and
the call fails all the same.
-/

namespace Cacophony.ProposalsAtomic

open Mls Progs DaveSession

variable {M : OpenMls} {ε : Type} {g : SessionGroup M.Secrets} {bytes : Bytes} {s s' : Session M}
  {e : ProcessProposalsError M.Error} {pending : List QueuedProposal} {expected : UInt64 → Bool}

/-! ### Errors of the payload -/

/-- The error is due to the payload: bytes that cannot be decoded, a message that is not an allowed
proposal, an unexpected sender or user, an unknown reference. -/
def PayloadError : ProcessProposalsError ε → Prop
  | .noGroup => False
  | .storePendingProposal _ => False
  | .clearPendingCommit _ => False
  | .commitPendingProposals _ => False
  | .serializeCommit _ => False
  | .serializeWelcome _ => False
  | _ => True

/-- The pending proposals, the pending commit of the group and of the session, and the status. -/
structure Unchanged (s s' : Session M) : Prop where
  pendingProposals :
    s'.group.map (·.group.pendingProposals) = s.group.map (·.group.pendingProposals)
  groupCommit : s'.group.map (·.group.pendingCommit) = s.group.map (·.group.pendingCommit)
  pendingCommit : s'.pendingCommit = s.pendingCommit
  status : s'.status = s.status

lemma unchanged_refl (s : Session M) : Unchanged s s := ⟨rfl, rfl, rfl, rfl⟩

lemma Unchanged.group (h : Unchanged s s') (hg : s.group = some g) :
    ∃ g', s'.group = some g' ∧ g'.group.pendingProposals = g.group.pendingProposals := by
  have := h.pendingProposals
  rw [hg] at this
  exact Option.map_eq_some_iff.mp this

/-- A rejected payload changes nothing. -/
def Atomic (operation : ProposalsOperation) (payload : Bytes) (expected : UInt64 → Bool)
    (s : Session M) : Prop :=
  ∀ e s', exec (processProposals operation payload expected) s = (.error e, s') →
    PayloadError e → Unchanged s s'

/-! ### The references of a payload -/

/-- The first reference names a pending proposal. -/
def FirstPending (M : OpenMls) (pending : List QueuedProposal) (bytes : Bytes) : Prop :=
  ∃ r rest, bytes ≠ [] ∧ M.deserializeProposalRef bytes = .ok (r, rest) ∧ Pending pending r

/-- Every reference names a proposal that is still pending when its turn comes. -/
inductive Revocable (M : OpenMls) : List QueuedProposal → Bytes → Prop
  | nil {pending : List QueuedProposal} : Revocable M pending []
  | cons {pending : List QueuedProposal} {bytes r rest : Bytes} (hne : bytes ≠ [])
      (hread : M.deserializeProposalRef bytes = .ok (r, rest)) (hr : Pending pending r)
      (hrest : Revocable M (without pending r) rest) : Revocable M pending bytes

lemma length_without {r : Bytes} (h : Pending pending r) :
    (without pending r).length < pending.length := by
  obtain ⟨q, hq, hr⟩ := h
  rw [without, List.length_eraseP_of_mem hq (decide_eq_true hr)]
  have := List.length_pos_of_mem hq
  omega

/-! ### Revoking -/

lemma revokeProposals_error {error : M.Error} (hne : bytes ≠ [])
    (hread : M.deserializeProposalRef bytes = .error error) :
    revokeProposals (M := M) bytes = throw (.deserializeProposalRef error) := by
  rw [revokeProposals, if_neg (by simpa using hne)]
  split <;> simp_all

lemma revokeProposals_cons {r rest : Bytes} (hne : bytes ≠ [])
    (hread : M.deserializeProposalRef bytes = .ok (r, rest)) :
    revokeProposals (M := M) bytes = (do
      onGroup .noGroup .removePendingProposal (M.removePendingProposal r)
      revokeProposals rest) := by
  rw [revokeProposals, if_neg (by simpa using hne)]
  split <;> simp_all

/-- A pending reference is revoked, and the loop goes on without its proposal. -/
lemma exec_revoke_pending (hM : Store M) (hg : s.group = some g) {r rest : Bytes} (hne : bytes ≠ [])
    (hread : M.deserializeProposalRef bytes = .ok (r, rest))
    (hr : Pending g.group.pendingProposals r) :
    ∃ s₁ g₁, exec (revokeProposals bytes) s = exec (revokeProposals rest) s₁ ∧
      s₁.group = some g₁ ∧ g₁.group.pendingProposals = without g.group.pendingProposals r := by
  obtain ⟨hok, hpending⟩ := hM.remove_pending r (g.group, s.provider) hr
  refine ⟨called s g (M.removePendingProposal r (g.group, s.provider)), _, ?_, rfl, hpending⟩
  rw [revokeProposals_cons hne hread, exec_bind, exec_onGroup hg, hok]
  rfl

/-- The loop stops at a first reference that is not pending, and changes nothing. -/
lemma exec_revoke_rejected (hM : Store M) (hg : s.group = some g) (hne : bytes ≠ [])
    (hfirst : ¬ FirstPending M g.group.pendingProposals bytes) :
    ∃ e s', exec (revokeProposals bytes) s = (.error e, s') ∧ PayloadError e ∧ Unchanged s s' := by
  rcases hread : M.deserializeProposalRef bytes with error | ⟨r, rest⟩
  · refine ⟨.deserializeProposalRef error, s, ?_, trivial, unchanged_refl s⟩
    rw [revokeProposals_error hne hread]
    rfl
  · have hr : ¬ Pending g.group.pendingProposals r := fun hr => hfirst ⟨r, rest, hne, hread, hr⟩
    obtain ⟨⟨error, herror⟩, hpending⟩ := hM.remove_unknown r (g.group, s.provider) hr
    refine ⟨.removePendingProposal error,
      called s g (M.removePendingProposal r (g.group, s.provider)), ?_, trivial, ?_⟩
    · rw [revokeProposals_cons hne hread, exec_bind, exec_onGroup hg, herror]
      rfl
    · refine ⟨?_, ?_, rfl, rfl⟩
      · rw [hg]
        exact congrArg some hpending
      · rw [hg]
        exact congrArg some (hM.remove_pendingCommit r (g.group, s.provider))

lemma exec_revoke_all (hM : Store M) {bytes : Bytes} (h : Revocable M pending bytes) :
    ∀ (s : Session M) (g : SessionGroup M.Secrets), s.group = some g →
      g.group.pendingProposals = pending → ∃ s', exec (revokeProposals bytes) s = (.ok (), s') := by
  induction h with
  | nil =>
    intro s g _ _
    exact ⟨s, by rw [revokeProposals]; rfl⟩
  | cons hne hread hr _ ih =>
    rintro s g hg rfl
    obtain ⟨s₁, g₁, heq, hg₁, hpending⟩ := exec_revoke_pending hM hg hne hread hr
    rw [heq]
    exact ih s₁ g₁ hg₁ hpending

/-- A first reference that is pending goes, and the bad one is among the rest. -/
lemma exec_revoke_first (hM : Store M) (hg : s.group = some g)
    (hfirst : FirstPending M g.group.pendingProposals bytes)
    (hbad : ¬ Revocable M g.group.pendingProposals bytes) :
    ∃ rest s₁ g₁, rest.length < bytes.length ∧
      exec (revokeProposals bytes) s = exec (revokeProposals rest) s₁ ∧ s₁.group = some g₁ ∧
      g₁.group.pendingProposals.length < g.group.pendingProposals.length ∧
      ¬ Revocable M g₁.group.pendingProposals rest := by
  obtain ⟨r, rest, hne, hread, hr⟩ := hfirst
  obtain ⟨s₁, g₁, heq, hg₁, hpending⟩ := exec_revoke_pending hM hg hne hread hr
  refine ⟨rest, s₁, g₁, M.deserializeProposalRef_shorter _ _ _ hread, heq, hg₁, ?_, ?_⟩
  · rw [hpending]
    exact length_without hr
  · rw [hpending]
    exact fun h => hbad (.cons hne hread hr h)

/-- One reference that cannot be revoked fails the call; the store has not grown. -/
lemma exec_revoke_bad (hM : Store M) (bytes : Bytes) (s : Session M)
    (g : SessionGroup M.Secrets) (hg : s.group = some g)
    (hbad : ¬ Revocable M g.group.pendingProposals bytes) :
    ∃ e s' g', exec (revokeProposals bytes) s = (.error e, s') ∧ PayloadError e ∧
      s'.group = some g' ∧
      g'.group.pendingProposals.length ≤ g.group.pendingProposals.length := by
  -- on the number of bytes left, as the loop itself
  induction hn : bytes.length using Nat.strong_induction_on generalizing bytes s g with
  | _ n ih =>
    subst hn
    by_cases hfirst : FirstPending M g.group.pendingProposals bytes
    · obtain ⟨rest, s₁, g₁, hshort, heq, hg₁, hlt, hbad₁⟩ := exec_revoke_first hM hg hfirst hbad
      obtain ⟨e, s', g', hexec, he, hg', hle⟩ := ih rest.length hshort rest s₁ g₁ hg₁ hbad₁ rfl
      exact ⟨e, s', g', heq ▸ hexec, he, hg', hle.trans hlt.le⟩
    · have hne : bytes ≠ [] := fun h => hbad (h ▸ .nil)
      obtain ⟨e, s', hexec, he, hsame⟩ := exec_revoke_rejected hM hg hne hfirst
      obtain ⟨g', hg', hpending⟩ := hsame.group hg
      exact ⟨e, s', g', hexec, he, hg', by rw [hpending]⟩

/-- What is lost when the bad reference is not the first. -/
lemma exec_revoke_lossy (hM : Store M) (hg : s.group = some g)
    (hfirst : FirstPending M g.group.pendingProposals bytes)
    (hbad : ¬ Revocable M g.group.pendingProposals bytes) :
    ∃ e s', exec (revokeProposals bytes) s = (.error e, s') ∧ PayloadError e ∧
      ¬ Unchanged s s' := by
  obtain ⟨rest, s₁, g₁, -, heq, hg₁, hlt, hbad₁⟩ := exec_revoke_first hM hg hfirst hbad
  obtain ⟨e, s', g', hexec, he, hg', hle⟩ := exec_revoke_bad hM rest s₁ g₁ hg₁ hbad₁
  refine ⟨e, s', heq ▸ hexec, he, fun hsame => ?_⟩
  obtain ⟨g'', hg'', hpending⟩ := hsame.group hg
  obtain rfl : g' = g'' := Option.some.inj (hg'.symm.trans hg'')
  rw [hpending] at hle
  omega

/-! ### Appending -/

lemma unchanged_collectProposals (hM : Store M) (s : Session M) (expected : UInt64 → Bool)
    (bytes : Bytes) :
    Always (Unchanged s) (collectProposals expected bytes [] false) := by
  refine always_collectProposals (fun message => always_onGroup ?_) expected bytes [] false
  intro w g r group provider hw hg heq
  obtain ⟨hpending, hcommit⟩ := hM.processMessage message (g.group, w.provider)
  rw [heq] at hpending hcommit
  refine ⟨?_, ?_, hw.pendingCommit, hw.status⟩
  · rw [← hw.pendingProposals, hg]
    exact congrArg some hpending
  · rw [← hw.groupCommit, hg]
    exact congrArg some hcommit

lemma throws_commitProposals (wasEstablished adds : Bool) :
    Throws (fun e => ¬ PayloadError e) (commitProposals (M := M) wasEstablished adds) := by
  refine throws_bind (throws_onGroup id fun _ => id) fun _ => ?_
  refine throws_bind (throws_modify _) fun _ => ?_
  refine throws_bind (throws_ofResult (fun _ => id) _) fun _ => ?_
  refine throws_bind (throws_modify _) fun _ => ?_
  split
  · exact throws_pure _
  · exact throws_bind (throws_ofResult (fun _ => id) _) fun _ => throws_pure _

/-- An error due to the payload comes from the operation on the proposals. -/
lemma exec_applyProposals {operation : ProposalsOperation} {payload : Bytes} (hg : s.group = some g)
    (hbytes : M.deserializeVlBytes payload = .ok bytes) (he : PayloadError e) :
    exec (processProposals operation payload expected) s = (.error e, s') ↔
      exec (applyProposals operation bytes expected) s = (.error e, s') := by
  rw [processProposals, exec_bind, exec_get]
  simp only [hg, hbytes]
  constructor
  · intro h
    refine exec_bind_error (T := fun e => ¬ PayloadError e) (fun adds => ?_) h (not_not.mpr he)
    refine throws_get_bind fun s => ?_
    split
    · refine throws_bind (throws_onGroup id fun _ => id) fun _ => ?_
      refine throws_bind (throws_modify _) fun _ => ?_
      exact throws_bind (throws_modify _) fun _ => throws_pure _
    split
    · refine throws_bind (throws_onGroup id fun _ => id) fun _ => ?_
      exact throws_bind (throws_modify _) fun _ => throws_commitProposals _ _
    · exact throws_commitProposals _ _
  · intro h
    show exec (applyProposals operation bytes expected >>= _) s = _
    rw [exec_bind, h]

lemma unchanged_of_append (hM : Store M)
    (h : exec (applyProposals .append bytes expected) s = (.error e, s')) (he : PayloadError e) :
    Unchanged s s' := by
  have hcollect : exec (collectProposals expected bytes [] false) s = (.error e, s') := by
    refine exec_bind_error (T := fun e => ¬ PayloadError e) (fun collected => ?_) h (not_not.mpr he)
    refine throws_bind (throws_forM (fun proposal => ?_) _) fun _ => throws_pure _
    exact throws_onGroup id fun _ => id
  have := (unchanged_collectProposals hM s expected bytes).exec (unchanged_refl s)
  rw [hcollect] at this
  exact this

/-! ### A rejected payload -/

/-- A rejected payload changes nothing, except where a reference that can be revoked comes first
in a vector with one that cannot. -/
theorem processProposals_atomic_iff (hM : Store M) (operation : ProposalsOperation)
    (payload : Bytes) (expected : UInt64 → Bool) (s : Session M) (g : SessionGroup M.Secrets)
    (hg : s.group = some g) :
    Atomic operation payload expected s ↔
      (operation = .revoke → ∀ bytes, M.deserializeVlBytes payload = .ok bytes →
        FirstPending M g.group.pendingProposals bytes →
        Revocable M g.group.pendingProposals bytes) := by
  constructor
  · rintro hatomic rfl bytes hbytes hfirst
    by_contra hbad
    obtain ⟨e, s', hexec, he, hlost⟩ := exec_revoke_lossy hM hg hfirst hbad
    refine hlost (hatomic e s' ((exec_applyProposals hg hbytes he).mpr ?_) he)
    rw [applyProposals, exec_bind, hexec]
  · intro hcond e s' hexec he
    rcases hbytes : M.deserializeVlBytes payload with error | bytes
    · rw [processProposals, exec_bind, exec_get] at hexec
      simp only [hg, hbytes] at hexec
      cases hexec
      exact unchanged_refl s
    have happly := (exec_applyProposals hg hbytes he).mp hexec
    cases operation with
    | append => exact unchanged_of_append hM happly he
    | revoke =>
      have hrevoke : exec (revokeProposals bytes) s = (.error e, s') :=
        exec_bind_error (T := fun _ => False) (fun _ => throws_pure _) happly id
      have hbad : ¬ Revocable M g.group.pendingProposals bytes := by
        intro h
        obtain ⟨s'', hok⟩ := exec_revoke_all hM h s g hg rfl
        rw [hrevoke] at hok
        cases hok
      have hfirst : ¬ FirstPending M g.group.pendingProposals bytes :=
        fun hfirst => hbad (hcond rfl bytes hbytes hfirst)
      have hne : bytes ≠ [] := fun h => hbad (h ▸ .nil)
      obtain ⟨e', s'', hexec', -, hsame⟩ := exec_revoke_rejected hM hg hne hfirst
      rw [hrevoke] at hexec'
      cases hexec'
      exact hsame

/-- `plainMls` with the proposal store of OpenMLS. -/
def storeMls : OpenMls :=
  { plainMls with
    removePendingProposal := fun r w =>
      if Pending w.1.pendingProposals r then
        (.ok (), { w.1 with pendingProposals := without w.1.pendingProposals r }, w.2)
      else (.error (), w) }

lemma store_storeMls : Store storeMls where
  processMessage _ _ := ⟨rfl, rfl⟩
  remove_pending r w h := by
    simp [storeMls, if_pos h]
  remove_unknown r w h := by
    simp only [storeMls, if_neg h]
    exact ⟨⟨(), rfl⟩, trivial⟩
  remove_pendingCommit r w := by
    simp only [storeMls]
    split <;> rfl

/-- The gateway's proposal to remove the member at leaf 1. -/
def removal : QueuedProposal := ⟨.remove 1, .external 0, [2], true⟩

/-- A group in which the removal is pending, and committed to. -/
def committed : SessionGroup storeMls.Secrets where
  group :=
    { members := [], context := ⟨mls10, supportedCiphersuite, []⟩, ownLeafIndex := 0
      pendingProposals := [removal]
      pendingCommit := some ⟨[removal], none, ⟨mls10, supportedCiphersuite, []⟩⟩
      secrets := () }
  state := .established

def awaiting : Session storeMls :=
  { Session.new 0 0 () 0 with
    group := some committed, pendingCommit := some [0], status := .awaitingCommit }

/-- An `Append` whose second message is a commit. -/
theorem append_to_awaiting_atomic :
    awaiting.group = some committed ∧ Atomic .append [2, 1] (fun _ => true) awaiting :=
  ⟨rfl, (processProposals_atomic_iff store_storeMls .append [2, 1] (fun _ => true) awaiting
    committed rfl).mpr fun h => nomatch h⟩

/-- The removal is no longer pending, although the commit to it still is. -/
def revoked : Session storeMls :=
  { awaiting with
    group := some { committed with group := { committed.group with pendingProposals := [] } } }

/-- One turn of the loop on this session. -/
def turn (r : Bytes) : SessionM storeMls (ProcessProposalsError storeMls.Error) Unit :=
  onGroup .noGroup .removePendingProposal (storeMls.removePendingProposal r)

/-- A known reference and an unknown one behind it. -/
theorem revoke_unknown_after_known :
    exec (processProposals .revoke [2, 9] fun _ => true) awaiting
        = (.error (.removePendingProposal ()), revoked) ∧
      PayloadError (ProcessProposalsError.removePendingProposal ()) ∧
      ¬ Unchanged awaiting revoked := by
  refine ⟨?_, trivial, ?_⟩
  · have hfirst : exec (turn [2]) awaiting = (.ok (), revoked) := rfl
    have hsecond : exec (turn [9]) revoked = (.error (.removePendingProposal ()), revoked) := rfl
    have hbytes : revokeProposals (M := storeMls) [2, 9]
        = (do turn [2]; turn [9]; revokeProposals []) := by
      rw [revokeProposals_cons (List.cons_ne_nil _ _) rfl,
        revokeProposals_cons (List.cons_ne_nil _ _) rfl]
      rfl
    have he : PayloadError (ProcessProposalsError.removePendingProposal ()) := trivial
    have hg : awaiting.group = some committed := rfl
    have hpayload : storeMls.deserializeVlBytes [2, 9] = .ok [2, 9] := rfl
    refine (exec_applyProposals hg hpayload he).mpr ?_
    simp only [applyProposals, hbytes, exec_bind, hfirst, hsecond]
    rfl
  · intro h
    exact absurd h.pendingProposals (by decide)

end Cacophony.ProposalsAtomic
