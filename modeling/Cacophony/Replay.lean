import Cacophony.Receiver

/-!
The replay window is exact.

A manager accepts a nonce when it is newer than all it has accepted, or when it is missing:
behind the first accepted nonce, not accepted, and at most `1000` below the newest. The window
keeps the missing nonces twice. `order` is ascending and may hold nonces that are not missing
any more; `members` is the set of the missing ones.
-/

namespace Cacophony.Replay

open Gcm Cacophony.Frame Runs Ratchet Receiver

/-! ### What a history asks for -/

/-- The largest number of a history. -/
def newest (A : List ℕ) : ℕ := A.foldr max 0

/-- The numbers that a window of size `k` still waits for. -/
def Missing (k : ℕ) (A : List ℕ) (w : ℕ) : Prop :=
  (∃ first, A.head? = some first ∧ first < w) ∧ w < newest A ∧ w ∉ A ∧ newest A - k ≤ w

def Accepts (k : ℕ) (A : List ℕ) (w : ℕ) : Prop := A = [] ∨ newest A < w ∨ Missing k A w

variable {A : List ℕ} {k w x : ℕ}

lemma le_newest (h : x ∈ A) : x ≤ newest A := by
  induction A with
  | nil => simp at h
  | cons a A ih =>
    rcases List.mem_cons.mp h with rfl | h
    · exact le_max_left _ _
    · exact (ih h).trans (le_max_right _ _)

lemma newest_append (A : List ℕ) (w : ℕ) : newest (A ++ [w]) = max (newest A) w := by
  induction A with
  | nil => simp [newest]
  | cons a A ih =>
    simp only [newest, List.cons_append, List.foldr_cons] at ih ⊢
    rw [ih, max_assoc]

lemma newest_mem (h : A ≠ []) : newest A ∈ A := by
  induction A with
  | nil => exact absurd rfl h
  | cons a A ih =>
    rcases eq_or_ne A [] with rfl | hA
    · simp [newest]
    · rcases max_choice a (newest A) with hmax | hmax
      · exact List.mem_cons.mpr (.inl hmax)
      · refine List.mem_cons.mpr (.inr ?_)
        rw [newest, List.foldr_cons, ← newest, hmax]
        exact ih hA

lemma Accepts.not_mem (h : Accepts k A w) : w ∉ A := by
  rcases h with rfl | hlt | hm
  · simp
  · exact fun hmem => absurd (le_newest hmem) (not_le.mpr hlt)
  · exact hm.2.2.1

/-- What is missing behind a new number, above the window as it was. -/
lemma missing_of_newer (hA : A ≠ []) (hw : newest A < w) : Missing k (A ++ [w]) x ↔
    (Missing k A x ∧ w - k ≤ x) ∨ (max (w - k) (newest A + 1) ≤ x ∧ x < w) := by
  obtain ⟨first, hfirst⟩ : ∃ first, A.head? = some first := by
    simpa [Option.isSome_iff_exists] using (List.isSome_head? (l := A)).mpr hA
  have hle : first ≤ newest A := le_newest (List.mem_of_head? hfirst)
  have hmem := newest_mem hA
  have hout (hx : newest A < x) : x ∉ A := fun h => absurd (le_newest h) (not_le.mpr hx)
  have hmax : max (newest A) w = w := max_eq_right hw.le
  have hhead : (A ++ [w]).head? = some first := by
    rw [List.head?_append, hfirst]
    rfl
  simp only [Missing, newest_append, hmax, hhead, hfirst, Option.some.injEq, exists_eq_left',
    List.mem_append, List.mem_singleton, not_or, max_le_iff]
  constructor
  · rintro ⟨h1, h2, ⟨h3, -⟩, h4⟩
    rcases lt_trichotomy x (newest A) with hlt | heq | hgt
    · exact .inl ⟨⟨h1, hlt, h3, by omega⟩, h4⟩
    · exact absurd (heq ▸ hmem) h3
    · exact .inr ⟨⟨h4, hgt⟩, h2⟩
  · rintro (⟨⟨h1, h2, h3, -⟩, h4⟩ | ⟨⟨h1, h2⟩, h3⟩)
    · exact ⟨h1, by omega, ⟨h3, by omega⟩, h4⟩
    · exact ⟨by omega, h3, ⟨hout (by omega), by omega⟩, h1⟩

/-- What is missing behind a number that was missing. -/
lemma missing_of_late (hw : Missing k A w) : Missing k (A ++ [w]) x ↔ Missing k A x ∧ x ≠ w := by
  obtain ⟨⟨first, hfirst, -⟩, hlt, -, -⟩ := hw
  have hmax : max (newest A) w = newest A := max_eq_left hlt.le
  have hhead : (A ++ [w]).head? = some first := by
    rw [List.head?_append, hfirst]
    rfl
  simp only [Missing, newest_append, hmax, hhead, hfirst, List.mem_append, List.mem_singleton,
    not_or]
  tauto

/-! ### The window -/

open MissingNonceWindow

/-- A window with numbers below `bound`. -/
structure Ordered (m : MissingNonceWindow) (bound : ℕ) : Prop where
  sorted : m.order.Pairwise (· < ·)
  mem_order : ∀ x ∈ m.members, x ∈ m.order
  lt_bound : ∀ x ∈ m.order, x < bound

variable {m : MissingNonceWindow} {bound : ℕ}

lemma Ordered.remove (h : Ordered m bound) (w : ℕ) : Ordered (m.remove w) bound :=
  ⟨h.sorted, fun x hx => h.mem_order x (Finset.mem_of_mem_erase hx), h.lt_bound⟩

lemma Ordered.pruneBefore (h : Ordered m bound) (oldest : ℕ) :
    Ordered (m.pruneBefore oldest) bound ∧
    ∀ x, x ∈ (m.pruneBefore oldest).members ↔ x ∈ m.members ∧ oldest ≤ x := by
  obtain ⟨order, members⟩ := m
  unfold MissingNonceWindow.pruneBefore
  induction order generalizing members with
  | nil =>
    refine ⟨h, fun x => ⟨fun hx => ?_, And.left⟩⟩
    simpa using h.mem_order x hx
  | cons a order ih =>
    obtain ⟨hsorted, hmem, hlt⟩ := h
    obtain ⟨ha, hsorted'⟩ := List.pairwise_cons.mp hsorted
    dsimp only [pruneFrom] at hmem hlt ⊢
    split
    next hold =>
      have hrest : Ordered ⟨order, members.erase a⟩ bound := by
        refine ⟨hsorted', fun x hx => ?_, fun x hx => hlt x (List.mem_cons_of_mem _ hx)⟩
        obtain ⟨hne, hx⟩ := Finset.mem_erase.mp hx
        exact (List.mem_cons.mp (hmem x hx)).resolve_left hne
      obtain ⟨hord, hiff⟩ := ih _ hrest
      refine ⟨hord, fun x => (hiff x).trans ?_⟩
      rw [Finset.mem_erase]
      constructor
      · rintro ⟨⟨-, hx⟩, hle⟩
        exact ⟨hx, hle⟩
      · rintro ⟨hx, hle⟩
        exact ⟨⟨by omega, hx⟩, hle⟩
    next hnew =>
      refine ⟨⟨hsorted, hmem, hlt⟩, fun x => ⟨fun hx => ⟨hx, ?_⟩, And.left⟩⟩
      -- the front is the smallest
      rcases List.mem_cons.mp (hmem x hx) with rfl | hx'
      · exact not_lt.mp hnew
      · have := ha x hx'
        omega

lemma Ordered.pushRange (h : Ordered m bound) (len : ℕ) :
    Ordered ((List.range' bound len).foldl pushBack m) (bound + len) ∧
    ∀ x, x ∈ ((List.range' bound len).foldl pushBack m).members ↔
      x ∈ m.members ∨ (bound ≤ x ∧ x < bound + len) := by
  induction len generalizing m bound with
  | zero => exact ⟨h, fun x => by simp⟩
  | succ len ih =>
    have hnew : bound ∉ m.members := fun hb => (h.lt_bound _ (h.mem_order _ hb)).false
    have hpush : Ordered (m.pushBack bound) (bound + 1) := by
      rw [pushBack, if_neg hnew]
      refine ⟨?_, fun x hx => ?_, fun x hx => ?_⟩
      · exact List.pairwise_append.mpr ⟨h.sorted, List.pairwise_singleton _ _, by
          simpa using h.lt_bound⟩
      · rcases Finset.mem_insert.mp hx with rfl | hx
        · simp
        · exact List.mem_append_left _ (h.mem_order x hx)
      · rcases List.mem_append.mp hx with hx | hx
        · have := h.lt_bound x hx
          omega
        · have := List.mem_singleton.mp hx
          omega
    obtain ⟨hord, hiff⟩ := ih hpush
    rw [List.range'_succ, List.foldl_cons]
    refine ⟨by rwa [Nat.add_right_comm] at hord, fun x => (hiff x).trans ?_⟩
    rw [pushBack, if_neg hnew, Finset.mem_insert]
    constructor
    · rintro ((rfl | hx) | hx)
      · exact .inr (by omega)
      · exact .inl hx
      · exact .inr (by omega)
    · rintro (hx | hx)
      · exact .inl (.inr hx)
      · by_cases hxb : x = bound
        · exact .inl (.inl hxb)
        · exact .inr (by omega)

/-! ### The manager -/

/-- The manager has accepted the nonces of `A`, in this order. -/
structure Tracks (m : CryptorManager) (A : List ℕ) : Prop where
  nodup : A.Nodup
  newest_eq : m.newestNonce = if A = [] then none else some (newest A)
  ordered : Ordered m.missingNonces (newest A)
  members_iff : ∀ x, x ∈ m.missingNonces.members ↔ Missing maxMissingNonces A x

variable {m m' : CryptorManager}

lemma tracks_new (createdAt : ℕ) (ratchet : HashRatchet) : Tracks (.new createdAt ratchet) [] where
  nodup := .nil
  newest_eq := rfl
  ordered := ⟨.nil, by simp [CryptorManager.new], by simp [CryptorManager.new]⟩
  members_iff := by simp [CryptorManager.new, Missing]

lemma Tracks.congr (h : Tracks m A) (hn : m'.newestNonce = m.newestNonce)
    (hw : m'.missingNonces = m.missingNonces) : Tracks m' A :=
  ⟨h.nodup, hn ▸ h.newest_eq, hw ▸ h.ordered, hw ▸ h.members_iff⟩

lemma Tracks.canProcessNonce (h : Tracks m A) (generation nonce : UInt32) :
    m.canProcessNonce generation nonce = true ↔
      Accepts maxMissingNonces A (wrappedNonce generation nonce) := by
  unfold CryptorManager.canProcessNonce
  rw [h.newest_eq]
  by_cases hA : A = []
  · simp [hA, Accepts]
  · simp [hA, Accepts, MissingNonceWindow.contains, h.members_iff]

/-- The first nonce: nothing is missing in front of it. -/
lemma Tracks.recordNonce_first (h : Tracks m []) (w : ℕ) : Tracks (m.recordNonce w) [w] := by
  have hempty (x : ℕ) : x ∉ m.missingNonces.members := by
    rw [h.members_iff]
    simp [Missing]
  unfold CryptorManager.recordNonce
  rw [h.newest_eq, if_pos rfl]
  refine ⟨List.nodup_singleton w, by simp [newest],
    ⟨h.ordered.sorted, h.ordered.mem_order, fun x hx => ?_⟩, fun x => ?_⟩
  · exact absurd (h.ordered.lt_bound x hx) (Nat.not_lt_zero x)
  · simp only [hempty, false_iff, Missing, newest, List.head?_cons, Option.some.injEq,
      exists_eq_left', List.foldr_cons, List.foldr_nil]
    omega

/-- A newer nonce: what lies between it and the newest one before is missing now. -/
lemma Tracks.recordNonce_newer (h : Tracks m A) (hA : A ≠ []) (hnodup : (A ++ [w]).Nodup)
    (hlt : newest A < w) : Tracks (m.recordNonce w) (A ++ [w]) := by
  unfold CryptorManager.recordNonce
  rw [h.newest_eq, if_neg hA]
  dsimp only
  rw [if_pos hlt]
  obtain ⟨hord, hiff⟩ := h.ordered.pruneBefore (w - maxMissingNonces)
  set first := max (w - maxMissingNonces) (newest A + 1) with hfirst
  have hord' : Ordered (m.missingNonces.pruneBefore (w - maxMissingNonces)) first :=
    ⟨hord.sorted, hord.mem_order, fun x hx =>
      (hord.lt_bound x hx).trans (lt_of_lt_of_le (Nat.lt_succ_self _) (le_max_right _ _))⟩
  obtain ⟨hpush, hpiff⟩ := hord'.pushRange (w - first)
  have hle : first ≤ w := by omega
  have hmax : newest (A ++ [w]) = w := by rw [newest_append, max_eq_right hlt.le]
  rw [Nat.add_sub_cancel' hle] at hpush hpiff
  refine ⟨hnodup, ?_, ?_, fun x => ?_⟩
  · rw [if_neg (by simp), hmax]
  · rw [hmax]
    dsimp only
    exact hpush
  · rw [hpiff, hiff, h.members_iff, missing_of_newer hA hlt]

/-- A late nonce leaves the window. -/
lemma Tracks.recordNonce_late (h : Tracks m A) (hA : A ≠ []) (hnodup : (A ++ [w]).Nodup)
    (hge : ¬ newest A < w) (hlate : Missing maxMissingNonces A w) :
    Tracks (m.recordNonce w) (A ++ [w]) := by
  have hmax : newest (A ++ [w]) = newest A := by
    rw [newest_append, max_eq_left (not_lt.mp hge)]
  unfold CryptorManager.recordNonce
  rw [h.newest_eq, if_neg hA]
  dsimp only
  rw [if_neg hge]
  refine ⟨hnodup, ?_, ?_, fun x => ?_⟩
  · rw [if_neg (by simp), hmax]
  · rw [hmax]
    exact h.ordered.remove w
  · rw [missing_of_late hlate, ← h.members_iff, MissingNonceWindow.remove, Finset.mem_erase,
      and_comm]

/-- **An accepted nonce.** -/
theorem Tracks.recordNonce (h : Tracks m A) (hw : Accepts maxMissingNonces A w) :
    Tracks (m.recordNonce w) (A ++ [w]) := by
  have hnodup : (A ++ [w]).Nodup := by
    rw [List.nodup_append]
    exact ⟨h.nodup, List.nodup_singleton w, by
      rintro a ha b hb rfl
      exact hw.not_mem (List.mem_singleton.mp hb ▸ ha)⟩
  by_cases hA : A = []
  · subst hA
    exact h.recordNonce_first w
  by_cases hlt : newest A < w
  · exact h.recordNonce_newer hA hnodup hlt
  · rcases hw with hw | hw | hw
    · exact absurd hw hA
    · exact absurd hw hlt
    · exact h.recordNonce_late hA hnodup hlt hw

lemma cipher_keeps (K : Kdf) (m : CryptorManager) (generation : UInt32) (now : Readings) :
    (m.cipher K generation now).2.newestNonce = m.newestNonce ∧
      (m.cipher K generation now).2.missingNonces = m.missingNonces ∧
      (m.cipher K generation now).2.newestGeneration = m.newestGeneration := by
  unfold CryptorManager.cipher
  dsimp only
  split
  · exact ⟨rfl, rfl, rfl⟩
  split
  · exact ⟨rfl, rfl, rfl⟩
  · unfold CryptorManager.insertCipher
    split
    · exact ⟨rfl, rfl, rfl⟩
    · exact ⟨rfl, rfl, rfl⟩
    · dsimp only
      split <;> exact ⟨rfl, rfl, rfl⟩

lemma Tracks.reportSuccess (h : Tracks m A) {generation nonce : UInt32}
    (hw : Accepts maxMissingNonces A (wrappedNonce generation nonce)) (elapsed : ℕ) :
    Tracks (m.reportSuccess generation nonce elapsed) (A ++ [wrappedNonce generation nonce]) := by
  have hrec := h.recordNonce hw
  unfold CryptorManager.reportSuccess
  dsimp only
  split
  · exact hrec
  · exact hrec.congr rfl rfl

/-! ### Runs -/

/-- A manager and the wrapped nonces it has accepted. -/
structure Log where
  manager : CryptorManager
  accepted : List ℕ := []

variable (E : Aead) (K : Kdf)

/-- A call of `decrypt`; the nonce is accepted when the call succeeds. -/
def Log.step (s : Log) (call : ParsedFrame × Readings) : Log :=
  let generation := s.manager.generationOf call.1
  let (result, manager) := s.manager.decrypt E K call.1 call.2
  match result with
  | some (.ok _) =>
    ⟨manager, s.accepted ++ [wrappedNonce generation call.1.truncatedNonce]⟩
  | _ => ⟨manager, s.accepted⟩

lemma Tracks.step {s : Log} (h : Tracks s.manager s.accepted) (call : ParsedFrame × Readings) :
    Tracks (s.step E K call).manager (s.step E K call).accepted := by
  by_cases hcan : s.manager.canProcessNonce (s.manager.generationOf call.1) call.1.truncatedNonce
  · simp only [Log.step, CryptorManager.decrypt, hcan, if_true]
    have hacc := (h.canProcessNonce _ _).mp hcan
    obtain ⟨hn, hw, -⟩ := cipher_keeps K s.manager (s.manager.generationOf call.1) call.2
    generalize s.manager.cipher K (s.manager.generationOf call.1) call.2 = found at hn hw ⊢
    have hkeep : Tracks found.2 s.accepted := h.congr hn hw
    obtain ⟨_ | _ | cipher, manager⟩ := found
    · exact hkeep
    · exact hkeep
    · dsimp only
      rcases cipher.decryptInto E (s.manager.generationOf call.1) call.1 with _ | output
      · exact hkeep
      · exact hkeep.reportSuccess hacc _
  · simp only [Log.step, CryptorManager.decrypt, hcan, Bool.false_eq_true, if_false]
    exact h

/-- A new manager, after a sequence of calls. -/
def Log.after (createdAt : ℕ) (ratchet : HashRatchet)
    (calls : List (ParsedFrame × Readings)) : Log :=
  run (Log.step E K) ⟨.new createdAt ratchet, []⟩ calls

variable (createdAt : ℕ) (ratchet : HashRatchet) (calls : List (ParsedFrame × Readings))

lemma tracks_after : Tracks (Log.after E K createdAt ratchet calls).manager
    (Log.after E K createdAt ratchet calls).accepted :=
  run_inv_of_step (I := fun s : Log => Tracks s.manager s.accepted)
    (fun _ call h => h.step E K call) calls (tracks_new createdAt ratchet)

/-- **The replay window.** Whatever frames a manager is given, and at whatever times, it accepts
no wrapped nonce twice, and the ones it would accept next are the newer ones and the missing
ones. -/
theorem canProcessNonce_after : (Log.after E K createdAt ratchet calls).accepted.Nodup ∧
    ∀ generation nonce,
      ((Log.after E K createdAt ratchet calls).manager.canProcessNonce generation nonce = true ↔
        Accepts 1000 (Log.after E K createdAt ratchet calls).accepted
          (wrappedNonce generation nonce)) :=
  ⟨(tracks_after E K createdAt ratchet calls).nodup,
    (tracks_after E K createdAt ratchet calls).canProcessNonce⟩

end Cacophony.Replay
