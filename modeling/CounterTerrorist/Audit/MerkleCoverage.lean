import CounterTerrorist.Audit.Steps
import CounterTerrorist.Core.Json
import CounterTerrorist.Core.MerkleBinding
import Mathlib.Data.List.Perm.Basic

/-!
# Which commitment covers which event

The hash of every event that is not a commitment is collected in `currentSessionHashes`, taken over
by a call of `commitMerkleRoot`, and given up by it as soon as `logEvent` has returned. Every hash
should be in one place, or be covered by one commitment.

## Two ways to go wrong

* The flag that keeps a second call out is set after the integrity check of the TPM is awaited. Two
  calls can both pass it; the second takes over an empty list and commits to nothing.
* `logEvent` silently drops what it is given when the queue is too long. The hashes of a commitment
  that is dropped are covered by nothing, ever.

`Committable` excludes both. Then no hash is lost or covered twice and no commitment is empty
(`merkle_coverage`). What a commitment says about its hashes is all there is to say, as far as its
hash is ideal (`commitment_binding`).
-/

namespace Audit

open Core List Machine Option AuditService MerkleTree Commit

namespace AuditService

variable (p : Ports)

/-- The hashes a suspended `commitMerkleRoot` has taken over. -/
def held : Commit → List String
  | .rooting hashes => hashes
  | .signing hashes _ => hashes
  | .checking | .finishing => []

/-- The hash that is waiting for `merkleTree`. -/
def leaf : Option Processing → List String
  | some ⟨_, _, .addingLeaf hash⟩ => [hash]
  | _ => []

/-- The hashes that are to be covered: those of the ledger's events that are no commitments. -/
def leaves (s : AuditService) : List String :=
  (s.history.ledger.filter fun e ↦ e.type != "MERKLE_COMMIT").map AuditEvent.hash

/-- Where hashes are: covered, in a commitment in progress, collected, or about to be. -/
def accounted (s : AuditService) : List String :=
  s.history.covered.flatten ++ s.commits.flatMap held ++ s.currentSessionHashes ++ leaf s.processing

/-- The invariant. -/
structure Covering (s : AuditService) : Prop where
  perm : s.leaves.Perm s.accounted
  covered : ∀ hashes ∈ s.history.covered, hashes ≠ []
  commits : ∀ c ∈ s.commits, c = .checking ∨ c = .finishing ∨ held c ≠ []

/-- A step of local logging in which a commitment that passes its integrity check finds hashes to
take over, and one that is logged finds room in the queue. -/
def Committable (s : AuditService) : Action → Prop
  | .queue .leafRejected _ => False
  | .syncEvents _ | .sync .. => False
  | .commit _ (.integrity true) _ => s.currentSessionHashes ≠ []
  | .commit _ .rooted _ => p.tpm.isNone → s.logQueue.length ≤ maxQueueDepth
  | .commit _ (.signed _) _ => s.logQueue.length ≤ maxQueueDepth
  | _ => True

variable {p} {s t : AuditService}

theorem covering_start (h : String) (r : KvAuditRepository) : Covering (.start h r) :=
  ⟨.nil, nofun, nofun⟩

/-! ### Counting -/

/-- The equation behind the permutation, one hash at a time. -/
theorem perm_accounted_iff :
    s.leaves.Perm s.accounted ↔ ∀ x, s.leaves.count x = s.history.covered.flatten.count x +
      (s.commits.flatMap held).count x + s.currentSessionHashes.count x +
        (leaf s.processing).count x := by
  rw [perm_iff_count]
  simp only [accounted, count_append]

variable {cs : List Commit} {i : ℕ} {c : Commit} {rest : List (LogEntry JsTree)} {tick : Tick}
  {entry x : LogEntry JsTree} {hash : String} {reply : CommitReply} {hashes : List String}

theorem count_held_split (hi : cs[i]? = some c) (x : String) : (cs.flatMap held).count x =
      (held c).count x + ((cs.eraseIdx i).flatMap held).count x := by
  obtain ⟨hlt, rfl⟩ := List.getElem?_eq_some_iff.1 hi
  have hperm : (cs[i] :: cs.eraseIdx i).Perm cs := getElem_cons_eraseIdx_perm hlt
  rw [← (hperm.flatMap_right held).count_eq x, flatMap_cons, count_append]

theorem count_held_set (hi : cs[i]? = some c) (c' : Commit) (x : String) :
    ((cs.set i c').flatMap held).count x =
      (held c').count x + ((cs.eraseIdx i).flatMap held).count x := by
  obtain ⟨hlt, -⟩ := List.getElem?_eq_some_iff.1 hi
  have hset : (cs.set i c')[i]? = some c' := by simp [hlt]
  rw [count_held_split hset x, eraseIdx_set_eq]

/-! ### What the helpers do to hashes -/

/-- Nothing about hashes is changed, apart from the one that waits for `merkleTree`. -/
structure SameHashes (s t : AuditService) : Prop where
  ledger : t.history.ledger = s.history.ledger
  covered : t.history.covered = s.history.covered
  commits : t.commits = s.commits
  session : t.currentSessionHashes = s.currentSessionHashes

theorem GoesOn.sameHashes (h : GoesOn s rest tick t) : SameHashes s t := by
  refine ⟨?_, ?_, ?_, ?_⟩ <;> rw [h.eq]

theorem Covering.of_sameHashes (hs : Covering s) (h : SameHashes s t)
    (hleaf : leaf t.processing = leaf s.processing) : Covering t := by
  refine ⟨?_, ?_, ?_⟩
  · have hleaves : t.leaves = s.leaves := by rw [leaves, h.ledger, leaves]
    have haccounted : t.accounted = s.accounted := by
      rw [accounted, h.covered, h.commits, h.session, hleaf, accounted]
    rw [hleaves, haccounted]
    exact hs.perm
  · rw [h.covered]
    exact hs.covered
  · rw [h.commits]
    exact hs.commits

theorem leaf_nextEntry (s : AuditService) (rest : List (LogEntry JsTree)) (tick : Tick) :
    leaf (s.nextEntry rest tick).processing = [] := by
  unfold nextEntry
  split
  · rfl
  · split <;> rfl

theorem leaf_afterMirror (s : AuditService) (entry : LogEntry JsTree)
    (rest : List (LogEntry JsTree)) (tick : Tick) :
    leaf (s.afterMirror entry rest tick).processing = [] := by
  unfold afterMirror
  split
  · rfl
  · exact s.leaf_nextEntry rest tick

theorem leaf_afterLeaf (s : AuditService) (entry : LogEntry JsTree)
    (rest : List (LogEntry JsTree)) (tick : Tick) :
    leaf (s.afterLeaf p entry rest tick).processing = [] := by
  unfold afterLeaf
  split
  · rfl
  · exact s.leaf_afterMirror entry rest tick

theorem leaf_processQueue (s : AuditService) (tick : Tick) :
    leaf (s.processQueue tick).processing = leaf s.processing := by
  unfold processQueue
  split
  · rfl
  · rename_i hnone
    have hproc : s.processing = none := by simpa using hnone
    rw [leaf_nextEntry, hproc]
    rfl

theorem leaf_append (s : AuditService) (entry : LogEntry JsTree) (rest : List (LogEntry JsTree))
    (id : String) (timestamp : Timestamp) (prevHash hash : String) (signature : Option String)
    (tick : Tick) :
    leaf (s.append p entry rest id timestamp prevHash hash signature tick).processing =
      if entry.type = "MERKLE_COMMIT" then [] else [hash] := by
  unfold append
  split
  · exact leaf_afterLeaf ..
  · rfl

theorem sameHashes_logEvent (s : AuditService) (entry : LogEntry RawData) (tick : Tick) :
    SameHashes s (s.logEvent entry tick) ∧
      leaf (s.logEvent entry tick).processing = leaf s.processing := by
  unfold logEvent
  split
  · obtain ⟨heq, -⟩ := processQueue_eq { s with
      logQueue := s.logQueue ++ [entry.sanitized]
      history := { s.history with accepted := s.history.accepted ++ [entry.sanitized] } } tick
    refine ⟨⟨?_, ?_, ?_, ?_⟩, leaf_processQueue _ tick⟩ <;> rw [heq]
  · exact ⟨⟨rfl, rfl, rfl, rfl⟩, rfl⟩

/-! ### One step -/

/-- Taking over the collected hashes as call `c` of `cs`. -/
theorem Covering.swap (hs : Covering s) (hne : s.currentSessionHashes ≠ []) {cs : List Commit}
    (hheld : ∀ x, (cs.flatMap held).count x =
      (s.commits.flatMap held).count x + s.currentSessionHashes.count x)
    (hcs : ∀ c ∈ cs, c ∈ s.commits ∨ c = .rooting s.currentSessionHashes) (flag : Bool) :
    Covering { s with
      isCommittingMerkle := flag, currentSessionHashes := [], commits := cs } := by
  refine ⟨perm_accounted_iff.2 fun x ↦ ?_, hs.covered, fun c hc ↦ ?_⟩
  · have hcnt := perm_accounted_iff.1 hs.perm x
    have hx := hheld x
    simp only [leaves, count_nil] at hcnt ⊢
    omega
  · rcases hcs c hc with hold | rfl
    · exact hs.commits c hold
    · exact .inr (.inr hne)

/-- Changing where a commitment waits, but not what it holds. -/
theorem Covering.of_held (hs : Covering s)
    (hheld : ∀ x, (cs.flatMap held).count x = (s.commits.flatMap held).count x)
    (hcs : ∀ c ∈ cs, c = .checking ∨ c = .finishing ∨ held c ≠ []) (flag : Bool) :
    Covering { s with commits := cs, isCommittingMerkle := flag } := by
  refine ⟨perm_accounted_iff.2 fun x ↦ ?_, hs.covered, hcs⟩
  have hcnt := perm_accounted_iff.1 hs.perm x
  have hx := hheld x
  simp only [leaves] at hcnt ⊢
  omega

/-- A commitment ends that holds nothing. -/
theorem Covering.erase (hs : Covering s) (hi : s.commits[i]? = some c) (hc : held c = [])
    (flag : Bool) :
    Covering { s with commits := s.commits.eraseIdx i, isCommittingMerkle := flag } := by
  refine hs.of_held (fun x ↦ ?_) (fun c hc ↦ hs.commits c (mem_of_mem_eraseIdx hc)) flag
  rw [count_held_split hi, hc, count_nil, Nat.zero_add]

theorem Covering.commitMerkleRoot (hs : Covering s) : Covering (s.commitMerkleRoot p) := by
  unfold AuditService.commitMerkleRoot
  split
  · exact hs
  · rename_i hgo
    split
    · refine hs.of_held (fun x ↦ ?_) (fun c hc ↦ ?_) s.isCommittingMerkle
      · simp [held]
      · rcases mem_append.1 hc with hc | hc
        · exact hs.commits c hc
        · exact .inl (mem_singleton.1 hc)
    · refine hs.swap (fun hempty ↦ hgo (.inl hempty)) (fun x ↦ ?_) (fun c hc ↦ ?_) true
      · simp [held]
      · rcases mem_append.1 hc with hc | hc
        · exact .inl hc
        · exact .inr (mem_singleton.1 hc)

/-- Commitments do not look at the entry under way. -/
theorem recordLeaf_processing (s : AuditService) (hash : String) (x : Option Processing) :
    { s.recordLeaf p hash with processing := x } =
      { s with processing := x }.recordLeaf p hash := by
  unfold recordLeaf commitMerkleRoot
  dsimp only
  split
  · split
    · rfl
    · cases p.tpm <;> rfl
  · rfl

/-- Collecting the hash that was waiting. -/
theorem Covering.recordLeaf (hs : Covering s)
    (hx : s.processing = some ⟨entry, rest, .addingLeaf hash⟩) {x : Option Processing}
    (hleaf : leaf x = []) : Covering { s.recordLeaf p hash with processing := x } := by
  have hcoll : Covering { s with
      currentSessionHashes := s.currentSessionHashes ++ [hash], processing := x } := by
    refine ⟨perm_accounted_iff.2 fun y ↦ ?_, hs.covered, hs.commits⟩
    have hcnt := perm_accounted_iff.1 hs.perm y
    simp only [hx, leaves, leaf] at hcnt
    simp only [leaves, hleaf, count_append, count_nil]
    omega
  rw [recordLeaf_processing]
  unfold AuditService.recordLeaf
  dsimp only
  split
  · exact hcoll.commitMerkleRoot
  · exact hcoll

/-- Appending an event leaves its hash waiting, unless it is a commitment. -/
theorem Covering.append (hs : Covering s) {entry : LogEntry JsTree}
    {rest : List (LogEntry JsTree)} {id : String} {timestamp : Timestamp} {prevHash hash : String}
    {signature : Option String} {tick : Tick} (hleaf : leaf s.processing = [])
    (hgoes : GoesOn (s.withEvent (makeEvent p entry id timestamp prevHash hash signature)) rest tick
      (s.append p entry rest id timestamp prevHash hash signature tick)) :
    Covering (s.append p entry rest id timestamp prevHash hash signature tick) := by
  have hsame := hgoes.sameHashes
  refine ⟨perm_accounted_iff.2 fun x ↦ ?_, ?_, ?_⟩
  · have hcnt := perm_accounted_iff.1 hs.perm x
    rw [hleaf] at hcnt
    rw [leaves, hsame.ledger, hsame.covered, hsame.commits, hsame.session, leaf_append]
    simp only [withEvent]
    rw [leaves] at hcnt
    -- a commitment is no leaf; any other event is one, and its hash waits for `merkleTree`
    by_cases htype : entry.type = "MERKLE_COMMIT" <;> simpa [htype, makeEvent] using hcnt
  · rw [hsame.covered]
    exact hs.covered
  · rw [hsame.commits]
    exact hs.commits

theorem Covering.queueStep (hs : Covering s) {x : Processing} {reply : QueueReply}
    (hreply : reply ≠ .leafRejected) (hx : s.processing = some x)
    (hq : QueueStep p s tick x reply t) : Covering t := by
  cases hq with
  | sign _ | hashRejected | signRejected =>
    exact hs.of_sameHashes ⟨rfl, rfl, rfl, rfl⟩ (by rw [hx]; rfl)
  | appendUnsigned _ goes | appendSigned _ goes => exact hs.append (by rw [hx]; rfl) goes
  | leafAdded _ goes =>
    have hrec := hs.recordLeaf (p := p) hx (x := none) rfl
    have hsame := goes.sameHashes
    exact hrec.of_sameHashes ⟨hsame.ledger, hsame.covered, hsame.commits, hsame.session⟩
      (leaf_afterLeaf ..)
  | leafRejected => exact absurd rfl hreply
  | mirrored goes =>
    refine hs.of_sameHashes goes.sameHashes ?_
    rw [hx]
    exact leaf_afterMirror ..
  | flushed _ goes =>
    refine hs.of_sameHashes goes.sameHashes ?_
    rw [hx]
    exact leaf_nextEntry ..

/-- A rejected commitment gives its hashes back. -/
theorem Covering.giveBack (hs : Covering s) (hi : s.commits[i]? = some c) :
    Covering (s.giveBack i (held c)) := by
  refine ⟨perm_accounted_iff.2 fun x ↦ ?_, hs.covered,
    fun c hc ↦ hs.commits c (mem_of_mem_eraseIdx hc)⟩
  have hcnt := perm_accounted_iff.1 hs.perm x
  rw [count_held_split hi x] at hcnt
  simp only [leaves, AuditService.giveBack, count_append] at hcnt ⊢
  omega

/-- A commitment that is queued covers its hashes. -/
theorem Covering.logCommit (hs : Covering s) (hi : s.commits[i]? = some c) (hne : held c ≠ [])
    (hroom : s.logQueue.length ≤ maxQueueDepth) (root : String) (signature : Option String)
    (tick : Tick) : Covering (s.logCommit i (held c) root signature tick) := by
  rw [logCommit_of_room hroom]
  have hcov : Covering { s with
      commits := s.commits.set i .finishing
      history := { s.history with covered := s.history.covered ++ [held c] } } := by
    refine ⟨perm_accounted_iff.2 fun x ↦ ?_, fun hashes hmem ↦ ?_, fun c' hc' ↦ ?_⟩
    · have hcnt := perm_accounted_iff.1 hs.perm x
      rw [count_held_split hi x] at hcnt
      simp only [leaves, count_held_set hi, flatten_concat, count_append] at hcnt ⊢
      rw [held, count_nil]
      omega
    · rcases mem_append.1 hmem with hmem | hmem
      · exact hs.covered hashes hmem
      · rw [mem_singleton.1 hmem]
        exact hne
    · rcases mem_or_eq_of_mem_set hc' with hmem | rfl
      · exact hs.commits c' hmem
      · exact .inr (.inl rfl)
  obtain ⟨hsame, hleaf⟩ := sameHashes_logEvent _ (commitEntry (held c) root signature) tick
  exact hcov.of_sameHashes hsame hleaf

/-- A commitment that is dropped leaves its hashes covered by nothing. -/
theorem Covering.room_of_logCommit (hs : Covering s) (hi : s.commits[i]? = some c)
    (hne : held c ≠ []) {root : String} {signature : Option String}
    (ht : Covering (s.logCommit i (held c) root signature tick)) :
    s.logQueue.length ≤ maxQueueDepth := by
  by_contra hfull
  obtain ⟨x, hx⟩ := exists_mem_of_ne_nil _ hne
  have hlost : 0 < (held c).count x := count_pos_iff.2 hx
  have hbefore := perm_accounted_iff.1 hs.perm x
  have hafter := perm_accounted_iff.1 ht.perm x
  rw [logCommit_of_full (not_le.1 hfull)] at hafter
  simp only [leaves, count_held_set hi, count_held_split hi] at hbefore hafter
  rw [held, count_nil] at hafter
  omega

/-- A resumed commitment keeps the invariant exactly when it finds hashes to take over, or room for
its event. -/
theorem Covering.commitStep_iff (hs : Covering s) (hi : s.commits[i]? = some c)
    (hc : CommitStep p s i tick c reply t) :
    Covering t ↔ Committable p s (.commit i reply tick) := by
  have hwait := hs.commits c (mem_of_getElem? hi)
  cases hc with
  | swap =>
    refine ⟨fun ht ↦ ?_, fun hne ↦ ?_⟩
    -- a call that has taken over nothing is not `Covering`
    · have hset : rooting s.currentSessionHashes ∈
          s.commits.set i (.rooting s.currentSessionHashes) := by
        obtain ⟨hlt, -⟩ := List.getElem?_eq_some_iff.1 hi
        exact mem_set hlt _
      simpa [held, Committable] using ht.commits _ hset
    · refine hs.swap hne (fun x ↦ ?_) (fun c hc ↦ mem_or_eq_of_mem_set hc) true
      rw [count_held_set hi, count_held_split hi, held, held, count_nil]
      omega
  | blocked => exact iff_of_true (hs.erase hi rfl _) trivial
  | @sign hashes tpm =>
    have hne : hashes ≠ [] := by simpa [held] using hwait
    refine iff_of_true (hs.of_held (fun x ↦ ?_) (fun c hc ↦ ?_) s.isCommittingMerkle) ?_
    · rw [count_held_set hi, count_held_split hi]
      rfl
    · rcases mem_or_eq_of_mem_set hc with hc | rfl
      · exact hs.commits c hc
      · exact .inr (.inr hne)
    · intro hnone
      rw [isNone_iff_eq_none.1 hnone] at tpm
      exact nomatch tpm
  | @logUnsigned hashes tpm =>
    have hne : hashes ≠ [] := by simpa [held] using hwait
    exact ⟨fun ht _ ↦ hs.room_of_logCommit hi hne ht,
      fun hroom ↦ hs.logCommit hi hne (hroom (by simp [tpm])) ..⟩
  | @logSigned hashes root signature =>
    have hne : hashes ≠ [] := by simpa [held] using hwait
    exact ⟨hs.room_of_logCommit hi hne, fun hroom ↦ hs.logCommit hi hne hroom ..⟩
  | rootRejected | signRejected => exact iff_of_true (hs.giveBack hi) trivial
  | logged => exact iff_of_true (hs.erase hi rfl _) trivial

/-- Every such step covers hashes once. -/
theorem Covering.step (hs : Covering s) {a : Action} (ha : Committable p s a)
    (hstep : step p s a = some t) : Covering t := by
  cases a with
  | logEvent entry tick =>
    obtain ⟨hsame, hleaf⟩ := s.sameHashes_logEvent entry tick
    exact some.inj hstep ▸ hs.of_sameHashes hsame hleaf
  | queue reply tick =>
    obtain ⟨x, hx, hq⟩ := queueStep_of_resumeQueue hstep
    refine hs.queueStep ?_ hx hq
    rintro rfl
    exact ha
  | flushBuffer =>
    obtain ⟨heq, -⟩ := s.flushBuffer_eq false
    refine some.inj hstep ▸ hs.of_sameHashes ⟨?_, ?_, ?_, ?_⟩ ?_ <;> rw [heq]
  | flushSettled failAt =>
    obtain ⟨f, -, rfl⟩ := map_eq_some_iff.1 hstep
    unfold flushSettled
    split <;> exact hs.of_sameHashes ⟨rfl, rfl, rfl, rfl⟩ rfl
  | commitMerkleRoot => exact some.inj hstep ▸ hs.commitMerkleRoot
  | commit i reply tick =>
    obtain ⟨c, hi, hc⟩ := commitStep_of_resumeCommit hstep
    exact (hs.commitStep_iff hi hc).2 ha
  | syncEvents | sync => exact ha.elim

/-! ### The events that record commitments -/

variable (p) in
/-- The entry `x` records a commitment to `hashes`: it carries their number and their root. -/
def Records (hashes : List String) (x : LogEntry JsTree) : Prop :=
  ∃ signature,
    x = (commitEntry hashes (MerkleTree.getRoot p.hashPair hashes) signature).sanitized

variable (p) in
/-- Each commitment that counts is recorded by an accepted entry of its own. -/
structure Recorded (s : AuditService) : Prop where
  entries : ∃ xs, xs.Sublist s.history.accepted ∧ List.Forall₂ (Records p) s.history.covered xs
  roots : ∀ hashes root, Commit.signing hashes root ∈ s.commits →
    root = MerkleTree.getRoot p.hashPair hashes

theorem recorded_start (h : String) (r : KvAuditRepository) : Recorded p (.start h r) :=
  ⟨⟨[], .slnil, .nil⟩, nofun⟩

theorem Recorded.of_commits (hs : Recorded p s) (hcov : t.history.covered = s.history.covered)
    (hacc : ∃ new, t.history.accepted = s.history.accepted ++ new)
    (hcommits : ∀ hashes root, signing hashes root ∈ t.commits →
      signing hashes root ∈ s.commits) : Recorded p t := by
  obtain ⟨xs, hsub, hrecs⟩ := hs.entries
  obtain ⟨new, hnew⟩ := hacc
  refine ⟨⟨xs, ?_, ?_⟩, fun hashes root hmem ↦ hs.roots hashes root (hcommits hashes root hmem)⟩
  · rw [hnew]
    exact hsub.trans (sublist_append_left ..)
  · rw [hcov]
    exact hrecs

theorem signing_mem_commitMerkleRoot {root : String}
    (h : signing hashes root ∈ (s.commitMerkleRoot p).commits) :
    signing hashes root ∈ s.commits := by
  unfold commitMerkleRoot at h
  split at h
  · exact h
  · split at h
    · simpa using h
    · simpa [swapHashes] using h

theorem signing_mem_recordLeaf {root : String}
    (h : signing hashes root ∈ (s.recordLeaf p hash).commits) :
    signing hashes root ∈ s.commits := by
  unfold recordLeaf at h
  dsimp only at h
  split at h
  · have hmem := signing_mem_commitMerkleRoot h
    exact hmem
  · exact h

/-- Steps of the queue loop touch commitments only to begin one. -/
theorem QueueStep.commits {x : Processing} {reply : QueueReply}
    (hq : QueueStep p s tick x reply t) : t.history.covered = s.history.covered ∧
      ∀ hashes root, signing hashes root ∈ t.commits → signing hashes root ∈ s.commits := by
  cases hq with
  | sign | hashRejected | signRejected | leafRejected => exact ⟨rfl, fun _ _ h ↦ h⟩
  | appendUnsigned _ goes | appendSigned _ goes | mirrored goes | flushed _ goes =>
    refine ⟨goes.sameHashes.covered, fun hashes root h ↦ ?_⟩
    rw [goes.sameHashes.commits] at h
    exact h
  | leafAdded _ goes =>
    refine ⟨?_, fun hashes root h ↦ ?_⟩
    · rw [goes.sameHashes.covered, recordLeaf_eq]
    · rw [goes.sameHashes.commits] at h
      exact signing_mem_recordLeaf h

/-- A commitment that is queued is recorded by the entry that is queued. -/
theorem Recorded.logCommit (hs : Recorded p s) (i : ℕ) (hashes : List String)
    (signature : Option String) (tick : Tick) :
    Recorded p (s.logCommit i hashes (getRoot p.hashPair hashes) signature tick) := by
  have hset : ∀ hashes root, signing hashes root ∈ s.commits.set i .finishing →
      signing hashes root ∈ s.commits := by
    intro hashes root hmem
    exact (mem_or_eq_of_mem_set hmem).resolve_right nofun
  rcases le_or_gt s.logQueue.length maxQueueDepth with hroom | hfull
  · rw [logCommit_of_room hroom]
    obtain ⟨xs, hsub, hrecs⟩ := hs.entries
    rcases logEvent_cases { s with
        commits := s.commits.set i .finishing
        history := { s.history with covered := s.history.covered ++ [hashes] } }
      (commitEntry hashes (getRoot p.hashPair hashes) signature) tick with
      ⟨hno, -⟩ | ⟨-, heq, -, -⟩
    · exact nomatch hno.symm.trans ((accepts_commitEntry _ hashes _ signature).2 hroom)
    · rw [heq]
      refine ⟨⟨xs ++ [_], hsub.append (.refl _), ?_⟩,
        fun hashes root hmem ↦ hs.roots hashes root (hset hashes root hmem)⟩
      exact rel_append hrecs (.cons ⟨signature, rfl⟩ .nil)
  · rw [logCommit_of_full hfull]
    exact hs.of_commits rfl ⟨[], (append_nil _).symm⟩ hset

theorem Recorded.commitStep (hs : Recorded p s) (hi : s.commits[i]? = some c)
    (hc : CommitStep p s i tick c reply t) : Recorded p t := by
  have hsame : ∃ new, s.history.accepted = s.history.accepted ++ new := ⟨[], (append_nil _).symm⟩
  cases hc with
  | swap =>
    refine hs.of_commits rfl hsame fun hashes root hmem ↦ ?_
    exact (mem_or_eq_of_mem_set hmem).resolve_right nofun
  | blocked | rootRejected | signRejected | logged =>
    exact hs.of_commits rfl hsame fun _ _ hmem ↦ mem_of_mem_eraseIdx hmem
  | sign =>
    refine ⟨hs.entries, fun hashes root hmem ↦ ?_⟩
    rcases mem_or_eq_of_mem_set hmem with hmem | heq
    · exact hs.roots hashes root hmem
    · injection heq with hhashes hroot
      rw [hroot, hhashes]
  | logUnsigned => exact hs.logCommit ..
  | logSigned signature =>
    obtain rfl := hs.roots _ _ (mem_of_getElem? hi)
    exact hs.logCommit ..

/-- No step, committable or not, counts a commitment that it does not record. -/
theorem Recorded.step (hs : Recorded p s) {a : Action}
    (hstep : AuditService.step p s a = some t) : Recorded p t := by
  obtain ⟨new, hacc, -⟩ := step_accepted hstep
  cases a with
  | logEvent entry tick =>
    obtain ⟨hsame, -⟩ := s.sameHashes_logEvent entry tick
    obtain rfl := some.inj hstep
    refine hs.of_commits hsame.covered ⟨new, hacc⟩ fun hashes root hmem ↦ ?_
    rwa [hsame.commits] at hmem
  | queue reply tick =>
    obtain ⟨x, -, hq⟩ := queueStep_of_resumeQueue hstep
    exact hs.of_commits hq.commits.1 ⟨new, hacc⟩ hq.commits.2
  | flushBuffer =>
    obtain ⟨heq, -⟩ := s.flushBuffer_eq false
    obtain rfl := some.inj hstep
    refine hs.of_commits ?_ ⟨new, hacc⟩ fun hashes root hmem ↦ ?_
    · rw [heq]
    · rwa [heq] at hmem
  | flushSettled failAt =>
    obtain ⟨f, -, rfl⟩ := map_eq_some_iff.1 hstep
    refine hs.of_commits ?_ ⟨new, hacc⟩ fun hashes root hmem ↦ ?_
    · unfold flushSettled
      split <;> rfl
    · unfold flushSettled at hmem
      split at hmem <;> exact hmem
  | commitMerkleRoot =>
    obtain rfl := some.inj hstep
    refine hs.of_commits ?_ ⟨new, hacc⟩ fun _ _ ↦ signing_mem_commitMerkleRoot
    rw [commitMerkleRoot_eq]
  | commit i reply tick =>
    obtain ⟨c, hi, hc⟩ := commitStep_of_resumeCommit hstep
    exact hs.commitStep hi hc
  | syncEvents events =>
    rw [AuditService.step] at hstep
    split at hstep <;> obtain rfl := some.inj hstep
    · exact hs.of_commits rfl ⟨new, hacc⟩ fun _ _ hmem ↦ hmem
    · exact hs
  | sync i reply =>
    rcases resumeSync_cases hstep with ⟨e, rest, -, -, rfl⟩ | ⟨-, heq, -⟩
    · rw [advance_eq]
      exact hs.of_commits rfl ⟨[], (append_nil _).symm⟩ fun _ _ ↦ id
    · rw [heq]
      exact hs.of_commits rfl ⟨[], (append_nil _).symm⟩ fun _ _ ↦ id

/-! ### Runs -/

/-- In every run of committable steps, at every point: the hashes of the ledger's events are, each
once, those covered by a commitment, held by a commitment in progress, collected, and awaiting
collection; each commitment that covers hashes is recorded by an accepted entry of its own; and no
commitment covers nothing. -/
theorem merkle_coverage {h : String} {r : KvAuditRepository} {as : List Action}
    (has : Machine.Guarded (AuditService.step p) (Committable p) (.start h r) as)
    (hrun : Machine.run (AuditService.step p) (.start h r) as = some t) :
    t.leaves.Perm (t.history.covered.flatten ++ t.commits.flatMap held ++
        t.currentSessionHashes ++ leaf t.processing) ∧
      (∃ xs, xs.Sublist t.history.accepted ∧ List.Forall₂ (Records p) t.history.covered xs) ∧
      ∀ hashes ∈ t.history.covered, hashes ≠ [] := by
  have hcovering : Covering t :=
    run_invariant (fun hs ha hstep ↦ hs.step ha hstep) (covering_start h r) has hrun
  have hrecorded : Recorded p t :=
    run_invariant' (fun hs hstep ↦ hs.step hstep) (recorded_start h r) hrun
  exact ⟨hcovering.perm, hrecorded.entries, hcovering.covered⟩

/-- A run can be checked for the condition. -/
instance (s : AuditService) : ∀ a, Decidable (Committable p s a)
  | .logEvent .. | .flushBuffer | .flushSettled _ | .commitMerkleRoot => .isTrue trivial
  | .queue .leafRejected _ => .isFalse id
  | .queue .hashed _ | .queue .hashRejected _ | .queue (.signed _) _ | .queue .signRejected _
  | .queue .leafAdded _ | .queue .mirrored _ | .queue .flushed _ => .isTrue trivial
  | .commit _ (.integrity true) _ => inferInstanceAs (Decidable (s.currentSessionHashes ≠ []))
  | .commit _ .rooted _ => inferInstanceAs (Decidable (_ → _ ≤ _))
  | .commit _ (.signed _) _ => inferInstanceAs (Decidable (_ ≤ _))
  | .commit _ (.integrity false) _ | .commit _ .rootRejected _ | .commit _ .signRejected _
  | .commit _ .logged _ => .isTrue trivial
  | .syncEvents _ | .sync .. => .isFalse id

/-- One event up to the point where its hash is collected, on a machine with a TPM. -/
def collected : List Action :=
  [.logEvent (.plain "one") ⟨"a", 1⟩, .queue .hashed ⟨"-", 1⟩, .queue (.signed "signed a") ⟨"-", 1⟩,
    .queue .leafAdded ⟨"-", 1⟩]

/-- A commitment is signed in vain once and then accepted, with the next event under way. -/
def committedOnce : List Action :=
  collected ++ [.commitMerkleRoot, .commit 0 (.integrity true) ⟨"-", 2⟩, .commit 0 .rooted ⟨"-", 2⟩,
    .commit 0 .signRejected ⟨"-", 2⟩, .commitMerkleRoot, .logEvent (.plain "two") ⟨"b", 3⟩,
    .commit 0 (.integrity true) ⟨"-", 3⟩, .queue .hashed ⟨"-", 3⟩, .commit 0 .rooted ⟨"-", 3⟩,
    .commit 0 (.signed "signed a") ⟨"-", 3⟩, .queue (.signed "signed b") ⟨"-", 3⟩]

theorem merkle_coverage_committedOnce :
    ∃ t, Machine.run (AuditService.step (.sample HashInput.id (some .marking)))
        (.start "GENESIS" .empty) committedOnce = some t ∧
      t.leaves = ["a", "b"] ∧ t.history.covered = [["a"]] ∧ leaf t.processing = ["b"] ∧
      t.leaves.Perm (t.history.covered.flatten ++ t.commits.flatMap held ++
        t.currentSessionHashes ++ leaf t.processing) := by
  have hrun : (run (step (.sample HashInput.id (some .marking)))
      (.start "GENESIS" .empty) committedOnce).map (fun t ↦ (t.leaves, t.history.covered,
        leaf t.processing)) = some (["a", "b"], [["a"]], ["b"]) := by
    decide
  obtain ⟨t, ht, hend⟩ := map_eq_some_iff.1 hrun
  simp only [Prod.mk.injEq] at hend
  obtain ⟨hleaves, hcovered, hleaf⟩ := hend
  exact ⟨t, ht, hleaves, hcovered, hleaf, (merkle_coverage (by decide) ht).1⟩

/-- Two calls wait for the integrity check at the same time. -/
def committedTwice : List Action :=
  collected ++ [.commitMerkleRoot, .commitMerkleRoot, .commit 0 (.integrity true) ⟨"-", 2⟩,
    .commit 1 (.integrity true) ⟨"-", 2⟩, .commit 0 .rooted ⟨"-", 2⟩, .commit 1 .rooted ⟨"-", 2⟩,
    .commit 0 (.signed "signed a") ⟨"b", 2⟩, .commit 1 (.signed "signed ") ⟨"-", 2⟩]

/-- The second of them commits to nothing, and its event is accepted. -/
theorem second_commit_covers_nothing :
    ∃ t, Machine.run (AuditService.step (.sample HashInput.id (some .marking)))
        (.start "GENESIS" .empty) committedTwice = some t ∧
      t.history.covered = [["a"], []] ∧
      t.history.accepted.map (fun x ↦ x.type) = ["INFO", "MERKLE_COMMIT", "MERKLE_COMMIT"] := by
  have hrun : (run (step (.sample HashInput.id (some .marking)))
      (.start "GENESIS" .empty) committedTwice).map (fun t ↦ (t.history.covered,
        t.history.accepted.map fun x ↦ x.type)) =
      some ([["a"], []], ["INFO", "MERKLE_COMMIT", "MERKLE_COMMIT"]) := by
    decide
  obtain ⟨t, ht, hend⟩ := map_eq_some_iff.1 hrun
  simp only [Prod.mk.injEq] at hend
  exact ⟨t, ht, hend⟩

/-! ### What a commitment fixes -/

/-- A property of the data of an entry. -/
def dataField (x : LogEntry JsTree) (k : String) : JsTree := (x.data.getD .undefined).get k

theorem Records.root (h : Records p hashes x) :
    dataField x "root" = .str (getRoot p.hashPair hashes) := by
  obtain ⟨signature, rfl⟩ := h
  cases signature <;> rfl

theorem Records.eventCount (h : Records p hashes x) :
    dataField x "eventCount" = .num hashes.length := by
  obtain ⟨signature, rfl⟩ := h
  cases signature <;> rfl

/-- **A commitment is binding.** If different pairs have different hashes, lists of hashes of one
length with one root are equal, and two recorded commitments with the same root and the same number
of events are to the same hashes in the same order. -/
theorem commitment_binding (hinj : Function.Injective2 p.hashPair)
    (hpair : ∀ a b, p.hashPair a b ≠ "") :
    (∀ xs ys : List String, "" ∉ xs → "" ∉ ys → xs.length = ys.length →
      MerkleTree.getRoot p.hashPair xs = MerkleTree.getRoot p.hashPair ys → xs = ys) ∧
    ∀ (xs ys : List String) (x y : LogEntry JsTree), "" ∉ xs → "" ∉ ys →
      Records p xs x → Records p ys y → dataField x "root" = dataField y "root" →
      dataField x "eventCount" = dataField y "eventCount" → xs = ys := by
  refine ⟨fun xs ys hxs hys ↦ eq_of_getRoot_eq hinj hpair hxs hys, ?_⟩
  intro xs ys x y hxs hys hx hy hroot hcount
  rw [hx.root, hy.root] at hroot
  rw [hx.eventCount, hy.eventCount] at hcount
  have hlength : xs.length = ys.length := by simpa using hcount
  exact eq_of_getRoot_eq hinj hpair hxs hys hlength (JsTree.str.inj hroot)

/-- Ports with an ideal hash of pairs. -/
def framedPorts : Ports := { Ports.sample HashInput.id none with hashPair := MerkleTree.framed }

/-- Commitments to lists of three hashes that differ in the last one have different roots. -/
theorem commitment_binding_lastHash :
    Function.Injective2 framedPorts.hashPair ∧ (∀ a b, framedPorts.hashPair a b ≠ "") ∧
      MerkleTree.getRoot framedPorts.hashPair ["a", "b", "c"] ≠
        MerkleTree.getRoot framedPorts.hashPair ["a", "b", "d"] := by
  have hbinding := commitment_binding (p := framedPorts) framed_injective framed_ne_empty
  refine ⟨framed_injective, framed_ne_empty, fun hroot ↦ ?_⟩
  have hsame := hbinding.1 ["a", "b", "c"] ["a", "b", "d"] (by decide) (by decide) rfl hroot
  exact absurd hsame (by decide)

end AuditService

end Audit
