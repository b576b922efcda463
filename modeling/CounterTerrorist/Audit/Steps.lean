import CounterTerrorist.Audit.Service
import CounterTerrorist.Foundations.HashChain

/-!
# What one step of the audit service does

The step function is a case analysis over calls and await points, of which each result about runs
needs a small part. This module says once what a step can do to each part.

## The ledger

`appended s a` is the event that step `a` adds to the ledger in state `s`, if any. Every step
extends the ledger by it and by nothing else, and the chain head follows (`step_ledger`).

## The queue

`pending s` are the entries that were queued and are not in the ledger yet: what `processQueue` has
taken and not appended, then the queue. `buffered s` are the ledger events on their way to the
repository. `GoesOn` says how the helpers of `processQueue` move entries and events between them.
-/

namespace Audit

open Core List Option AuditService

namespace AuditService

variable (p : Ports)

/-! ### Where entries and events are -/

/-- Whether the entry at an await point is in the ledger. -/
def logged : Stage → Bool
  | .hashing .. | .signing .. => false
  | .addingLeaf _ | .mirroring | .flushing => true

/-- The entries a suspended `processQueue` has taken and not appended. -/
def unlogged : Option Processing → List (LogEntry JsTree)
  | none => []
  | some x => if logged x.stage then x.rest else x.entry :: x.rest

/-- The batch that is being written. -/
def batch : Option Flush → List AuditEvent
  | none => []
  | some f => f.batch

/-- Queued entries that are not in the ledger, in order. -/
def pending (s : AuditService) : List (LogEntry JsTree) := unlogged s.processing ++ s.logQueue

/-- Ledger events that are not stored, in order. -/
def buffered (s : AuditService) : List AuditEvent := batch s.flushing ++ s.auditBuffer

/-- The event a step adds to the ledger. -/
def appended (s : AuditService) : Action → Option AuditEvent
  | .queue .hashed _ =>
    match s.processing, p.tpm with
    | some ⟨entry, _, .hashing id timestamp prevHash⟩, none =>
      some (makeEvent p entry id timestamp prevHash
        (p.computeHash (entryInput entry id timestamp prevHash)) none)
    | _, _ => none
  | .queue (.signed signature) _ =>
    match s.processing with
    | some ⟨entry, _, .signing id timestamp prevHash hash⟩ =>
      some (makeEvent p entry id timestamp prevHash hash (some signature))
    | _ => none
  | .sync i .saved =>
    match s.syncs[i]? with
    | some ⟨e, _, .saving⟩ => some e
    | _ => none
  | _ => none

variable {p}

/-! ### The helpers of the queue loop -/

/-- A suspended `processQueue` that begins an entry does so with this tick and chain head. -/
def Begun (lastHash : String) (tick : Tick) (x : Option Processing) : Prop :=
  ∀ entry rest stage, x = some ⟨entry, rest, stage⟩ →
    stage = .hashing tick.uuid (Timestamp.orNow entry.timestamp tick.now) lastHash ∨
      logged stage = true

/-- `processQueue` goes on from `s` with `rest` of its batch: entries only move within what is
pending, and events within what is buffered. -/
structure GoesOn (s : AuditService) (rest : List (LogEntry JsTree)) (tick : Tick)
    (t : AuditService) : Prop where
  eq : t = { s with
    logQueue := t.logQueue, processing := t.processing
    flushing := t.flushing, auditBuffer := t.auditBuffer }
  pending : t.pending = rest ++ s.logQueue
  buffered : t.buffered = s.buffered
  begun : Begun s.lastHash tick t.processing

section

variable (s : AuditService)
include s

/-- Beginning the next entry goes on. -/
theorem goesOn_nextEntry (rest : List (LogEntry JsTree)) (tick : Tick) :
    GoesOn s rest tick (s.nextEntry rest tick) := by
  unfold nextEntry
  split
  · refine ⟨rfl, rfl, rfl, ?_⟩
    rintro entry rest stage h
    cases h
    exact .inl rfl
  · split
    · rename_i entry rest hq
      refine ⟨rfl, ?_, rfl, ?_⟩
      · simp [pending, beginEntry, unlogged, logged, hq]
      · rintro entry rest stage h
        cases h
        exact .inl rfl
    · exact ⟨rfl, rfl, rfl, fun _ _ _ h ↦ nomatch h⟩

/-- A flush moves events within what is buffered. -/
theorem flushBuffer_eq (byQueue : Bool) : s.flushBuffer byQueue = { s with
      flushing := (s.flushBuffer byQueue).flushing
      auditBuffer := (s.flushBuffer byQueue).auditBuffer } ∧
      (s.flushBuffer byQueue).buffered = s.buffered := by
  unfold flushBuffer
  split
  · exact ⟨rfl, rfl⟩
  · rename_i h
    have hnone : s.flushing = none := by
      cases hf : s.flushing with
      | none => rfl
      | some f => exact absurd (.inl (by simp [hf])) h
    refine ⟨rfl, ?_⟩
    simp [buffered, batch, hnone]

/-- Going on after the mirror was written. -/
theorem goesOn_afterMirror (entry : LogEntry JsTree) (rest : List (LogEntry JsTree)) (tick : Tick) :
    GoesOn s rest tick (s.afterMirror entry rest tick) := by
  unfold afterMirror
  split
  · obtain ⟨heq, hbuf⟩ := s.flushBuffer_eq true
    refine ⟨?_, ?_, hbuf, ?_⟩
    · rw [heq]
    · rw [heq]
      rfl
    · rintro entry rest stage h
      cases h
      exact .inr rfl
  · exact s.goesOn_nextEntry rest tick

/-- Going on after the leaf was added. -/
theorem goesOn_afterLeaf (entry : LogEntry JsTree) (rest : List (LogEntry JsTree)) (tick : Tick) :
    GoesOn s rest tick (s.afterLeaf p entry rest tick) := by
  unfold afterLeaf
  split
  · refine ⟨rfl, rfl, rfl, ?_⟩
    rintro entry rest stage h
    cases h
    exact .inr rfl
  · exact s.goesOn_afterMirror entry rest tick

/-- `processQueue` changes nothing that is pending, and only begins an entry when none is under
way. -/
theorem processQueue_eq (tick : Tick) : s.processQueue tick = { s with
      logQueue := (s.processQueue tick).logQueue
      processing := (s.processQueue tick).processing } ∧
      (s.processQueue tick).pending = s.pending ∧
      ((s.processQueue tick).processing = s.processing ∨
        (s.processing = none ∧ Begun s.lastHash tick (s.processQueue tick).processing)) := by
  unfold processQueue
  split
  · exact ⟨rfl, rfl, .inl rfl⟩
  · rename_i h
    have hnone : s.processing = none := by simpa using h
    have hgoes := s.goesOn_nextEntry [] tick
    refine ⟨?_, ?_, .inr ⟨hnone, hgoes.begun⟩⟩
    · unfold nextEntry
      cases s.logQueue <;> rfl
    · rw [hgoes.pending, pending, hnone]
      rfl

/-- A logged entry is dropped, or it joins what is pending. -/
theorem logEvent_cases (entry : LogEntry RawData) (tick : Tick) :
    (s.accepts entry = false ∧ s.logEvent entry tick = s) ∨ (s.accepts entry = true ∧
        s.logEvent entry tick = { s with
          logQueue := (s.logEvent entry tick).logQueue
          processing := (s.logEvent entry tick).processing
          history := { s.history with accepted := s.history.accepted ++ [entry.sanitized] } } ∧
        (s.logEvent entry tick).pending = s.pending ++ [entry.sanitized] ∧
        ((s.logEvent entry tick).processing = s.processing ∨
          (s.processing = none ∧ Begun s.lastHash tick (s.logEvent entry tick).processing))) := by
  unfold logEvent
  cases hacc : s.accepts entry with
  | false => exact .inl ⟨rfl, rfl⟩
  | true =>
    rw [if_pos rfl]
    obtain ⟨heq, hpend, hproc⟩ := processQueue_eq { s with
      logQueue := s.logQueue ++ [entry.sanitized]
      history := { s.history with accepted := s.history.accepted ++ [entry.sanitized] } } tick
    refine .inr ⟨rfl, ?_, ?_, hproc⟩
    · rw [heq]
    · rw [hpend]
      simp [pending]

/-- `commitMerkleRoot` only touches the state of commitments. -/
theorem commitMerkleRoot_eq : s.commitMerkleRoot p = { s with
      currentSessionHashes := (s.commitMerkleRoot p).currentSessionHashes
      isCommittingMerkle := (s.commitMerkleRoot p).isCommittingMerkle
      commits := (s.commitMerkleRoot p).commits } := by
  unfold commitMerkleRoot
  split
  · rfl
  · split <;> rfl

/-- Recording a leaf concerns commitments only. -/
theorem recordLeaf_eq (hash : String) : s.recordLeaf p hash = { s with
      currentSessionHashes := (s.recordLeaf p hash).currentSessionHashes
      isCommittingMerkle := (s.recordLeaf p hash).isCommittingMerkle
      commits := (s.recordLeaf p hash).commits } := by
  unfold recordLeaf
  dsimp only
  split
  · rw [commitMerkleRoot_eq]
  · rfl

end

/-- The state in which the event is in the buffer and is the chain head. -/
def withEvent (s : AuditService) (event : AuditEvent) : AuditService :=
  { s with
    auditBuffer := s.auditBuffer ++ [event]
    lastHash := event.hash
    history := { s.history with ledger := s.history.ledger ++ [event] } }

/-- Appending goes on from the ledger with the event. -/
theorem goesOn_append (s : AuditService) (entry : LogEntry JsTree) (rest : List (LogEntry JsTree))
    (id : String) (timestamp : Timestamp) (prevHash hash : String) (signature : Option String)
    (tick : Tick) :
    GoesOn (s.withEvent (makeEvent p entry id timestamp prevHash hash signature)) rest tick
      (s.append p entry rest id timestamp prevHash hash signature tick) := by
  unfold append
  split
  · exact goesOn_afterLeaf _ entry rest tick
  · refine ⟨rfl, rfl, rfl, ?_⟩
    rintro entry rest stage h
    cases h
    exact .inr rfl

/-- The ledger and everything on its way to the repository is the same. -/
structure SameLedger (s t : AuditService) : Prop where
  lastHash : t.lastHash = s.lastHash
  repo : t.repo = s.repo
  syncs : t.syncs = s.syncs
  buffered : t.buffered = s.buffered
  ledger : t.history.ledger = s.history.ledger
  flushed : t.history.flushed = s.history.flushed

variable {s : AuditService}

theorem SameLedger.trans {t u : AuditService} (hst : SameLedger s t) (htu : SameLedger t u) :
    SameLedger s u :=
  ⟨htu.lastHash.trans hst.lastHash, htu.repo.trans hst.repo, htu.syncs.trans hst.syncs,
    htu.buffered.trans hst.buffered, htu.ledger.trans hst.ledger, htu.flushed.trans hst.flushed⟩

/-- Going on leaves the ledger alone. -/
theorem GoesOn.sameLedger {t : AuditService} {rest : List (LogEntry JsTree)} {tick : Tick}
    (h : GoesOn s rest tick t) : SameLedger s t := by
  refine ⟨?_, ?_, ?_, h.buffered, ?_, ?_⟩ <;> rw [h.eq]

/-- Going on accepts nothing. -/
theorem GoesOn.accepted {t : AuditService} {rest : List (LogEntry JsTree)} {tick : Tick}
    (h : GoesOn s rest tick t) : t.history.accepted = s.history.accepted := by
  rw [h.eq]

/-- The two states agree in everything but commitments. -/
structure SameQueue (s t : AuditService) : Prop where
  same : SameLedger s t
  accepted : t.history.accepted = s.history.accepted
  logQueue : t.logQueue = s.logQueue
  processing : t.processing = s.processing

/-- The queue does not depend on commitments. -/
theorem sameQueue_commits (s : AuditService) (hashes : List String) (flag : Bool)
    (commits : List Commit) :
    SameQueue s { s with
      currentSessionHashes := hashes, isCommittingMerkle := flag, commits := commits } :=
  ⟨⟨rfl, rfl, rfl, rfl, rfl, rfl⟩, rfl, rfl, rfl⟩

theorem SameQueue.refl (s : AuditService) : SameQueue s s := s.sameQueue_commits _ _ _

/-- A commitment that starts leaves the queue alone. -/
theorem sameQueue_commitMerkleRoot (s : AuditService) : SameQueue s (s.commitMerkleRoot p) := by
  rw [commitMerkleRoot_eq]
  exact s.sameQueue_commits ..

/-- Recording a leaf leaves the queue alone. -/
theorem sameQueue_recordLeaf (s : AuditService) (hash : String) :
    SameQueue s (s.recordLeaf p hash) := by
  rw [recordLeaf_eq]
  exact s.sameQueue_commits ..

/-! ### Resuming the queue loop -/

variable (p)

/-- What resuming `processQueue` at `x` does, one case for each await point and answer. -/
inductive QueueStep (s : AuditService) (tick : Tick) :
    Processing → QueueReply → AuditService → Prop
  | sign {entry rest id timestamp prevHash} (tpm : p.tpm.isSome) :
      QueueStep s tick ⟨entry, rest, .hashing id timestamp prevHash⟩ .hashed
        { s with processing := some ⟨entry, rest, .signing id timestamp prevHash
          (p.computeHash (entryInput entry id timestamp prevHash))⟩ }
  | appendUnsigned {entry rest id timestamp prevHash} (tpm : p.tpm = none)
      (goes : GoesOn (s.withEvent (makeEvent p entry id timestamp prevHash
          (p.computeHash (entryInput entry id timestamp prevHash)) none)) rest tick
        (s.append p entry rest id timestamp prevHash
          (p.computeHash (entryInput entry id timestamp prevHash)) none tick)) :
      QueueStep s tick ⟨entry, rest, .hashing id timestamp prevHash⟩ .hashed
        (s.append p entry rest id timestamp prevHash
          (p.computeHash (entryInput entry id timestamp prevHash)) none tick)
  | appendSigned {entry rest id timestamp prevHash hash} (signature : String)
      (goes : GoesOn (s.withEvent (makeEvent p entry id timestamp prevHash hash (some signature)))
        rest tick (s.append p entry rest id timestamp prevHash hash (some signature) tick)) :
      QueueStep s tick ⟨entry, rest, .signing id timestamp prevHash hash⟩ (.signed signature)
        (s.append p entry rest id timestamp prevHash hash (some signature) tick)
  | hashRejected {entry rest id timestamp prevHash} :
      QueueStep s tick ⟨entry, rest, .hashing id timestamp prevHash⟩ .hashRejected
        (s.requeue entry rest)
  | signRejected {entry rest id timestamp prevHash hash} :
      QueueStep s tick ⟨entry, rest, .signing id timestamp prevHash hash⟩ .signRejected
        (s.requeue entry rest)
  | leafAdded {entry rest hash} (record : SameQueue s (s.recordLeaf p hash))
      (goes : GoesOn (s.recordLeaf p hash) rest tick
        ((s.recordLeaf p hash).afterLeaf p entry rest tick)) :
      QueueStep s tick ⟨entry, rest, .addingLeaf hash⟩ .leafAdded
        ((s.recordLeaf p hash).afterLeaf p entry rest tick)
  | leafRejected {entry rest hash} :
      QueueStep s tick ⟨entry, rest, .addingLeaf hash⟩ .leafRejected (s.requeue entry rest)
  | mirrored {entry rest} (goes : GoesOn s rest tick (s.afterMirror entry rest tick)) :
      QueueStep s tick ⟨entry, rest, .mirroring⟩ .mirrored (s.afterMirror entry rest tick)
  | flushed {entry rest} (settled : s.flushing.any (·.byQueue) = false)
      (goes : GoesOn s rest tick (s.nextEntry rest tick)) :
      QueueStep s tick ⟨entry, rest, .flushing⟩ .flushed (s.nextEntry rest tick)

variable {p}

/-- Resuming the queue loop is one of its steps. -/
theorem queueStep_of_resumeQueue {t : AuditService} {reply : QueueReply} {tick : Tick}
    (h : s.resumeQueue p reply tick = some t) :
    ∃ x, s.processing = some x ∧ QueueStep p s tick x reply t := by
  rcases hx : s.processing with - | ⟨entry, rest, stage⟩
  · rw [resumeQueue, hx] at h
    exact nomatch h
  · refine ⟨_, rfl, ?_⟩
    rw [resumeQueue, hx] at h
    cases stage <;> cases reply <;>
      simp only [bind_eq_bind, bind_some, reduceCtorEq, Option.some.injEq] at h
    case hashing.hashed =>
      rcases htpm : p.tpm with - | tpm
      all_goals
        rw [htpm] at h
        obtain rfl := some.inj h
      · exact .appendUnsigned htpm (goesOn_append ..)
      · exact .sign (by simp [htpm])
    case hashing.hashRejected => exact h ▸ .hashRejected
    case signing.signed => exact h ▸ .appendSigned _ (goesOn_append ..)
    case signing.signRejected => exact h ▸ .signRejected
    case addingLeaf.leafAdded =>
      exact h ▸ .leafAdded (sameQueue_recordLeaf ..) (goesOn_afterLeaf ..)
    case addingLeaf.leafRejected => exact h ▸ .leafRejected
    case mirroring.mirrored => exact h ▸ .mirrored (goesOn_afterMirror ..)
    case flushing.flushed =>
      split at h
      · exact nomatch h
      · rename_i hany
        obtain rfl := some.inj h
        exact .flushed (by simpa using hany) (goesOn_nextEntry ..)

/-! ### Steps beside the queue loop -/

/-- A step that leaves the ledger and the entry under way alone. It queues the entries `new`, and
begins with one when the queue loop is at rest. -/
structure Beside (s : AuditService) (new : List (LogEntry JsTree)) (t : AuditService) : Prop where
  same : SameLedger s t
  accepted : t.history.accepted = s.history.accepted ++ new
  pending : t.pending = s.pending ++ new
  begun : t.processing = s.processing ∨
    (s.processing = none ∧ ∃ tick, Begun s.lastHash tick t.processing)

/-- The same entries are pending. -/
theorem SameQueue.pending {t : AuditService} (h : SameQueue s t) : t.pending = s.pending := by
  rw [AuditService.pending, h.processing, h.logQueue, AuditService.pending]

/-- A step that leaves the queue alone queues nothing. -/
theorem SameQueue.beside {t : AuditService} (h : SameQueue s t) : Beside s [] t :=
  ⟨h.same, by simp [h.accepted], by simp [h.pending], .inl h.processing⟩

/-- Where an entry that a step queues comes from: the label, or a commitment. -/
def Origin (a : Action) (x : LogEntry JsTree) : Prop :=
  x.type = "MERKLE_COMMIT" ∨ ∃ entry tick, a = .logEvent entry tick ∧ x = entry.sanitized

/-- `logEvent` queues its entry, or nothing. -/
theorem beside_logEvent (s : AuditService) (entry : LogEntry RawData) (tick : Tick) :
    ∃ new, new ⊆ [entry.sanitized] ∧ Beside s new (s.logEvent entry tick) := by
  rcases s.logEvent_cases entry tick with ⟨-, heq⟩ | ⟨-, heq, hpend, hproc⟩
  · rw [heq]
    exact ⟨[], nil_subset _, (SameQueue.refl s).beside⟩
  · refine ⟨_, Subset.refl _, ⟨?_, ?_, ?_, ?_, ?_, ?_⟩, ?_, hpend,
      hproc.imp id fun h ↦ ⟨h.1, tick, h.2⟩⟩
    all_goals rw [heq]
    rfl

/-- A flush queues nothing. -/
theorem beside_flushBuffer (s : AuditService) (byQueue : Bool) :
    Beside s [] (s.flushBuffer byQueue) := by
  obtain ⟨heq, hbuf⟩ := s.flushBuffer_eq byQueue
  refine SameQueue.beside ⟨⟨?_, ?_, ?_, hbuf, ?_, ?_⟩, ?_, ?_, ?_⟩ <;> rw [heq]

/-- `logEvent` queues a commitment exactly when the queue is not too long, in every mode. -/
theorem accepts_commitEntry (s : AuditService) (hashes : List String) (root : String)
    (signature : Option String) :
    s.accepts (commitEntry hashes root signature) = true ↔ s.logQueue.length ≤ maxQueueDepth := by
  simp [accepts, commitEntry]

/-- With room in the queue, a commitment is recorded. -/
theorem logCommit_of_room (hroom : s.logQueue.length ≤ maxQueueDepth) (i : ℕ)
    (hashes : List String) (root : String) (signature : Option String) (tick : Tick) :
    s.logCommit i hashes root signature tick = { s with
      commits := s.commits.set i .finishing
      history := { s.history with covered := s.history.covered ++ [hashes] }
    }.logEvent (commitEntry hashes root signature) tick :=
  if_pos ((accepts_commitEntry _ hashes root signature).2 hroom)

/-- Without room, a commitment is dropped. -/
theorem logCommit_of_full (hfull : maxQueueDepth < s.logQueue.length) (i : ℕ)
    (hashes : List String) (root : String) (signature : Option String) (tick : Tick) :
    s.logCommit i hashes root signature tick = { s with commits := s.commits.set i .finishing } :=
  if_neg (mt (accepts_commitEntry _ hashes root signature).1 (not_le.2 hfull))

/-- A commitment that is logged queues its own entry at most. -/
theorem beside_logCommit (s : AuditService) (i : ℕ) (hashes : List String) (root : String)
    (signature : Option String) (tick : Tick) :
    ∃ new, (∀ x ∈ new, x.type = "MERKLE_COMMIT") ∧
      Beside s new (s.logCommit i hashes root signature tick) := by
  unfold logCommit
  dsimp only
  split
  · obtain ⟨new, hnew, h⟩ := beside_logEvent { s with
        commits := s.commits.set i .finishing
        history := { s.history with covered := s.history.covered ++ [hashes] } }
      (commitEntry hashes root signature) tick
    refine ⟨new, fun x hx ↦ ?_, ⟨h.same.lastHash, h.same.repo, h.same.syncs, h.same.buffered,
      h.same.ledger, h.same.flushed⟩, h.accepted, h.pending, h.begun⟩
    rw [mem_singleton.1 (hnew hx)]
    rfl
  · exact ⟨[], forall_mem_nil _, (s.sameQueue_commits _ _ _).beside⟩

variable (p)

/-- What resuming a `commitMerkleRoot` does, one case for each await point and answer. -/
inductive CommitStep (s : AuditService) (i : ℕ) (tick : Tick) :
    Commit → CommitReply → AuditService → Prop
  | swap : CommitStep s i tick .checking (.integrity true)
      { s with
        isCommittingMerkle := true
        currentSessionHashes := []
        commits := s.commits.set i (.rooting s.currentSessionHashes) }
  | blocked : CommitStep s i tick .checking (.integrity false)
      { s with commits := s.commits.eraseIdx i }
  | sign {hashes} (tpm : p.tpm.isSome) : CommitStep s i tick (.rooting hashes) .rooted
      { s with commits := s.commits.set i (.signing hashes (MerkleTree.getRoot p.hashPair hashes)) }
  | logUnsigned {hashes} (tpm : p.tpm = none) : CommitStep s i tick (.rooting hashes) .rooted
      (s.logCommit i hashes (MerkleTree.getRoot p.hashPair hashes) none tick)
  | logSigned {hashes root} (signature : String) :
      CommitStep s i tick (.signing hashes root) (.signed signature)
        (s.logCommit i hashes root (some signature) tick)
  | rootRejected {hashes} : CommitStep s i tick (.rooting hashes) .rootRejected
      (s.giveBack i hashes)
  | signRejected {hashes root} : CommitStep s i tick (.signing hashes root) .signRejected
      (s.giveBack i hashes)
  | logged : CommitStep s i tick .finishing .logged
      { s with commits := s.commits.eraseIdx i, isCommittingMerkle := false }

variable {p}

/-- Resuming a commitment is one of its steps. -/
theorem commitStep_of_resumeCommit {t : AuditService} {i : ℕ} {reply : CommitReply} {tick : Tick}
    (h : s.resumeCommit p i reply tick = some t) :
    ∃ c, s.commits[i]? = some c ∧ CommitStep p s i tick c reply t := by
  rcases hc : s.commits[i]? with - | c
  · rw [resumeCommit, hc] at h
    exact nomatch h
  · refine ⟨c, rfl, ?_⟩
    rw [resumeCommit, hc] at h
    cases c <;> cases reply <;>
      simp only [bind_eq_bind, bind_some, reduceCtorEq, Option.some.injEq] at h
    case checking.integrity healthy =>
      cases healthy with
      | true => exact some.inj h ▸ .swap
      | false => exact some.inj h ▸ .blocked
    case rooting.rooted =>
      rcases htpm : p.tpm with - | tpm
      all_goals
        rw [htpm] at h
        obtain rfl := some.inj h
      · exact .logUnsigned htpm
      · exact .sign (by simp [htpm])
    case rooting.rootRejected => exact h ▸ .rootRejected
    case signing.signed => exact h ▸ .logSigned _
    case signing.signRejected => exact h ▸ .signRejected
    case finishing.logged => exact h ▸ .logged

/-- A step of a commitment queues commitments at most. -/
theorem CommitStep.beside {t : AuditService} {i : ℕ} {tick : Tick} {c : Commit}
    {reply : CommitReply} (h : CommitStep p s i tick c reply t) :
    ∃ new, (∀ x ∈ new, x.type = "MERKLE_COMMIT") ∧ Beside s new t := by
  cases h with
  | logUnsigned | logSigned => exact beside_logCommit ..
  | _ =>
    exact ⟨[], forall_mem_nil _, (s.sameQueue_commits _ _ _).beside⟩

/-! ### Resuming a call of `syncEvents` -/

/-- The state in which a remote event is stored and is the chain head. -/
def withRemote (p : Ports) (s : AuditService) (e : AuditEvent) : AuditService :=
  { s with
    repo := p.save s.repo e
    lastHash := e.hash
    history := { s.history with ledger := s.history.ledger ++ [e] } }

/-- Going on to the next event changes `syncs` only. -/
theorem advance_eq (s : AuditService) (i : ℕ) (rest : List AuditEvent) :
    s.advance i rest = { s with syncs := (s.advance i rest).syncs } := by
  unfold advance
  split <;> rfl

/-- Testing an event changes `syncs` only. -/
theorem checkLink_eq (s : AuditService) (i : ℕ) (e : AuditEvent) (rest : List AuditEvent) :
    s.checkLink i e rest = { s with syncs := (s.checkLink i e rest).syncs } := by
  unfold checkLink
  split
  · exact s.advance_eq i rest
  · rfl

/-- A call starts with a hash. -/
theorem syncNext_stage {h : String} {es : List AuditEvent} {sync : Sync}
    (hn : syncNext h es = some sync) : sync.stage = .hashing := by
  induction es with
  | nil => exact nomatch hn
  | cons e es ih =>
    rw [syncNext] at hn
    split at hn
    · exact ih hn
    · exact some.inj hn ▸ rfl

/-- A call about to save its event passed the link test: before the step, or in it. -/
def Tested (s t : AuditService) : Prop :=
  ∀ x ∈ t.syncs, x.stage = .saving →
    x ∈ s.syncs ∨ x.event.prevHash = s.lastHash ∨ x.event.prevHash = "TRUNCATED"

/-- Going on saves nothing untested. -/
theorem tested_advance (s : AuditService) (i : ℕ) (rest : List AuditEvent) :
    Tested s (s.advance i rest) := by
  intro x hx hsaving
  unfold advance at hx
  split at hx
  · rename_i sync hsync
    rcases mem_or_eq_of_mem_set hx with hx | rfl
    · exact .inl hx
    · rw [syncNext_stage hsync] at hsaving
      exact nomatch hsaving
  · exact .inl (mem_of_mem_eraseIdx hx)

/-- What passes the test may be saved. -/
theorem tested_checkLink (s : AuditService) (i : ℕ) (e : AuditEvent) (rest : List AuditEvent) :
    Tested s (s.checkLink i e rest) := by
  unfold checkLink
  split
  · exact s.tested_advance i rest
  · intro x hx _
    rcases mem_or_eq_of_mem_set hx with hx | rfl
    · exact .inl hx
    · right
      tauto

/-- Resuming a `syncEvents` stores its event, or moves nothing but calls of `syncEvents`. -/
theorem resumeSync_cases {t : AuditService} {i : ℕ} {reply : SyncReply}
    (h : s.resumeSync p i reply = some t) :
    (∃ e rest, s.syncs[i]? = some ⟨e, rest, .saving⟩ ∧ reply = .saved ∧
        t = (withRemote p s e).advance i rest) ∨
      (appended p s (.sync i reply) = none ∧ t = { s with syncs := t.syncs } ∧ Tested s t) := by
  rcases hi : s.syncs[i]? with - | ⟨e, rest, stage⟩
  · rw [resumeSync, hi] at h
    exact nomatch h
  · rw [resumeSync, hi] at h
    cases stage <;> cases reply <;>
      simp only [bind_eq_bind, bind_some, reduceCtorEq, Option.some.injEq] at h
    case saving.saved => exact .inl ⟨e, rest, rfl, rfl, h.symm⟩
    case hashing.hashed =>
      refine .inr ⟨rfl, ?_⟩
      split at h <;> obtain rfl := some.inj h
      · exact ⟨s.advance_eq i rest, s.tested_advance i rest⟩
      · refine ⟨rfl, fun x hx hsaving ↦ ?_⟩
        rcases mem_or_eq_of_mem_set hx with hx | rfl
        · exact .inl hx
        · exact nomatch hsaving
      · exact ⟨s.checkLink_eq i e rest, s.tested_checkLink i e rest⟩
    case verifying.verified =>
      refine .inr ⟨rfl, ?_⟩
      split at h <;> obtain rfl := some.inj h
      · exact ⟨s.checkLink_eq i e rest, s.tested_checkLink i e rest⟩
      · exact ⟨s.advance_eq i rest, s.tested_advance i rest⟩
    all_goals
      subst h
      exact .inr ⟨rfl, rfl, fun x hx _ ↦ .inl (mem_of_mem_eraseIdx hx)⟩

/-! ### Every step -/

variable (p)

/-- The kinds of step. -/
inductive StepKind (s : AuditService) : Action → AuditService → Prop
  | beside {a new t} (unchanged : appended p s a = none) (origin : ∀ x ∈ new, Origin a x)
      (h : Beside s new t) : StepKind s a t
  | queue {reply tick x t} (processing : s.processing = some x)
      (h : QueueStep p s tick x reply t) : StepKind s (.queue reply tick) t
  | flush {failAt f} (flushing : s.flushing = some f) :
      StepKind s (.flushSettled failAt) (s.flushSettled p f failAt)
  | sync {a t} (unchanged : appended p s a = none)
      (label : (∃ events, a = .syncEvents events) ∨ ∃ i reply, a = .sync i reply)
      (h : t = { s with syncs := t.syncs }) (tested : Tested s t) : StepKind s a t
  | remote {i e rest} (saving : s.syncs[i]? = some ⟨e, rest, .saving⟩) :
      StepKind s (.sync i .saved) ((withRemote p s e).advance i rest)

variable {p} {t : AuditService} {tick : Tick} {x : Processing} {reply : QueueReply} {a : Action}

/-- Every step is of one of these kinds. -/
theorem stepKind_of_step (h : step p s a = some t) : StepKind p s a t := by
  cases a with
  | logEvent entry tick =>
    obtain ⟨new, hnew, hbeside⟩ := s.beside_logEvent entry tick
    refine some.inj h ▸ .beside rfl (fun x hx ↦ .inr ⟨entry, tick, rfl, ?_⟩) hbeside
    exact mem_singleton.1 (hnew hx)
  | queue reply tick =>
    obtain ⟨x, hx, hstep⟩ := queueStep_of_resumeQueue h
    exact .queue hx hstep
  | flushBuffer =>
    exact some.inj h ▸ .beside rfl (forall_mem_nil _) (s.beside_flushBuffer false)
  | flushSettled failAt =>
    obtain ⟨f, hf, rfl⟩ := map_eq_some_iff.1 h
    exact .flush hf
  | commitMerkleRoot =>
    exact some.inj h ▸ .beside rfl (forall_mem_nil _) s.sameQueue_commitMerkleRoot.beside
  | commit i reply tick =>
    obtain ⟨c, -, hstep⟩ := commitStep_of_resumeCommit h
    obtain ⟨new, hnew, hbeside⟩ := hstep.beside
    exact .beside rfl (fun x hx ↦ .inl (hnew x hx)) hbeside
  | syncEvents events =>
    rw [step] at h
    split at h <;> obtain rfl := some.inj h
    · rename_i sync hsync
      refine .sync rfl (.inl ⟨events, rfl⟩) rfl fun x hx hsaving ↦ ?_
      rcases mem_append.1 hx with hx | hx
      · exact .inl hx
      · rw [mem_singleton.1 hx, syncNext_stage hsync] at hsaving
        exact nomatch hsaving
    · exact .sync rfl (.inl ⟨events, rfl⟩) rfl fun x hx _ ↦ .inl hx
  | sync i reply =>
    rcases resumeSync_cases h with ⟨e, rest, hi, rfl, rfl⟩ | ⟨hnone, heq, htested⟩
    · exact .remote hi
    · exact .sync hnone (.inr ⟨i, reply, rfl⟩) heq htested

/-- Settling a write leaves the ledger alone, stored or not. -/
theorem flushSettled_ledger (s : AuditService) (f : Flush) (failAt : Option ℕ) :
    (s.flushSettled p f failAt).history.ledger = s.history.ledger ∧
      (s.flushSettled p f failAt).lastHash = s.lastHash ∧
      (s.flushSettled p f failAt).processing = s.processing ∧
      (s.flushSettled p f failAt).syncs = s.syncs := by
  unfold flushSettled
  split <;> exact ⟨rfl, rfl, rfl, rfl⟩

/-- Settling a write ends it, and leaves the queue alone. -/
theorem flushSettled_queue (s : AuditService) (f : Flush) (failAt : Option ℕ) :
    (s.flushSettled p f failAt).flushing = none ∧
      (s.flushSettled p f failAt).logQueue = s.logQueue ∧
      (s.flushSettled p f failAt).history.accepted = s.history.accepted := by
  unfold flushSettled
  split <;> exact ⟨rfl, rfl, rfl⟩

/-- A step of the queue loop extends the ledger by the event it appends. -/
theorem QueueStep.ledger (hx : s.processing = some x) (h : QueueStep p s tick x reply t) :
    t.history.ledger = s.history.ledger ++ (appended p s (.queue reply tick)).toList ∧
      t.lastHash = HashChain.headOf AuditEvent.hash s.lastHash
        (appended p s (.queue reply tick)).toList := by
  cases h with
  | appendUnsigned htpm goes =>
    rw [goes.sameLedger.ledger, goes.sameLedger.lastHash]
    simp [appended, hx, htpm, withEvent]
  | appendSigned signature goes =>
    rw [goes.sameLedger.ledger, goes.sameLedger.lastHash]
    simp [appended, hx, withEvent]
  | sign htpm =>
    obtain ⟨tpm, htpm⟩ := isSome_iff_exists.1 htpm
    simp [appended, htpm]
  | hashRejected | signRejected | leafRejected => simp [appended, requeue]
  | leafAdded record goes =>
    rw [goes.sameLedger.ledger, goes.sameLedger.lastHash, record.same.ledger, record.same.lastHash]
    simp [appended]
  | mirrored goes | flushed _ goes =>
    rw [goes.sameLedger.ledger, goes.sameLedger.lastHash]
    simp [appended]

/-- Every step extends the ledger by the event it appends and by nothing else, and the chain head
is the last hash. -/
theorem step_ledger (h : step p s a = some t) :
    t.history.ledger = s.history.ledger ++ (appended p s a).toList ∧
      t.lastHash = HashChain.headOf AuditEvent.hash s.lastHash (appended p s a).toList := by
  cases stepKind_of_step h with
  | beside unchanged _ h =>
    rw [h.same.ledger, h.same.lastHash, unchanged]
    simp
  | queue hx h => exact h.ledger hx
  | flush _ =>
    obtain ⟨hledger, hhead, -⟩ := flushSettled_ledger (p := p) s _ _
    rw [hledger, hhead]
    simp [appended]
  | sync unchanged _ h _ =>
    rw [h, unchanged]
    simp
  | remote saving =>
    rw [advance_eq]
    simp [appended, saving, withRemote]

/-- A step of the queue loop stores nothing. -/
theorem QueueStep.stored (h : QueueStep p s tick x reply t) :
    t.repo = s.repo ∧ t.history.flushed = s.history.flushed := by
  cases h with
  | sign | hashRejected | signRejected | leafRejected => exact ⟨rfl, rfl⟩
  | appendUnsigned _ goes | appendSigned _ goes | mirrored goes | flushed _ goes =>
    exact ⟨goes.sameLedger.repo, goes.sameLedger.flushed⟩
  | leafAdded record goes =>
    have same := record.same.trans goes.sameLedger
    exact ⟨same.repo, same.flushed⟩

/-- No step of the queue loop accepts anything. -/
theorem QueueStep.accepted (h : QueueStep p s tick x reply t) :
    t.history.accepted = s.history.accepted := by
  cases h with
  | sign | hashRejected | signRejected | leafRejected => rfl
  | appendUnsigned _ goes | appendSigned _ goes | mirrored goes | flushed _ goes =>
    exact goes.accepted
  | leafAdded record goes => exact goes.accepted.trans record.accepted

/-- What a step adds to the accepted entries comes from its label or is a commitment. -/
theorem step_accepted (h : step p s a = some t) :
    ∃ new, t.history.accepted = s.history.accepted ++ new ∧ ∀ x ∈ new, Origin a x := by
  cases stepKind_of_step h with
  | beside _ origin h => exact ⟨_, h.accepted, origin⟩
  | queue _ h => exact ⟨[], by simp [h.accepted], forall_mem_nil _⟩
  | flush _ =>
    obtain ⟨-, -, hacc⟩ := flushSettled_queue (p := p) s _ _
    exact ⟨[], by rw [hacc, append_nil], forall_mem_nil _⟩
  | sync _ _ h _ =>
    refine ⟨[], ?_, forall_mem_nil _⟩
    rw [h]
    exact (append_nil _).symm
  | remote _ =>
    refine ⟨[], ?_, forall_mem_nil _⟩
    rw [advance_eq]
    exact (append_nil _).symm

end AuditService

end Audit
