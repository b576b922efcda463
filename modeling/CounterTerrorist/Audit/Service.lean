import CounterTerrorist.Audit.Repository
import CounterTerrorist.Core.MerkleTree
import CounterTerrorist.Foundations.Run

/-!
# The audit service as a machine

`AuditService` is single-threaded and asynchronous: a method runs without interruption up to its
next `await` and is resumed there when the awaited promise settles. So the calls in flight are part
of its state, each suspended at an await point, and a step of the machine is a call from outside or
the resumption of one suspended call, up to the next await point.

## What is in flight

* `processQueue` runs at most once at a time. Its suspended call is `processing`, which also is the
  flag `isProcessingQueue`.
* `flushBuffer` works at most once at a time. The batch being written is `flushing`, which also is
  the flag `isFlushing`; whether `processQueue` waits for it is recorded with the batch.
* `commitMerkleRoot` and `syncEvents` can be in flight any number of times (`commits`, `syncs`). The
  flag `isCommittingMerkle` is set after an await, so it is a field of its own.

## Labels

A label carries every choice that is not the service's: which call is resumed, how its promise
settled, and the random id and clock reading used if the step begins a new ledger entry (`Tick`). A
write to the repository takes effect when its promise settles.

Left out are calls that touch no modelled field: log output, the event bus, correlation, and
`merkleTree`, which is only ever added to. Their await points are kept (`addLeaf`, and the
write-once mirror of some events). The service has been initialised, so `ensureReady` passes.
-/

namespace Audit

open Core

/-- Mode of the service. -/
inductive SystemState
  | normal
  | forensicRestricted
deriving Repr, DecidableEq

/-- A fresh random id and a reading of the clock. -/
structure Tick where
  uuid : String
  now : ℤ
deriving Repr, DecidableEq

/-- Await points of one iteration of `processQueue`. -/
inductive Stage
  /-- `computeHash` of the entry, for these values. -/
  | hashing (id : String) (timestamp : Timestamp) (prevHash : String)
  /-- `tpm.sign` of the hash. -/
  | signing (id : String) (timestamp : Timestamp) (prevHash hash : String)
  /-- `merkleTree.addLeaf` of the hash; the event is in the buffer. -/
  | addingLeaf (hash : String)
  /-- `wormRepo.append`. -/
  | mirroring
  /-- `flushBuffer`. -/
  | flushing
deriving Repr, DecidableEq

/-- The suspended `processQueue`: the entry it is at, the rest of its batch, and where it waits. -/
structure Processing where
  entry : LogEntry JsTree
  rest : List (LogEntry JsTree)
  stage : Stage

/-- The suspended `flushBuffer`: its batch, and whether `processQueue` called it. -/
structure Flush where
  batch : List AuditEvent
  byQueue : Bool

/-- A suspended `commitMerkleRoot`. -/
inductive Commit
  /-- `tpm.verifyIntegrity`. -/
  | checking
  /-- `tree.getRoot` of the hashes taken over. -/
  | rooting (hashes : List String)
  /-- `tpm.sign` of the root. -/
  | signing (hashes : List String) (root : String)
  /-- After `logEvent`. -/
  | finishing
deriving Repr, DecidableEq

/-- Await points of one iteration of `syncEvents`. -/
inductive SyncStage
  | hashing
  | verifying
  | saving
deriving Repr, DecidableEq

/-- A suspended `syncEvents`: the event it is at and the rest of its list. -/
structure Sync where
  event : AuditEvent
  rest : List AuditEvent
  stage : SyncStage

/-- What happened, for the statements about runs; no step reads it. -/
structure History where
  /-- Entries that `logEvent` queued, in order. -/
  accepted : List (LogEntry JsTree)
  /-- Events pushed to the buffer or saved by `syncEvents`, in order. -/
  ledger : List AuditEvent
  /-- Events of the batches that were stored, in the order of storing. -/
  flushed : List AuditEvent
  /-- For each queued `MERKLE_COMMIT`, the hashes its root was computed from. -/
  covered : List (List String)

/-- The state of the service, with the calls in flight. -/
structure AuditService where
  lastHash : String
  state : SystemState
  logQueue : List (LogEntry JsTree)
  processing : Option Processing
  auditBuffer : List AuditEvent
  flushing : Option Flush
  currentSessionHashes : List String
  isCommittingMerkle : Bool
  commits : List Commit
  syncs : List Sync
  repo : KvAuditRepository
  history : History

/-- The service at rest on a repository, with the given chain head. -/
def AuditService.start (lastHash : String) (repo : KvAuditRepository) : AuditService where
  lastHash := lastHash
  state := .normal
  logQueue := []
  processing := none
  auditBuffer := []
  flushing := none
  currentSessionHashes := []
  isCommittingMerkle := false
  commits := []
  syncs := []
  repo := repo
  history := ⟨[], [], [], []⟩

/-! ### Labels -/

/-- How an await of `processQueue` settled. -/
inductive QueueReply
  | hashed
  | hashRejected
  | signed (signature : String)
  | signRejected
  | leafAdded
  | leafRejected
  | mirrored
  | flushed
deriving Repr, DecidableEq

/-- How an await of `commitMerkleRoot` settled. A rejected integrity check ends the call like a
negative one. -/
inductive CommitReply
  | integrity (healthy : Bool)
  | rooted
  | rootRejected
  | signed (signature : String)
  | signRejected
  | logged
deriving Repr, DecidableEq

/-- How an await of `syncEvents` settled; a rejection ends the call. -/
inductive SyncReply
  | hashed
  | verified
  | saved
  | rejected
deriving Repr, DecidableEq

/-- Calls from outside, and resumptions. -/
inductive Action
  | logEvent (entry : LogEntry RawData) (tick : Tick)
  | queue (reply : QueueReply) (tick : Tick)
  | flushBuffer
  /-- The write of the batch settled; `failAt` is the chunk whose commit failed, if any. -/
  | flushSettled (failAt : Option ℕ)
  | commitMerkleRoot
  | commit (i : ℕ) (reply : CommitReply) (tick : Tick)
  | syncEvents (events : List AuditEvent)
  | sync (i : ℕ) (reply : SyncReply)

namespace AuditService

variable (p : Ports)

/-! ### Logging -/

/-- Begin an iteration of `processQueue`: read id, time and chain head, and start hashing. -/
def beginEntry (s : AuditService) (entry : LogEntry JsTree) (rest : List (LogEntry JsTree))
    (tick : Tick) : AuditService :=
  -- the chain head is read here, and written only after the awaits
  { s with processing := some ⟨entry, rest,
      .hashing tick.uuid (Timestamp.orNow entry.timestamp tick.now) s.lastHash⟩ }

/-- The next iteration: the rest of the batch, else a new batch, else the end of `processQueue`. -/
def nextEntry (s : AuditService) (rest : List (LogEntry JsTree)) (tick : Tick) : AuditService :=
  match rest with
  | entry :: rest => s.beginEntry entry rest tick
  | [] =>
    match s.logQueue with
    | entry :: rest => { s with logQueue := [] }.beginEntry entry rest tick
    | [] => { s with processing := none }

/-- A call of `processQueue`, up to its first await. -/
def processQueue (s : AuditService) (tick : Tick) : AuditService :=
  if s.processing.isSome then s else s.nextEntry [] tick

/-- The bound `logEvent` puts on the queue. -/
def maxQueueDepth : ℕ := 5000

/-- Whether `logEvent` queues an entry rather than dropping it. -/
def accepts (s : AuditService) (entry : LogEntry RawData) : Bool :=
  !entry.fromAudit &&
    (s.state == .normal || entry.type ∈ ["CRITICAL", "THREAT", "SUCCESS", "MERKLE_COMMIT"]) &&
    !decide (s.logQueue.length > maxQueueDepth)

/-- `logEvent`. -/
def logEvent (s : AuditService) (entry : LogEntry RawData) (tick : Tick) : AuditService :=
  if s.accepts entry then
    { s with
      logQueue := s.logQueue ++ [entry.sanitized]
      history := { s.history with accepted := s.history.accepted ++ [entry.sanitized] }
    }.processQueue tick
  -- a dropped entry does not start `processQueue` either
  else s

/-! ### Flushing -/

/-- A call of `flushBuffer`, up to its first await. -/
def flushBuffer (s : AuditService) (byQueue : Bool) : AuditService :=
  if s.flushing.isSome ∨ s.auditBuffer = [] then s
  else { s with flushing := some ⟨s.auditBuffer, byQueue⟩, auditBuffer := [] }

/-- The write of the batch settles. -/
def flushSettled (s : AuditService) (f : Flush) (failAt : Option ℕ) : AuditService :=
  match p.saveMany s.repo f.batch failAt with
  | (true, repo) =>
    { s with
      repo, flushing := none
      history := { s.history with flushed := s.history.flushed ++ f.batch } }
  | (false, repo) => { s with repo, flushing := none, auditBuffer := f.batch ++ s.auditBuffer }

/-! ### Merkle commitments -/

/-- Take over the hashes collected so far. -/
def swapHashes (s : AuditService) : AuditService × Commit :=
  ({ s with isCommittingMerkle := true, currentSessionHashes := [] },
    .rooting s.currentSessionHashes)

/-- A call of `commitMerkleRoot`, up to its first await. -/
def commitMerkleRoot (s : AuditService) : AuditService :=
  if s.currentSessionHashes = [] ∨ s.isCommittingMerkle = true then s
  else
    match p.tpm with
    -- the flag is not set yet, so a second call passes the test as well
    | some _ => { s with commits := s.commits ++ [.checking] }
    | none =>
      let (s, c) := s.swapHashes
      { s with commits := s.commits ++ [c] }

/-- The event that records a commitment. -/
def commitEntry (hashes : List String) (root : String) (signature : Option String) :
    LogEntry RawData where
  type := "MERKLE_COMMIT"
  severity := some "info"
  caller := some "AUDIT:MERKLE"
  message := "Merkle Root committed for " ++ toString hashes.length ++ " events: " ++
    (root.take 12).toString
  actor := none
  data := some ⟨[.record [("root", .str root), ("eventCount", .num hashes.length),
    ("hwSignature", (signature.map JsVal.str).getD .undefined)]], .ref 0⟩
  correlationId := none
  merkleRoot := none
  timestamp := none
  fromAudit := false

/-- Log the commitment of call `i`. The call waits once more whether or not the event was
queued. -/
def logCommit (s : AuditService) (i : ℕ) (hashes : List String) (root : String)
    (signature : Option String) (tick : Tick) : AuditService :=
  let entry := commitEntry hashes root signature
  let s := { s with commits := s.commits.set i .finishing }
  if s.accepts entry then
    { s with history := { s.history with covered := s.history.covered ++ [hashes] }
    }.logEvent entry tick
  else s

/-- The `catch` of call `i`: its hashes go back to the front. -/
def giveBack (s : AuditService) (i : ℕ) (hashes : List String) : AuditService :=
  { s with
    currentSessionHashes := hashes ++ s.currentSessionHashes
    isCommittingMerkle := false
    commits := s.commits.eraseIdx i }

/-- Resume call `i` of `commitMerkleRoot`. -/
def resumeCommit (s : AuditService) (i : ℕ) (reply : CommitReply) (tick : Tick) :
    Option AuditService := do
  match ← s.commits[i]?, reply with
  -- the hashes are taken over without a second look at their number
  | .checking, .integrity true =>
    let (s, c) := s.swapHashes
    some { s with commits := s.commits.set i c }
  | .checking, .integrity false => some { s with commits := s.commits.eraseIdx i }
  | .rooting hashes, .rooted =>
    let root := MerkleTree.getRoot p.hashPair hashes
    match p.tpm with
    | some _ => some { s with commits := s.commits.set i (.signing hashes root) }
    | none => some (s.logCommit i hashes root none tick)
  | .rooting hashes, .rootRejected => some (s.giveBack i hashes)
  | .signing hashes root, .signed signature =>
    some (s.logCommit i hashes root (some signature) tick)
  | .signing hashes _, .signRejected => some (s.giveBack i hashes)
  | .finishing, .logged =>
    some { s with commits := s.commits.eraseIdx i, isCommittingMerkle := false }
  | _, _ => none

/-! ### The queue loop -/

/-- After the mirror: flush a full buffer, or go on. -/
def afterMirror (s : AuditService) (entry : LogEntry JsTree) (rest : List (LogEntry JsTree))
    (tick : Tick) : AuditService :=
  if s.auditBuffer.length ≥ 100 ∨ s.state = .forensicRestricted then
    { s.flushBuffer true with processing := some ⟨entry, rest, .flushing⟩ }
  else s.nextEntry rest tick

/-- After the Merkle update: mirror some types to the write-once repository. -/
def afterLeaf (s : AuditService) (entry : LogEntry JsTree) (rest : List (LogEntry JsTree))
    (tick : Tick) : AuditService :=
  if p.wormRepo = true ∧ entry.type ∈ ["CRITICAL", "THREAT", "MERKLE_COMMIT"] then
    { s with processing := some ⟨entry, rest, .mirroring⟩ }
  else s.afterMirror entry rest tick

/-- The event an entry becomes. -/
def makeEvent (entry : LogEntry JsTree) (id : String) (timestamp : Timestamp)
    (prevHash hash : String) (signature : Option String) : AuditEvent where
  toPayload := entry.toPayload
  id := id
  timestamp := timestamp
  hash := hash
  prevHash := prevHash
  hwSignature := signature
  formatted := some (p.format entry)

/-- The hash input of an entry that is being appended. -/
def entryInput (entry : LogEntry JsTree) (id : String) (timestamp : Timestamp) (prevHash : String) :
    HashInput :=
  ⟨id, timestamp, entry.type, entry.severity, entry.caller, entry.message, entry.actor, entry.data,
    entry.correlationId, prevHash⟩

/-- Push the event to the buffer and move the chain head. -/
def append (s : AuditService) (entry : LogEntry JsTree) (rest : List (LogEntry JsTree))
    (id : String) (timestamp : Timestamp) (prevHash hash : String) (signature : Option String)
    (tick : Tick) : AuditService :=
  let event := makeEvent p entry id timestamp prevHash hash signature
  let s := { s with
    auditBuffer := s.auditBuffer ++ [event]
    lastHash := hash
    history := { s.history with ledger := s.history.ledger ++ [event] } }
  if entry.type = "MERKLE_COMMIT" then s.afterLeaf p entry rest tick
  else { s with processing := some ⟨entry, rest, .addingLeaf hash⟩ }

/-- The `catch` of `processQueue`: the entry and the rest of its batch go back to the front. -/
def requeue (s : AuditService) (entry : LogEntry JsTree) (rest : List (LogEntry JsTree)) :
    AuditService :=
  { s with logQueue := entry :: rest ++ s.logQueue, processing := none }

/-- The number of hashes at which `processQueue` calls `commitMerkleRoot`. -/
def maxMerkleBuffer : ℕ := 5000

/-- Record the hash, and commit when enough have gathered. -/
def recordLeaf (s : AuditService) (hash : String) : AuditService :=
  let s := { s with currentSessionHashes := s.currentSessionHashes ++ [hash] }
  if s.currentSessionHashes.length ≥ maxMerkleBuffer then s.commitMerkleRoot p else s

/-- Resume `processQueue`. -/
def resumeQueue (s : AuditService) (reply : QueueReply) (tick : Tick) : Option AuditService := do
  let ⟨entry, rest, stage⟩ ← s.processing
  match stage, reply with
  | .hashing id timestamp prevHash, .hashed =>
    let hash := p.computeHash (entryInput entry id timestamp prevHash)
    match p.tpm with
    | some _ =>
      some { s with processing := some ⟨entry, rest, .signing id timestamp prevHash hash⟩ }
    | none => some (s.append p entry rest id timestamp prevHash hash none tick)
  | .hashing .., .hashRejected => some (s.requeue entry rest)
  | .signing id timestamp prevHash hash, .signed signature =>
    some (s.append p entry rest id timestamp prevHash hash (some signature) tick)
  | .signing .., .signRejected => some (s.requeue entry rest)
  | .addingLeaf hash, .leafAdded => some ((s.recordLeaf p hash).afterLeaf p entry rest tick)
  -- the event is in the buffer already, and its entry goes back to the queue all the same
  | .addingLeaf _, .leafRejected => some (s.requeue entry rest)
  | .mirroring, .mirrored => some (s.afterMirror entry rest tick)
  -- when another call was flushing, `flushBuffer` returned at once and nothing is awaited
  | .flushing, .flushed =>
    if s.flushing.any (·.byQueue) then none else some (s.nextEntry rest tick)
  | _, _ => none

/-! ### Remote events -/

/-- The next event of the list that is not the chain head itself. -/
def syncNext (lastHash : String) : List AuditEvent → Option Sync
  | [] => none
  | e :: es => if e.hash = lastHash then syncNext lastHash es else some ⟨e, es, .hashing⟩

/-- What `syncEvents` does with an event once its hash is known. -/
inductive Screening
  | reject
  | verify
  | link
deriving Repr, DecidableEq

/-- The checks between the hash and the next await. -/
def screen (e : AuditEvent) : Screening :=
  if e.hash ≠ p.computeHash e.hashInput then .reject
  else if e.prevHash = "TRUNCATED" ∧ e.type ≠ "CHECKPOINT" then .reject
  else if e.prevHash = "TRUNCATED" then
    match p.tpm with
    | none => .reject
    | some _ => if strTruthy e.hwSignature then .verify else .reject
  else .link

/-- The answer of the TPM about an event's signature. -/
def signatureValid (e : AuditEvent) : Bool :=
  p.tpm.any fun tpm ↦ tpm.verify e.hash (e.hwSignature.getD "")

/-- Go on with the rest of the list of call `i`, or end the call. -/
def advance (s : AuditService) (i : ℕ) (rest : List AuditEvent) : AuditService :=
  match syncNext s.lastHash rest with
  | some sync => { s with syncs := s.syncs.set i sync }
  | none => { s with syncs := s.syncs.eraseIdx i }

/-- The chain-gap test, then the save. -/
def checkLink (s : AuditService) (i : ℕ) (e : AuditEvent) (rest : List AuditEvent) :
    AuditService :=
  if e.prevHash ≠ s.lastHash ∧ e.prevHash ≠ "TRUNCATED" then s.advance i rest
  else { s with syncs := s.syncs.set i ⟨e, rest, .saving⟩ }

/-- Resume call `i` of `syncEvents`. -/
def resumeSync (s : AuditService) (i : ℕ) (reply : SyncReply) : Option AuditService := do
  let ⟨e, rest, stage⟩ ← s.syncs[i]?
  match stage, reply with
  | _, .rejected => some { s with syncs := s.syncs.eraseIdx i }
  | .hashing, .hashed =>
    match screen p e with
    | .reject => some (s.advance i rest)
    | .verify => some { s with syncs := s.syncs.set i ⟨e, rest, .verifying⟩ }
    | .link => some (s.checkLink i e rest)
  | .verifying, .verified =>
    if signatureValid p e then some (s.checkLink i e rest) else some (s.advance i rest)
  -- the head may have moved since the link test
  | .saving, .saved =>
    some ({ s with
      repo := p.save s.repo e
      lastHash := e.hash
      history := { s.history with ledger := s.history.ledger ++ [e] } }.advance i rest)
  | _, _ => none

/-! ### The machine -/

/-- One step. -/
def step (s : AuditService) : Action → Option AuditService
  | .logEvent entry tick => some (s.logEvent entry tick)
  | .queue reply tick => s.resumeQueue p reply tick
  | .flushBuffer => some (s.flushBuffer false)
  | .flushSettled failAt => s.flushing.map fun f ↦ s.flushSettled p f failAt
  | .commitMerkleRoot => some (s.commitMerkleRoot p)
  | .commit i reply tick => s.resumeCommit p i reply tick
  | .syncEvents events =>
    match syncNext s.lastHash events with
    | some sync => some { s with syncs := s.syncs ++ [sync] }
    | none => some s
  | .sync i reply => s.resumeSync p i reply

end AuditService

end Audit
