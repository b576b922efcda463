import CounterTerrorist.Mesh.SplitBrain

/-!
# Commands that need a quorum

`requestQuorumCommand` asks all verified nodes at once whether they approve of an action. Each
question is a task of its own: it waits for the reply, has the signature of the reply checked, and
then puts the node on the list of approvals. With a store, the list is kept there, under an id made
for this request. A task reads the list and writes it back if nobody else has written it meanwhile;
after five attempts it gives up. A watcher of the store answers `true` when it sees that the list is
long enough, and a timer answers `false` after a while. Without a store the approvals are counted,
and the answer comes when all tasks are done.

The tasks, the watcher and the timer take turns in any order.

## What is signed

A reply has to have a signature of its payload by the node that was asked. What the payload says is
not looked at.
-/

namespace Mesh

open Core

/-! ### A request -/

/-- The functions that a store has. -/
structure KvFeatures where
  set : Bool
  atomic : Bool
  watch : Bool
deriving Repr, DecidableEq

/-- A node that is asked, and what `sendSync` gives for it; `none` is a rejection. -/
structure Peer where
  node : MeshNode
  reply : Option JsTree

/-- A call of `requestQuorumCommand`, with what it finds outside. -/
structure QuorumCall where
  env : SigningEnv
  mesh : MeshManager
  /-- `SINGLE_NODE`. -/
  singleNode : Option String
  /-- `ALLOW_SMALL_QUORUM`. -/
  allowSmallQuorum : Bool
  kv : Option KvFeatures
  action : String
  data : JsTree
  sagaId : String
  now : ℤ
  nodes : List Peer

namespace QuorumCall

variable (c : QuorumCall)

/-- `verifiedNodes`. -/
def verifiedNodes : List Peer :=
  c.nodes.filter fun p ↦ p.node.verified && decide (c.now - p.node.lastSeen < 600000)

/-- `N`. -/
def size : ℕ := c.verifiedNodes.length + 1

/-- `threshold`. -/
def threshold : ℕ := quorumThreshold c.allowSmallQuorum c.size

/-- `requestPayload`. -/
def requestPayload : JsTree :=
  .obj [("action", .str c.action), ("data", c.data), ("sagaId", .str c.sagaId),
    ("requester", .str c.mesh.nodeId), ("timestamp", .num c.now)]

/-- `kv && typeof kv.f === "function"`. -/
def has (f : KvFeatures → Bool) : Bool := c.kv.any f

end QuorumCall

/-! ### States -/

/-- `ConsensusSaga.status`. -/
inductive SagaStatus
  | pending
  | approved
  | denied
deriving Repr, DecidableEq

/-- `ConsensusSaga`. -/
structure ConsensusSaga where
  approvals : List String
  status : SagaStatus
deriving Repr, DecidableEq

/-- Where a task waits. -/
inductive Stage
  /-- For `sendSync`. -/
  | asking
  /-- For `verifySignature`. -/
  | verifying (payload : JsTree) (signature : String)
  /-- For `kv.get`, after some failed attempts. -/
  | reading (attempts : ℕ)
  /-- For the commit of what was read, with its version. -/
  | writing (attempts : ℕ) (saga : ConsensusSaga) (version : ℕ)
  | done

def Stage.isDone : Stage → Bool
  | .done => true
  | _ => false

/-- The task for one node. -/
structure PeerTask where
  peer : Peer
  stage : Stage

/-- What the caller gets. -/
inductive Outcome
  | waiting
  | returned (approved : Bool)
  | threw
deriving Repr, DecidableEq

/-- A request on its way: the entry of the store, the number of times it was written, the counter,
and the tasks. -/
structure QuorumState where
  saga : Option ConsensusSaga
  version : ℕ
  approvals : ℕ
  tasks : List PeerTask
  outcome : Outcome

/-- A task moves on. -/
def QuorumState.advance (s : QuorumState) (i : ℕ) (peer : Peer) (stage : Stage) : QuorumState :=
  { s with tasks := s.tasks.set i ⟨peer, stage⟩ }

/-- What can happen next. -/
inductive QuorumLabel
  /-- `sendSync` settles for the `i`-th node. -/
  | reply (i : ℕ)
  /-- So does `verifySignature`. -/
  | verify (i : ℕ)
  /-- `kv.get` answers. -/
  | get (i : ℕ)
  /-- The commit is made, or refused because of another one. -/
  | commit (i : ℕ)
  /-- An operation of the store fails. -/
  | fail (i : ℕ)
  /-- All tasks are done, and nobody watches the store. -/
  | join
  /-- The watcher sees the entry. -/
  | watch
  /-- The watcher fails. -/
  | watchFail
  | timeout
deriving Repr, DecidableEq

/-! ### Steps -/

/-- What a reply leads to. -/
def afterReply (reply : Option JsTree) : Stage :=
  match reply with
  | none => .done
  | some res =>
    if res.truthy ∧ (res.get "approved").truthy then
      match res.get "signature" with
      | .str signature => .verifying (res.get "payload") signature
      | _ => .done
    else .done

namespace QuorumCall

variable (c : QuorumCall)

/-- A list of approvals with one more node. -/
def withApproval (saga : ConsensusSaga) (id : String) : ConsensusSaga :=
  let newApprovals := Tally.distinct (saga.approvals ++ [id])
  ⟨newApprovals, if c.threshold ≤ newApprovals.length then .approved else .pending⟩

/-- The signature of a reply belongs to its payload and the node. -/
def isValid (node : MeshNode) (payload : JsTree) (signature : String) : Bool :=
  match c.mesh.verifySignature c.env payload signature (some node.id) with
  | .ok valid => valid
  | .error _ => false

/-- The state in which all nodes have been asked. -/
def start : QuorumState :=
  if c.singleNode = some "true" ∨ c.size = 1 then ⟨none, 0, 1, [], .returned true⟩
  else
    let saga := if c.has (·.set) then some ⟨[c.mesh.nodeId], .pending⟩ else none
    match c.mesh.signPayload c.env c.requestPayload with
    | .error _ => ⟨saga, 0, 1, [], .threw⟩
    | .ok _ => ⟨saga, 0, 1, c.verifiedNodes.map (⟨·, .asking⟩), .waiting⟩

/-- One step. -/
def step (s : QuorumState) : QuorumLabel → Option QuorumState
  | .reply i =>
    s.tasks[i]?.bind fun task ↦
      match task.stage with
      | .asking => some (s.advance i task.peer (afterReply task.peer.reply))
      | _ => none
  | .verify i =>
    s.tasks[i]?.bind fun task ↦
      match task.stage with
      | .verifying payload signature =>
        if c.isValid task.peer.node payload signature then
          if c.has (·.atomic) then some (s.advance i task.peer (.reading 0))
          else some { s.advance i task.peer .done with approvals := s.approvals + 1 }
        else some (s.advance i task.peer .done)
      | _ => none
  | .get i =>
    s.tasks[i]?.bind fun task ↦
      match task.stage with
      | .reading attempts =>
        match s.saga with
        | some saga =>
          if saga.status = .pending then
            some (s.advance i task.peer (.writing attempts saga s.version))
          else some (s.advance i task.peer .done)
        | none => some (s.advance i task.peer .done)
      | _ => none
  | .commit i =>
    s.tasks[i]?.bind fun task ↦
      match task.stage with
      | .writing attempts saga version =>
        if version = s.version then
          some { s.advance i task.peer .done with
            saga := some (c.withApproval saga task.peer.node.id)
            version := s.version + 1 }
        else if attempts + 1 < 5 then some (s.advance i task.peer (.reading (attempts + 1)))
        else some (s.advance i task.peer .done)
      | _ => none
  | .fail i =>
    s.tasks[i]?.bind fun task ↦
      match task.stage with
      | .reading _ | .writing _ _ _ => some (s.advance i task.peer .done)
      | _ => none
  | .join =>
    if c.has (·.watch) = false ∧ s.outcome = .waiting ∧ s.tasks.all (·.stage.isDone) = true then
      some { s with outcome := .returned (decide (c.threshold ≤ s.approvals)) }
    else none
  | .watch =>
    if c.has (·.watch) = true ∧ s.outcome = .waiting then
      match s.saga with
      | some ⟨_, .approved⟩ => some { s with outcome := .returned true }
      | some ⟨_, .denied⟩ => some { s with outcome := .returned false }
      | _ => some s
    else none
  | .watchFail | .timeout =>
    if c.has (·.watch) = true ∧ s.outcome = .waiting then
      some { s with outcome := .returned false }
    else none

end QuorumCall

end Mesh
