import CounterTerrorist.Core.Wire
import CounterTerrorist.Mesh.CatchUp
import CounterTerrorist.Mesh.Gossip

/-!
# The requests of a node

Everything that a node sends to the sync endpoint of another one, as the payload that is handed to
`sendSyncInternal`. That adds padding, signs the result, and sends it as JSON.

Most payloads are made of strings and numbers. Three take values from their callers as they are:
`requestApproval` and `requestQuorumCommand` the data of an action, `broadcastAuditEvent` the event.
The last one also copies a mark of the event that is usually not there, and the copy is then a
property with the value `undefined`. That is all it takes to make the signature unverifiable
(`signature_survives_iff`).
-/

namespace Mesh

open Core

/-- What a node sends to another. -/
inductive Request
  /-- `broadcast`, with a payload that was built elsewhere. -/
  | message (entries : List (String × JsTree))
  | broadcast (b : Broadcast)
  /-- `reconcile`. -/
  | catchUp (lastHash : String)
  /-- `reconcile` and `requestAuditSync`. -/
  | fetchState
  /-- `resolveSplitBrain`. -/
  | auditStatus
  /-- `requestApproval`; `signature` is that of the inner payload. -/
  | approval (action : String) (data : JsTree) (signature : String)
  /-- `requestQuorumCommand`; `signature` is that of the inner payload. -/
  | consensus (action : String) (data : JsTree) (sagaId signature : String)

namespace Request

/-- The inner payload of a request for approval. -/
def approvalPayload (nodeId : String) (now : ℤ) (action : String) (data : JsTree) : JsTree :=
  .obj [("action", .str action), ("data", data), ("nodeId", .str nodeId), ("timestamp", .num now)]

/-- The inner payload of a request for consensus. -/
def consensusPayload (nodeId : String) (now : ℤ) (action : String) (data : JsTree)
    (sagaId : String) : JsTree :=
  .obj [("action", .str action), ("data", data), ("sagaId", .str sagaId),
    ("requester", .str nodeId), ("timestamp", .num now)]

/-- What is handed to `sendSyncInternal`; `none` is a message that has been passed on too often. -/
def payload (nodeId : String) (now : ℤ) : Request → Option JsTree
  | .message entries => gossip false (.obj entries)
  | .broadcast b => gossip false (b.payload nodeId now)
  | .catchUp lastHash => some (catchUpRequest nodeId lastHash)
  | .fetchState => some (fetchStateRequest nodeId)
  | .auditStatus => some (.obj [("type", .str "GET_AUDIT_STATUS")])
  | .approval action data signature =>
    some (.obj [("type", .str "REQUEST_APPROVAL"),
      ("payload", approvalPayload nodeId now action data), ("signature", .str signature)])
  | .consensus action data sagaId signature =>
    some (.obj [("type", .str "CONSENSUS_REQUEST"),
      ("payload", consensusPayload nodeId now action data sagaId), ("signature", .str signature)])

/-- Nothing in the request is `undefined` or a function. The properties `hops` and `_p` are
overwritten on the way, so whatever a caller puts there does not count. -/
def complete : Request → Bool
  | .message entries => entries.all fun e ↦ e.1 == "hops" || e.1 == "_p" || e.2.defined
  | .broadcast (.auditEvent event fromAudit) => event.defined && fromAudit.isSome
  | .approval _ data _ => data.defined
  | .consensus _ data _ _ => data.defined
  | _ => true

variable {padding : String} {v : JsTree}

/-- A message that was built elsewhere, with the two properties that are written to it. -/
theorem defined_padded_message {entries : List (String × JsTree)}
    (hv : gossip false (.obj entries) = some v) :
    (padded v padding).defined = true ↔ (message entries).complete = true := by
  rw [gossip, if_neg Bool.false_ne_true] at hv
  obtain ⟨es, hes, hmem, -⟩ := JsTree.exists_set entries "hops" (.num (hopsOf (.obj entries) + 1))
  dsimp only at hv
  rw [hes] at hv
  split at hv
  · cases hv
  · obtain rfl := Option.some.inj hv
    rw [padded, JsTree.defined_set, complete, List.all_eq_true]
    simp only [Bool.or_eq_true, beq_iff_eq, JsTree.defined_str, and_true, or_assoc]
    constructor
    · intro h e he
      by_cases hhops : e.1 = "hops"
      · exact .inl hhops
      · by_cases hp : e.1 = "_p"
        · exact .inr (.inl hp)
        · exact .inr (.inr (h e ((hmem e).2 (.inl ⟨he, hhops⟩)) hp))
    · intro h e he hp
      obtain ⟨he, hhops⟩ | rfl := (hmem e).1 he
      · exact ((h e he).resolve_left hhops).resolve_left hp
      · rfl

/-- What is signed has no more to it than the request. -/
theorem defined_padded {r : Request} {nodeId : String} {now : ℤ}
    (hv : r.payload nodeId now = some v) :
    (padded v padding).defined = true ↔ r.complete = true := by
  cases r with
  | message entries => exact defined_padded_message hv
  | broadcast b =>
    rw [defined_padded_message hv]
    cases b with
    | auditEvent event fromAudit =>
      cases fromAudit <;> simp [complete, Broadcast.data, Broadcast.marks]
    | _ =>
      simp [complete, Broadcast.data, Broadcast.marks]
  | _ =>
    obtain rfl := Option.some.inj hv
    simp only [padded, catchUpRequest, fetchStateRequest, JsTree.defined_set]
    simp [complete, approvalPayload, consensusPayload]

end Request

/-- For every request: the receiver finds the text that was signed exactly if no field of the
request is `undefined` or a function. -/
theorem signature_survives_iff (numbers : NumberText) {r : Request} {nodeId padding : String}
    {now : ℤ} {v w : JsTree} {signed : Option String} (hv : r.payload nodeId now = some v)
    (hkeys : v.distinctKeys = true) (hw : (padded v padding).overJson = some w)
    (hsigned : canonicalStringify numbers (padded v padding) = .ok signed) :
    canonicalStringify numbers w = .ok signed ↔ r.complete = true := by
  have hpadded : (padded v padding).distinctKeys = true := JsTree.distinctKeys_set hkeys rfl
  rw [canonicalStringify_overJson hpadded hw hsigned, Request.defined_padded hv]

/-- The announcement of a blocked address arrives as it was signed. -/
theorem signature_survives_iff_block :
    ∃ v w signed, (Request.broadcast (.block "203.0.113.7")).payload "n1" 1 = some v ∧
      (padded v "pad").overJson = some w ∧
      canonicalStringify decimal (padded v "pad") = .ok signed ∧
      canonicalStringify decimal w = .ok signed := by
  have hv : (Request.broadcast (.block "203.0.113.7")).payload "n1" 1 = some _ := rfl
  exact ⟨_, _, _, hv, rfl, rfl, (signature_survives_iff decimal hv rfl rfl rfl).2 rfl⟩

/-- An event of the ledger, as it is broadcast. It has no mark of its own. -/
def criticalTree : JsTree :=
  .obj [("id", .str "c"), ("type", .str "CRITICAL"), ("hash", .str "h")]

/-- The sender's text names the mark that the event does not have, the receiver's does not. -/
theorem undefined_mark_breaks_signature :
    ∃ v w, (Request.broadcast (.auditEvent criticalTree none)).payload "n1" 1 = some v ∧
      (padded v "pad").overJson = some w ∧
      canonicalStringify decimal (padded v "pad") = .ok (some
        ("\x7b\x22_p\x22:\x22pad\x22,\x22data\x22:" ++
          "\x7b\x22hash\x22:\x22h\x22,\x22id\x22:\x22c\x22,\x22type\x22:\x22CRITICAL\x22\x7d," ++
          "\x22fromAudit\x22:undefined,\x22hops\x22:1,\x22type\x22:\x22GOSSIP_AUDIT\x22\x7d")) ∧
      canonicalStringify decimal w = .ok (some
        ("\x7b\x22_p\x22:\x22pad\x22,\x22data\x22:" ++
          "\x7b\x22hash\x22:\x22h\x22,\x22id\x22:\x22c\x22,\x22type\x22:\x22CRITICAL\x22\x7d," ++
          "\x22hops\x22:1,\x22type\x22:\x22GOSSIP_AUDIT\x22\x7d")) := by
  exact ⟨_, _, rfl, rfl, by rfl, by rfl⟩

end Mesh
