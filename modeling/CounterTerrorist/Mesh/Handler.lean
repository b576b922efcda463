import CounterTerrorist.Audit.Queries

/-!
# The sync endpoint of a node

`POST /api/mesh/sync` takes a JSON object from another node and looks at its properties one by one.
There is no schema, so the model works on untyped values and a missing property is `undefined`.

The endpoint only reads the ledger of its node. What it asks other services to do is recorded as a
list of effects, in order; the answers of services that are not modelled (the rate limiter, the
signature check, the counter of the repository) are fields of `HandlerEnv`.

## Coercions

Numbers and texts are compared and printed after the coercions of JavaScript. For simple values they
are written out; for the others they are left to `HandlerEnv`.
-/

namespace Mesh

open Core Audit

/-! ### What the endpoint works with -/

/-- The services and settings of a node, as the endpoint uses them. -/
structure HandlerEnv where
  /-- The answer of the rate limiter for the peer, and how long to wait. -/
  allowed : Bool
  retryAfterMs : ℤ
  /-- `mesh.verifySignature`. -/
  verifySignature : JsTree → String → Bool
  /-- Whether `MESH_SECRET` is set. -/
  hasMeshSecret : Bool
  /-- `Date.now()`. -/
  now : ℤ
  isValidIP : JsTree → Bool
  isCriticalInfrastructure : JsTree → Bool
  /-- `repo.count()`. -/
  count : ℤ
  /-- What `syncEvents` finds in a value it goes through. -/
  readEvents : JsTree → List AuditEvent
  /-- `Number(v)` for a value that is none of the simple ones; `none` is `NaN`. -/
  coerceNumber : JsTree → Option ℤ
  /-- `String(v)`, for a value that is no string. -/
  coerceString : JsTree → String

/-- `Number(v)`. -/
def HandlerEnv.number (env : HandlerEnv) : JsTree → Option ℤ
  | .num n => some n
  | .bool b => some b.toNat
  | .undefined => none
  | .null => some 0
  | v => env.coerceNumber v

/-- `String(v)`. -/
def HandlerEnv.text (env : HandlerEnv) : JsTree → String
  | .str s => s
  | v => env.coerceString v

/-- A call that the endpoint makes and waits for. -/
inductive Effect
  | blockIp (ip : JsTree)
  | logEvent (type message : String) (data : JsTree)
  | syncEvents (events : List AuditEvent)
  | broadcastEvent (type message : String) (data : JsTree) (timestamp : ℤ)
  | requestAuditSync (sourceNode : JsTree)

/-- The body of a response. -/
inductive Body
  /-- `{ error, code, retryAfterMs }`. -/
  | rateLimited (error code : String) (retryAfterMs : ℤ)
  /-- `{ error }`. -/
  | error (error : String)
  /-- `{ success: true, events, proof }`; the proof can be `null` or absent. -/
  | catchUp (events : List AuditEvent) (proof : Option MerkleProof)
  /-- `{ success: true, full_sync_required: true }`. -/
  | fullSyncRequired
  /-- `{ success: true, kv_snapshot }`. -/
  | snapshot (kvSnapshot : List AuditEvent)
  /-- `{ success: true }`. -/
  | success

/-- A response: status and body. -/
structure Reply where
  status : ℕ
  body : Body

/-- What became of a request: the calls that were made, and the response. Without one the endpoint
threw an exception. -/
structure Handled where
  effects : List Effect
  reply : Option Reply

/-- The outcome of the checks before the first branch. -/
inductive Admission
  | refuse (reply : Reply)
  | throw
  | pass

/-! ### The branches -/

variable (p : Ports) (env : HandlerEnv) (audit : AuditService) (payload : JsTree)

/-- `payload.type === type`. -/
def isType (type : String) : Bool := (payload.get "type").isStr type

/-- The checks before the first branch: rate limit, signature, age. -/
def admission (signature : Option String) : Admission :=
  if !env.allowed then
    .refuse ⟨429, .rateLimited "Rate limit exceeded" "RATE_LIMIT_EXCEEDED" env.retryAfterMs⟩
  else if strTruthy signature ∧ !env.verifySignature payload (signature.getD "") then
    .refuse ⟨401, .error "Invalid signature"⟩
  else if !strTruthy signature ∧ env.hasMeshSecret then
    .refuse ⟨401, .error "Missing required mesh signature"⟩
  -- reading a property of `null`
  else if payload.isNull then .throw
  else if (payload.get "timestamp").truthy ∧
      (env.number (payload.get "timestamp")).any fun t ↦ decide (|env.now - t| > 300000) then
    .refuse ⟨401, .error "Stale payload"⟩
  else .pass

/-- `GOSSIP_BLOCK`. -/
def onBlock : List Effect :=
  let ip := payload.get "ip"
  if isType payload "GOSSIP_BLOCK" ∧ ip.truthy ∧ env.isValidIP ip ∧
      !env.isCriticalInfrastructure ip then [.blockIp ip]
  else []

/-- `GOSSIP_THREAT_HASH`. `none` is the exception for a hash that is no string and cannot be
sliced. -/
def onThreatHash : Option (List Effect) :=
  let hash := payload.get "hash"
  if isType payload "GOSSIP_THREAT_HASH" ∧ hash.truthy then
    match hash with
    | .str s =>
      some [.logEvent "MESH_THREAT"
        ("Mesh-wide binary blacklist updated: " ++ (s.take 8).toString) payload]
    | _ => none
  else some []

/-- `GOSSIP_AUDIT`. -/
def onAudit : List Effect :=
  let events := payload.get "events"
  if isType payload "GOSSIP_AUDIT" ∧ events.truthy then [.syncEvents (env.readEvents events)]
  else []

/-- `GOSSIP_LOCKDOWN`. -/
def onLockdown : List Effect :=
  let sourceNode := payload.get "sourceNode"
  if isType payload "GOSSIP_LOCKDOWN" then
    [.broadcastEvent "MESH_LOCKDOWN"
      ("Mesh-wide LOCKDOWN initiated by node " ++
        (if sourceNode.truthy then env.text sourceNode else "unknown")) payload env.now]
  else []

/-- `GOSSIP_AUDIT_VERIFY`. -/
def onAuditVerify : List Effect :=
  let count := payload.get "count"
  if isType payload "GOSSIP_AUDIT_VERIFY" ∧
      (!(payload.get "lastHash").isStr audit.lastHash ∨ !count.isNum env.count) ∧
      (env.number count).any fun n ↦ decide (env.count < n) then
    [.requestAuditSync (payload.get "sourceNode")]
  else []

/-- `MERKLE_CATCH_UP`. -/
def catchUp : Body :=
  let lastKnownHash := payload.get "lastKnownHash"
  match (audit.getEventsInRange lastKnownHash 100).getLast? with
  | some lastEvent =>
    .catchUp (audit.getEventsInRange lastKnownHash 100) (audit.getMerkleProof p lastEvent.hash)
  | none =>
    if !lastKnownHash.isStr audit.lastHash then .fullSyncRequired else .catchUp [] none

/-- The response, once the branches with effects are through. -/
def answer : Body :=
  if isType payload "MERKLE_CATCH_UP" then catchUp p audit payload
  else if isType payload "FETCH_STATE" then .snapshot (audit.getRecentEvents 100)
  else .success

/-- The endpoint. -/
def handler (signature : Option String) : Handled :=
  match admission env payload signature with
  | .refuse reply => ⟨[], some reply⟩
  | .throw => ⟨[], none⟩
  | .pass =>
    match onThreatHash payload with
    | none => ⟨onBlock env payload, none⟩
    | some logged =>
      ⟨onBlock env payload ++ logged ++ onAudit env payload ++ onLockdown env payload ++
        onAuditVerify env audit payload, some ⟨200, answer p audit payload⟩⟩

/-- The request passes the checks before the first branch. -/
def Admitted (signature : Option String) : Prop := admission env payload signature = .pass

/-! ### On the wire -/

/-- `{ ...payload, _p: padding }`. -/
def padded (payload : JsTree) (padding : String) : JsTree := payload.set "_p" (.str padding)

/-- A response body as the other node reads it. -/
def Body.overJson : Body → Body
  | .catchUp events proof => .catchUp (events.map AuditEvent.overJson) proof
  | .snapshot kvSnapshot => .snapshot (kvSnapshot.map AuditEvent.overJson)
  | body => body

/-- What one exchange with a node depends on, besides its ledger: its settings at that time, the
signature the request carries, and the random padding. -/
structure Exchange where
  env : HandlerEnv
  signature : Option String
  padding : String

/-- `sendSyncInternal`, when neither request nor response is lost. `none` is the exception for a
response that reports a failure. -/
def sendSync (x : Exchange) (payload : JsTree) : Option Body := do
  let w ← (padded payload x.padding).overJson
  match (handler p x.env audit w x.signature).reply with
  | some ⟨200, body⟩ => some body.overJson
  | _ => none

/-! ### Sample values -/

/-- A node that accepts every signature and every address, and that finds the event it waits for in
whatever it is given. -/
def trustingEnv (awaited : AuditEvent) : HandlerEnv where
  allowed := true
  retryAfterMs := 0
  verifySignature := fun _ _ ↦ true
  hasMeshSecret := true
  now := 2
  isValidIP := fun _ ↦ true
  isCriticalInfrastructure := fun _ ↦ false
  count := 1
  readEvents := fun _ ↦ [awaited]
  coerceNumber := fun _ ↦ none
  coerceString := fun _ ↦ ""

end Mesh
