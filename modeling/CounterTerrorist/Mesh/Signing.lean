import CounterTerrorist.Core.Crypto
import CounterTerrorist.Core.Wire
import CounterTerrorist.Mesh.Gossip

/-!
# Signed requests

A request to the sync endpoint carries a signature of its payload. There are two ways to make one.
With `TPM_RESIDENT_IDENTITY`, which is the default, the node signs with a key of its own: the
signature names the node and repeats the canonical text. Otherwise it is an HMAC under the secret
that all nodes share.

The other node checks the signature twice, in the middleware and again in the endpoint, and both
times without saying whose it should be. A missing name stands for the checking node itself. So a
node key is only accepted by the node it belongs to (`honest_request_accepted_iff`).

## Age

The endpoint refuses payloads with an old `timestamp`. It looks for it at the top of the payload,
where no sender puts it, so a request that was recorded is as good as a new one whenever it is
sent again (`replay_rejected_iff`).
-/

namespace Mesh

open Core Audit List Option

/-! ### Signing -/

/-- A node, as far as signatures go. -/
structure MeshManager where
  nodeId : String
  port : ℕ
  /-- `MESH_SECRET`. -/
  meshSecret : Option String
  /-- `TPM_RESIDENT_IDENTITY`. -/
  tpmMode : Bool

/-- What nodes sign and verify with. -/
structure SigningEnv extends Crypto where
  /-- `meshAuth.signWithNodeKey`; `none` is a failure. -/
  signWithNodeKey : (nodeId data : String) → Option String

/-- A signature with the key of a node. -/
def nodeKeySignature (nodeId data : String) : String := "p-sig:node-key-" ++ nodeId ++ ":" ++ data

/-- A request on its way: the body, and the header `X-Mesh-Signature`. -/
structure SyncRequest where
  body : Option JsTree
  signature : Option String

namespace MeshManager

variable (env : SigningEnv) (node : MeshManager)

/-- The secret; the empty one counts as none. -/
def secret : Option String := node.meshSecret.filter (· ≠ "")

/-- `signPayload`. -/
def signPayload (payload : JsTree) : Except String String :=
  if node.tpmMode then do
    let payloadStr ← canonicalStringify env.numbers payload
    .ok ((env.signWithNodeKey node.nodeId (payloadStr.getD "undefined")).getD "unsigned")
  else
    match node.secret with
    | none => .ok "unsigned"
    | some secret => env.toCrypto.signPayload payload secret

/-- `verifySignature`. -/
def verifySignature (payload : JsTree) (signature : String) (peerId : Option String) :
    Except String Bool :=
  if node.tpmMode ∧ "p-sig:".toList <+: signature.toList then do
    let payloadStr ← canonicalStringify env.numbers payload
    let signerId := strOr peerId node.nodeId
    .ok (signature == nodeKeySignature signerId (payloadStr.getD "undefined"))
  else
    match node.secret with
    | none => .ok false
    | some secret => .ok (env.toCrypto.verifySignature payload signature secret)

/-- The request of `sendSyncInternal`. Without a secret it is not signed. -/
def sendSyncInternal (payload : JsTree) (padding : String) : Except String SyncRequest :=
  let paddedPayload := padded payload padding
  match node.secret with
  | none => .ok ⟨paddedPayload.overJson, none⟩
  | some _ => do
    let signature ← node.signPayload env paddedPayload
    .ok ⟨paddedPayload.overJson, some signature⟩

/-! ### The two checks -/

/-- Whether `meshAuth` takes the sender for a peer. If not, the request needs a session. -/
def meshAuth (req : SyncRequest) : Except String Bool :=
  if node.secret.isSome ∧ strTruthy req.signature then
    match req.body with
    | none | some .null => .ok false
    | some payload => node.verifySignature env payload (req.signature.getD "") none
  else .ok false

/-- The endpoint of the node. An exception of `verifySignature` ends the request as well. -/
def endpoint (base : HandlerEnv) : HandlerEnv :=
  { base with
    verifySignature := fun payload signature ↦
      match node.verifySignature env payload signature none with
      | .ok valid => valid
      | .error _ => false
    hasMeshSecret := node.secret.isSome }

theorem verifySignature_endpoint {env : SigningEnv} {node : MeshManager} (base : HandlerEnv)
    {payload : JsTree} {signature : String} {valid : Bool}
    (h : node.verifySignature env payload signature none = .ok valid) :
    (node.endpoint env base).verifySignature payload signature = valid := by
  rw [endpoint]
  dsimp only
  rw [h]

end MeshManager

/-- The endpoint refuses the request for its signature. -/
def refusesSignature (env : HandlerEnv) (payload : JsTree) (signature : Option String) : Bool :=
  if strTruthy signature then !env.verifySignature payload (signature.getD "")
  else env.hasMeshSecret

/-! ### Who accepts what -/

section

variable {env : SigningEnv} {a b : MeshManager} {v : JsTree} {signature : String}

/-- A signature says which node it is of. -/
theorem nodeKeySignature_inj {id id' data : String} :
    nodeKeySignature id data = nodeKeySignature id' data ↔ id = id' := by
  constructor
  · intro h
    have hchars := congrArg String.toList h
    unfold nodeKeySignature at hchars
    simp only [String.toList_append] at hchars
    have hid := append_cancel_right (append_cancel_right hchars)
    exact String.toList_inj.1 (append_cancel_left hid)
  · rintro rfl
    rfl

theorem isPrefix_nodeKeySignature (id data : String) :
    "p-sig:".toList <+: (nodeKeySignature id data).toList := by
  unfold nodeKeySignature
  simp only [String.toList_append, append_assoc]
  exact ⟨"node-key-".toList ++ (id.toList ++ (":".toList ++ data.toList)), rfl⟩

/-- What a node signs another one accepts, unless they have keys of their own. -/
theorem verifySignature_of_signPayload
    (hkeys : ∀ id data, env.signWithNodeKey id data = some (nodeKeySignature id data))
    (hsecret : a.secret = b.secret) (hset : a.secret.isSome) (hmode : a.tpmMode = b.tpmMode)
    (hsig : a.signPayload env v = .ok signature) :
    signature ≠ "" ∧ (b.verifySignature env v signature none = .ok true ↔
      a.tpmMode = false ∨ a.nodeId = b.nodeId) := by
  rw [MeshManager.signPayload] at hsig
  cases htpm : a.tpmMode with
  | true =>
    rw [htpm, if_pos rfl, bind_eq_ok] at hsig
    obtain ⟨text, htext, hsig⟩ := hsig
    rw [hkeys, getD_some] at hsig
    obtain rfl := Except.ok.inj hsig
    have hpre := isPrefix_nodeKeySignature a.nodeId (text.getD "undefined")
    constructor
    · intro hempty
      rw [hempty] at hpre
      cases prefix_nil.1 hpre
    · rw [MeshManager.verifySignature, if_pos ⟨by rw [← hmode, htpm], hpre⟩, htext]
      show Except.ok (_ == nodeKeySignature b.nodeId _) = .ok true ↔ _
      rw [Except.ok.injEq, beq_iff_eq, nodeKeySignature_inj]
      exact ⟨.inr, fun h ↦ h.resolve_left Bool.noConfusion⟩
  | false =>
    obtain ⟨secret, hsome⟩ := isSome_iff_exists.1 hset
    rw [htpm, hsome] at hsig
    refine ⟨Crypto.signPayload_ne hsig, fun _ ↦ .inl rfl, fun _ ↦ ?_⟩
    rw [MeshManager.verifySignature, if_neg (fun h ↦ by rw [← hmode, htpm] at h; cases h.1),
      ← hsecret, hsome]
    exact congrArg Except.ok (Crypto.verifySignature_signPayload hsig)

end

/-- Both checks pass. -/
structure Accepted (env : SigningEnv) (node : MeshManager) (base : HandlerEnv) (req : SyncRequest) :
    Prop where
  meshAuth : node.meshAuth env req = .ok true
  endpoint : ∃ payload, req.body = some payload ∧
    refusesSignature (node.endpoint env base) payload req.signature = false

/-- A signed request passes both checks exactly if its signature is verified. -/
theorem accepted_iff {env : SigningEnv} {node : MeshManager} {base : HandlerEnv}
    {payload : JsTree} {signature : String} (hset : node.secret.isSome) (hne : signature ≠ "")
    (hobject : payload.isNull = false) :
    Accepted env node base ⟨some payload, some signature⟩ ↔
      node.verifySignature env payload signature none = .ok true := by
  have htruthy : strTruthy (some signature) = true := bne_iff_ne.2 hne
  have hauth : node.meshAuth env ⟨some payload, some signature⟩ =
      node.verifySignature env payload signature none := by
    rw [MeshManager.meshAuth, if_pos ⟨hset, htruthy⟩]
    cases payload with
    | null => cases hobject
    | _ => rfl
  constructor
  · intro h
    rw [← hauth]
    exact h.meshAuth
  · intro h
    refine ⟨hauth.trans h, payload, rfl, ?_⟩
    rw [refusesSignature, if_pos htruthy, getD_some, MeshManager.verifySignature_endpoint base h]
    rfl

/-- For all nodes with the same secret and the same configuration, and every request without
`undefined` that one of them sends: the other one accepts it exactly if there is a secret and the
signature is not one with a key of the sender's own. -/
theorem honest_request_accepted_iff (env : SigningEnv)
    (hkeys : ∀ id data, env.signWithNodeKey id data = some (nodeKeySignature id data))
    (base : HandlerEnv) {a b : MeshManager} (hsecret : a.meshSecret = b.meshSecret)
    (hmode : a.tpmMode = b.tpmMode) {entries : List (String × JsTree)} {padding : String}
    {req : SyncRequest} (hdefined : (JsTree.obj entries).defined = true)
    (hsent : a.sendSyncInternal env (.obj entries) padding = .ok req) :
    Accepted env b base req ↔
      a.secret.isSome ∧ (a.tpmMode = false ∨ a.nodeId = b.nodeId) := by
  have hsame : a.secret = b.secret := by rw [MeshManager.secret, hsecret, MeshManager.secret]
  have hbody : (padded (.obj entries) padding).overJson = some (padded (.obj entries) padding) := by
    refine JsTree.overJson_of_defined (JsTree.defined_set.2 ⟨fun e he _ ↦ ?_, rfl⟩)
    exact JsTree.defined_obj.1 hdefined e he
  rw [MeshManager.sendSyncInternal, hbody] at hsent
  cases hset : a.secret with
  | none =>
    rw [hset] at hsent
    obtain rfl := Except.ok.inj hsent
    constructor
    · rintro ⟨hauth, -⟩
      rw [MeshManager.meshAuth, if_neg (fun h ↦ by rw [← hsame, hset] at h; cases h.1)] at hauth
      cases hauth
    · rintro ⟨hsome, -⟩
      cases hsome
  | some secret =>
    rw [hset] at hsent
    obtain ⟨signature, hsigned, hreq⟩ := bind_eq_ok.1 hsent
    obtain rfl := Except.ok.inj hreq
    have hsome : a.secret.isSome := by rw [hset]; rfl
    obtain ⟨hne, hverified⟩ := verifySignature_of_signPayload hkeys hsame hsome hmode hsigned
    have hobject : (padded (.obj entries) padding).isNull = false := by
      obtain ⟨es, hes, -⟩ := JsTree.exists_set entries "_p" (.str padding)
      rw [padded, hes]
      rfl
    rw [accepted_iff (hsame ▸ hsome) hne hobject, hverified]
    exact ⟨fun h ↦ ⟨rfl, h⟩, fun h ↦ h.2⟩

/-- Signatures that hide nothing. -/
def plainSigning : SigningEnv where
  toCrypto := .transparent
  signWithNodeKey id data := some (nodeKeySignature id data)

/-- A node with the secret `s`. -/
def MeshManager.named (nodeId : String) (tpmMode : Bool) : MeshManager :=
  ⟨nodeId, 8000, some "s", tpmMode⟩

/-- The request of `resolveSplitBrain`. -/
def statusEntries : List (String × JsTree) := [("type", .str "GET_AUDIT_STATUS")]

/-- Node `b` turns away what node `a` has signed with its own key. -/
theorem node_key_refused :
    ∃ req w, (MeshManager.named "a" true).sendSyncInternal plainSigning (.obj statusEntries) "pad" =
        .ok req ∧
      req.body = some w ∧ (MeshManager.named "b" true).meshAuth plainSigning req = .ok false ∧
      admission ((MeshManager.named "b" true).endpoint plainSigning
          (trustingEnv (AuditService.remoteEvent "c" "next" "alogin"))) w req.signature =
        .refuse ⟨401, .error "Invalid signature"⟩ :=
  ⟨_, _, rfl, rfl, rfl, rfl⟩

/-- With the secret that they share, node `b` accepts what node `a` sends. -/
theorem honest_request_accepted_iff_shared :
    ∃ req, (MeshManager.named "a" false).sendSyncInternal plainSigning (.obj statusEntries) "pad" =
        .ok req ∧
      Accepted plainSigning (MeshManager.named "b" false)
        (trustingEnv (AuditService.remoteEvent "c" "next" "alogin")) req := by
  have hsent : (MeshManager.named "a" false).sendSyncInternal plainSigning (.obj statusEntries)
    "pad" = .ok _ := rfl
  refine ⟨_, hsent, ?_⟩
  exact (honest_request_accepted_iff plainSigning (fun _ _ ↦ rfl) _ (b := .named "b" false) rfl rfl
    rfl hsent).2 ⟨rfl, .inl rfl⟩

/-! ### Replays -/

/-- The endpoint has answered with an error, and has done nothing. -/
def Rejected (handled : Handled) : Prop :=
  handled.effects = [] ∧ ∃ reply, handled.reply = some reply ∧ reply.status ≠ 200

/-- The checks before the first branch, once the rate limiter has let the request through. -/
theorem admission_eq {env : HandlerEnv} (payload : JsTree) (signature : Option String)
    (hallowed : env.allowed = true) :
    admission env payload signature =
      if refusesSignature env payload signature then
        .refuse ⟨401, .error (if strTruthy signature then "Invalid signature"
          else "Missing required mesh signature")⟩
      else if payload.isNull then .throw
      else if (payload.get "timestamp").truthy ∧
          (env.number (payload.get "timestamp")).any fun t ↦ decide (|env.now - t| > 300000) then
        .refuse ⟨401, .error "Stale payload"⟩
      else .pass := by
  rw [admission, hallowed, refusesSignature]
  cases strTruthy signature with
  | true => cases env.verifySignature payload (signature.getD "") <;> rfl
  | false => cases env.hasMeshSecret <;> rfl

/-- What no sender puts at the top of a payload. -/
theorem untimed_delivered {nodeId padding : String} {now : ℤ} {b : Broadcast} {w : JsTree}
    (hw : delivered nodeId now padding b = some w) :
    w.get "timestamp" = .undefined ∧ w.isNull = false := by
  refine ⟨get_delivered hw (by decide), ?_⟩
  rw [delivered_eq] at hw
  obtain rfl := some.inj hw
  rfl

/-- For every broadcast, however long ago it was made: when it is delivered again it is rejected
exactly if the rate limiter or the check of the signature would reject it on its first way, too. -/
theorem replay_rejected_iff (p : Ports) (env : HandlerEnv) (audit : AuditService)
    {nodeId padding : String} {made : ℤ} {b : Broadcast} {w : JsTree} (signature : Option String)
    (hw : delivered nodeId made padding b = some w) :
    Rejected (handler p env audit w signature) ↔
      env.allowed = false ∨ refusesSignature env w signature = true := by
  obtain ⟨huntimed, hobject⟩ := untimed_delivered hw
  cases hallowed : env.allowed with
  | false =>
    have hrefused : ∃ reply, admission env w signature = .refuse reply ∧ reply.status ≠ 200 := by
      rw [admission, hallowed]
      exact ⟨_, rfl, by dsimp only; decide⟩
    obtain ⟨reply, hreply, hstatus⟩ := hrefused
    rw [handler, hreply]
    exact ⟨fun _ ↦ .inl rfl, fun _ ↦ ⟨rfl, reply, rfl, hstatus⟩⟩
  | true =>
    have hadmission := admission_eq w signature hallowed
    rw [huntimed, hobject] at hadmission
    cases hrefuses : refusesSignature env w signature with
    | true =>
      rw [handler, hadmission, hrefuses]
      exact ⟨fun _ ↦ .inr rfl, fun _ ↦ ⟨rfl, _, rfl, by dsimp only; decide⟩⟩
    | false =>
      rw [hrefuses] at hadmission
      rw [handler, hadmission]
      constructor
      · rintro ⟨-, reply, hreply, hstatus⟩
        -- whatever the branches do, the status is 200
        cases hthreat : onThreatHash w with
        | none =>
          rw [hthreat] at hreply
          cases hreply
        | some logged =>
          rw [hthreat] at hreply
          cases hreply
          exact absurd rfl hstatus
      · rintro (h | h) <;> cases h

/-- A lockdown of node `a`, sent again more than five minutes later: node `b` verifies the signature
again, and announces the lockdown again. -/
theorem stale_lockdown_announced :
    ∃ payload req w, gossip false (Broadcast.lockdown.payload "a" 0) = some payload ∧
      (MeshManager.named "a" false).sendSyncInternal plainSigning payload "pad" = .ok req ∧
      req.body = some w ∧ delivered "a" 0 "pad" .lockdown = some w ∧
      ((handler AuditService.joiningPorts ((MeshManager.named "b" false).endpoint plainSigning
        { trustingEnv (AuditService.remoteEvent "c" "next" "alogin") with now := 300001 })
        AuditService.oneStored w req.signature).effects =
          [.broadcastEvent "MESH_LOCKDOWN" "Mesh-wide LOCKDOWN initiated by node unknown" w
            300001]) :=
  ⟨_, _, _, rfl, rfl, rfl, rfl, rfl⟩

/-- A replay that the rate limiter stops. -/
theorem replay_rejected_iff_limited :
    ∃ w, delivered "a" 0 "pad" .lockdown = some w ∧
      Rejected (handler AuditService.joiningPorts
        { trustingEnv (AuditService.remoteEvent "c" "next" "alogin") with
          allowed := false
          now := 300001 }
        AuditService.oneStored w (some "sig")) := by
  have hw := delivered_eq "a" "pad" 0 .lockdown
  exact ⟨_, hw, (replay_rejected_iff _ _ _ _ hw).2 (.inl rfl)⟩

end Mesh
