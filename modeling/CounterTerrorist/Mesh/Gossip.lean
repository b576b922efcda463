import CounterTerrorist.Audit.Sync
import CounterTerrorist.Mesh.Handler

/-!
# Gossip

What a node tells the others: `MeshManager` wraps it as `{ type, data }`, `MeshGossipManager` counts
the hops, `sendSync` adds padding, and the result goes to the sync endpoint of another node as JSON.

The endpoint looks for `ip`, `hash`, `events`, `sourceNode`, `lastHash` and `count` at the top of
the message. The senders put them below `data`. So none of these messages does anything at the other
end, except that a lockdown is announced without its origin (`effects_delivered`).
-/

namespace Mesh

open Core Audit AuditService

/-! ### The senders -/

/-- The messages of the `broadcast…` methods. -/
inductive Broadcast
  | block (ip : String)
  | quarantine (target : String)
  | threatHash (hash sourceNode : String)
  | lockdown
  /-- The event is passed on as it is; `fromAudit` is its mark, if it has one. -/
  | auditEvent (event : JsTree) (fromAudit : Option Bool)
  | auditVerification (lastHash : String) (eventCount : ℤ)

namespace Broadcast

/-- The `type` of the payload. -/
def type : Broadcast → String
  | .block _ => "GOSSIP_BLOCK"
  | .quarantine _ => "GOSSIP_QUARANTINE"
  | .threatHash _ _ => "GOSSIP_THREAT_HASH"
  | .lockdown => "GOSSIP_LOCKDOWN"
  | .auditEvent _ _ => "GOSSIP_AUDIT"
  | .auditVerification _ _ => "GOSSIP_AUDIT_VERIFY"

/-- The `data` of the payload. -/
def data (nodeId : String) (now : ℤ) : Broadcast → JsTree
  | .block ip => .obj [("ip", .str ip), ("sourceNode", .str nodeId), ("timestamp", .num now)]
  | .quarantine target =>
    .obj [("target", .str target), ("sourceNode", .str nodeId), ("timestamp", .num now)]
  | .threatHash hash sourceNode =>
    .obj [("hash", .str hash), ("sourceNode", .str sourceNode), ("timestamp", .num now)]
  | .lockdown => .obj [("sourceNode", .str nodeId), ("timestamp", .num now)]
  | .auditEvent event _ => event
  | .auditVerification lastHash eventCount =>
    .obj [("lastHash", .str lastHash), ("eventCount", .num eventCount), ("node", .str nodeId)]

/-- What else stands in the payload. -/
def marks : Broadcast → List (String × JsTree)
  | .auditEvent _ fromAudit => [("fromAudit", (fromAudit.map JsTree.bool).getD .undefined)]
  | _ => []

/-- The payload that a `broadcast…` method hands to the gossip layer. -/
def payload (nodeId : String) (now : ℤ) (b : Broadcast) : JsTree :=
  .obj ([("type", .str b.type), ("data", b.data nodeId now)] ++ b.marks)

end Broadcast

/-- The hops of a message so far: `typeof payload.hops === "number" ? payload.hops : 0`. -/
def hopsOf (payload : JsTree) : ℤ :=
  match payload.get "hops" with
  | .num n => n
  | _ => 0

/-- What `MeshGossipManager.broadcast` sends to every verified node, if anything. `seen` is the
answer of its cache. -/
def gossip (seen : Bool) (payload : JsTree) : Option JsTree :=
  if seen then none
  else
    let hops := hopsOf payload + 1
    if hops > 5 then none else some (payload.set "hops" (.num hops))

/-- What arrives at the endpoint of the other node. -/
def delivered (nodeId : String) (now : ℤ) (padding : String) (b : Broadcast) : Option JsTree :=
  (gossip false (b.payload nodeId now)).bind fun payload ↦ (padded payload padding).overJson

/-- The properties of a message on its way. -/
def Broadcast.onTheWay (nodeId : String) (now : ℤ) (padding : String) (b : Broadcast) :
    List (String × JsTree) :=
  [("type", .str b.type), ("data", b.data nodeId now)] ++ b.marks ++
    [("hops", .num 1), ("_p", .str padding)]

/-! ### What arrives -/

section Delivered

variable {nodeId padding : String} {now : ℤ} {b : Broadcast} {w : JsTree}

/-- A first broadcast passes the gossip layer, and arrives with two more properties. -/
theorem delivered_eq (nodeId padding : String) (now : ℤ) (b : Broadcast) :
    delivered nodeId now padding b =
      some (.obj (JsTree.overJsonEntries (b.onTheWay nodeId now padding))) := by
  cases b <;> rfl

section

variable (hw : delivered nodeId now padding b = some w)
include hw

theorem get_type_delivered : w.get "type" = .str b.type := by
  rw [delivered_eq] at hw
  obtain rfl := Option.some.inj hw
  rfl

/-- Below the top nothing can be found. -/
theorem get_delivered {k : String}
    (hk : k ∉ ["type", "data", "fromAudit", "hops", "_p"]) : w.get k = .undefined := by
  rw [delivered_eq] at hw
  obtain rfl := Option.some.inj hw
  have habs : (b.onTheWay nodeId now padding).lookup k = none := by
    rw [List.lookup_eq_none_iff]
    intro e he
    rw [bne_iff_ne]
    rintro rfl
    refine hk ?_
    have hkeys : (b.onTheWay nodeId now padding).map Prod.fst ⊆
        ["type", "data", "fromAudit", "hops", "_p"] := by
      cases b <;> simp [Broadcast.onTheWay, Broadcast.marks]
    exact hkeys (List.mem_map_of_mem he)
  rw [JsTree.get, JsTree.lookup_overJsonEntries habs, Option.getD_none]

theorem isType_delivered (type : String) : isType w type = (b.type == type) := by
  rw [isType, get_type_delivered hw]
  rfl

end

/-- The endpoint finds nothing to do for a message that is not a lockdown. -/
theorem effects_delivered (p : Ports) (env : HandlerEnv) (audit : AuditService)
    (signature : Option String) (hb : b.type ≠ "GOSSIP_LOCKDOWN")
    (hw : delivered nodeId now padding b = some w) :
    (handler p env audit w signature).effects = [] := by
  have hip : w.get "ip" = .undefined := get_delivered hw (by decide)
  have hhash : w.get "hash" = .undefined := get_delivered hw (by decide)
  have hevs : w.get "events" = .undefined := get_delivered hw (by decide)
  have hcnt : w.get "count" = .undefined := get_delivered hw (by decide)
  have hlockdown : isType w "GOSSIP_LOCKDOWN" = false := by
    rw [isType_delivered hw]
    exact beq_eq_false_iff_ne.2 hb
  have hthreat : onThreatHash w = some [] := by simp [onThreatHash, hhash, JsTree.truthy]
  rw [handler]
  cases admission env w signature with
  | refuse reply => rfl
  | throw => rfl
  | pass =>
    simp [hthreat, onBlock, onAudit, onLockdown, onAuditVerify, hip, hevs, hcnt, hlockdown,
      JsTree.truthy, HandlerEnv.number]

end Delivered

/-! ### No effect at the other end -/

/-- The events that a request adds to the ledger of the node. -/
def Handled.appended (p : Ports) (audit : AuditService) (handled : Handled) : List AuditEvent :=
  handled.effects.flatMap fun
    | .syncEvents events => AuditService.acceptedEvents p audit.lastHash events
    | _ => []

/-- Whatever the sender, the receiver, its settings and its ledger are: the message of
`broadcastBlock` arrives and no address is blocked, and the message of `broadcastAuditEvent` arrives
and no event is added to the ledger. -/
theorem gossip_takes_no_effect (p : Ports) (env : HandlerEnv) (audit : AuditService)
    (signature : Option String) (nodeId padding : String) (now : ℤ) :
    (∀ ip, ∃ w, delivered nodeId now padding (.block ip) = some w ∧
      ∀ ip', .blockIp ip' ∉ (handler p env audit w signature).effects) ∧
    (∀ event fromAudit, ∃ w, delivered nodeId now padding (.auditEvent event fromAudit) = some w ∧
      (handler p env audit w signature).appended p audit = []) := by
  refine ⟨fun ip ↦ ⟨_, delivered_eq .., fun ip' ↦ ?_⟩,
    fun event fromAudit ↦ ⟨_, delivered_eq .., ?_⟩⟩
  · have hb : (Broadcast.block ip).type ≠ "GOSSIP_LOCKDOWN" := by simp [Broadcast.type]
    rw [effects_delivered p env audit signature hb (delivered_eq nodeId padding now _)]
    simp
  · have hb : (Broadcast.auditEvent event fromAudit).type ≠ "GOSSIP_LOCKDOWN" := by
      simp [Broadcast.type]
    rw [Handled.appended,
      effects_delivered p env audit signature hb (delivered_eq nodeId padding now _)]
    rfl

/-- The event of `gossip_ignored`, as the sender passes it on. -/
def nextTree : JsTree :=
  .obj [("id", .str "c"), ("timestamp", .str "1"), ("type", .str "INFO"), ("message", .str "next"),
    ("hash", .str "cnext"), ("prevHash", .str "alogin")]

/-- A block for an address that the receiver would block, and an event that it would append: both
messages are admitted, and neither has an effect. -/
theorem gossip_ignored :
    let next := remoteEvent "c" "next" "alogin"
    let env := trustingEnv next
    (∃ w, delivered "n1" 1 "pad" (.block "203.0.113.7") = some w ∧
      Admitted env w (some "sig") ∧ env.isValidIP (.str "203.0.113.7") = true ∧
      env.isCriticalInfrastructure (.str "203.0.113.7") = false ∧
      .blockIp (.str "203.0.113.7") ∉ (handler joiningPorts env oneStored w (some "sig")).effects) ∧
    (∃ w, delivered "n1" 1 "pad" (.auditEvent nextTree none) = some w ∧
      Admitted env w (some "sig") ∧ joiningPorts.HashOk next ∧
      next.prevHash = oneStored.lastHash ∧
      acceptedEvents joiningPorts oneStored.lastHash [next] = [next] ∧
      next ∉ (handler joiningPorts env oneStored w
        (some "sig")).appended joiningPorts oneStored) := by
  refine ⟨⟨_, delivered_eq .., rfl, rfl, rfl, ?_⟩, ⟨_, delivered_eq .., rfl, rfl, rfl, rfl, ?_⟩⟩
  · rw [effects_delivered _ _ _ _ (by simp [Broadcast.type]) (delivered_eq "n1" "pad" 1 _)]
    simp
  · rw [Handled.appended,
      effects_delivered _ _ _ _ (by simp [Broadcast.type]) (delivered_eq "n1" "pad" 1 _)]
    simp

end Mesh
