import CounterTerrorist.Core.BloomFilter
import CounterTerrorist.Core.Resilience
import CounterTerrorist.Core.Stringify
import CounterTerrorist.Foundations.Sha256
import CounterTerrorist.Mesh.Discovery

/-!
# `MeshGossipManager.broadcast`

A broadcast is dropped if the cache has met the digest of its text, and goes to every verified node
otherwise, in batches, each send through the breaker of its node and with retries.

The cache is a Bloom filter of 10000 bits that is never emptied. So it claims to know broadcasts
that it never met. A new broadcast is sent exactly if one of its four positions is new
(`broadcast_sends_iff`). With SHA-256, it takes one lockdown to have another one dropped, two thirds
of a second later (`lockdown_suppressed`). And no digest would help in the long run: of 10001
lockdowns one is dropped when it is made for the first time (`exists_lockdown_dropped`).

## The rest of the world

The digest is a parameter, so that the results do not depend on it. So is, for every send, what the
map of breakers holds when its turn comes and how the attempts end: broadcasts overlap, and nothing
is assumed on their order.
-/

namespace Mesh

open Core List Option BloomFilter Sha256

namespace MeshGossipManager

/-- `new BloomFilter(10000, 4)`. -/
def gossipCache : BloomFilter := .new 10000 4 (by decide)

/-- What a send finds. -/
structure Turn where
  /-- The breaker of the node, if it has one. -/
  found : Option CircuitBreaker
  now : ℤ
  /-- How the calls of `sendSync` end, by attempt. -/
  sendSync : ℕ → Except String JsTree
  settled : ℤ

/-- What came of a send. -/
structure Sent where
  /-- The position of the node among the verified ones. -/
  index : ℕ
  node : MeshNode
  /-- The payload that `sendSync` was called with, and how often. -/
  payload : JsTree
  calls : ℕ
  /-- The delay before the send. -/
  jitter : ℕ
  breaker : CircuitBreaker
  /-- What is logged. -/
  message : Option String

/-- The breaker of a node; a new one, if it has none. -/
def Turn.breaker (turn : Turn) : CircuitBreaker := turn.found.getD (.new 3 60000)

/-- The body of the loop over a batch. -/
def send (payload : JsTree) (priority : Bool) (index : ℕ) (node : MeshNode) (turn : Turn) : Sent :=
  let gossiped := retry (if priority then 3 else 1) turn.sendSync
  let gossipRes := turn.breaker.execute turn.now
    (.ok gossiped.1 : Except String (Except String JsTree)) turn.settled
  { index := index
    node := node
    payload := payload
    calls := if (turn.breaker.start turn.now).1 then gossiped.2 else 0
    jitter := if priority then 0 else index * 100
    breaker := gossipRes.2
    message := match gossipRes.1 with
      | .ok _ => none
      | .error e => some ("Gossip failure to " ++ node.hostname ++ ": " ++ e) }

/-- `MAX_GOSSIP_CONCURRENCY`. -/
def maxGossipConcurrency : ℕ := 16

/-- Slices of `MAX_GOSSIP_CONCURRENCY` nodes, with the position of their first node. -/
def batches (nodes : List MeshNode) : List (ℕ × List MeshNode) :=
  (List.range ((nodes.length + (maxGossipConcurrency - 1)) / maxGossipConcurrency)).map fun i ↦
    (i, (nodes.drop (i * maxGossipConcurrency)).take maxGossipConcurrency)

/-- The sends of all batches. -/
def sendAll (payload : JsTree) (priority : Bool) (nodes : List MeshNode) (turns : ℕ → Turn) :
    List Sent :=
  (batches nodes).flatMap fun (batchIndex, batch) ↦ batch.zipIdx.map fun (node, nodeIndex) ↦
    let index := batchIndex * maxGossipConcurrency + nodeIndex
    send payload priority index node (turns index)

variable (digest : String → String) (numbers : NumberText)

/-- `JSON.stringify(payload)`. -/
def text (payload : JsTree) : String := .ofList ((payload.stringify numbers).getD [])

/-- The digest that the cache is asked for. -/
def payloadHash (payload : JsTree) : String := digest (text numbers payload)

/-- `broadcast`: the cache afterwards, and the sends. -/
def broadcast (cache : BloomFilter) (payload : JsTree) (nodes : List MeshNode) (priority : Bool)
    (turns : ℕ → Turn) : BloomFilter × List Sent :=
  let hash := payloadHash digest numbers payload
  if cache.has hash then (cache, [])
  else
    let cache := cache.add hash
    let hops := hopsOf payload + 1
    if hops > 5 then (cache, [])
    else
      let verifiedNodes := nodes.filter (·.verified)
      (cache, sendAll (payload.set "hops" (.num hops)) priority verifiedNodes turns)

/-- A call of `broadcast`. -/
structure Call where
  payload : JsTree
  nodes : List MeshNode
  priority : Bool
  turns : ℕ → Turn

/-- The verified nodes of a call. -/
def Call.verified (call : Call) : List MeshNode := call.nodes.filter (·.verified)

/-- A call of `broadcast`, with the cache before and after. -/
def Call.run (cache : BloomFilter) (call : Call) : BloomFilter × List Sent :=
  broadcast digest numbers cache call.payload call.nodes call.priority call.turns

/-- The cache after some calls. -/
def cacheAfter (history : List Call) : BloomFilter :=
  history.foldl (fun cache call ↦ (call.run digest numbers cache).1) gossipCache

/-- `sendSync` was called at least once for every verified node whose breaker is closed. -/
def SentToAll (call : Call) (sends : List Sent) : Prop :=
  ∀ i node, call.verified[i]? = some node → (call.turns i).breaker.state = .closed →
    ∃ sent ∈ sends, sent.index = i ∧ sent.node = node ∧ 1 ≤ sent.calls

/-! ### Sends -/

section

variable {payload : JsTree} {priority : Bool} {index : ℕ} {node : MeshNode} {turn : Turn}

theorem start_of_closed {b : CircuitBreaker} (h : b.state = .closed) (now : ℤ) :
    b.start now = (true, b) := by
  rw [CircuitBreaker.start, h]
  rfl

/-- A closed breaker lets the send through. -/
theorem one_le_send_calls (h : turn.breaker.state = .closed) :
    1 ≤ (send payload priority index node turn).calls := by
  have hstart := start_of_closed h turn.now
  show 1 ≤ if (turn.breaker.start turn.now).1 then _ else 0
  rw [hstart]
  refine one_le_retry_calls ?_ _
  cases priority <;> decide

end

/-- Every node is in the batch of its position. -/
theorem mem_sendAll {payload : JsTree} {priority : Bool} {nodes : List MeshNode}
    {turns : ℕ → Turn} {i : ℕ} {node : MeshNode} (h : nodes[i]? = some node) :
    send payload priority i node (turns i) ∈ sendAll payload priority nodes turns := by
  have hlt : i < nodes.length := (List.getElem?_eq_some_iff.1 h).1
  have hidx : i / 16 * 16 + i % 16 = i := Nat.div_add_mod' i 16
  refine mem_flatMap.2 ⟨(i / 16, (nodes.drop (i / 16 * 16)).take 16), ?_, ?_⟩
  · refine List.mem_map.2 ⟨i / 16, mem_range.2 ?_, rfl⟩
    show i / 16 < (nodes.length + 15) / 16
    omega
  · refine List.mem_map.2 ⟨(node, i % 16), mem_zipIdx_iff_getElem?.2 ?_, ?_⟩
    · rw [getElem?_take_of_lt (Nat.mod_lt i (by decide)), getElem?_drop, hidx, h]
    · show send payload priority (i / 16 * 16 + i % 16) node (turns (i / 16 * 16 + i % 16)) = _
      rw [hidx]

/-! ### The cache -/

section

variable {digest numbers} {cache : BloomFilter} {call : Call} {history : List Call}

/-- The cache as a Bloom filter of 10000 positions, four for each digest. -/
structure IsGossipCache (cache : BloomFilter) : Prop where
  size : cache.size = 10000
  hashCount : cache.hashCount = 4

theorem run_of_has (h : cache.has (payloadHash digest numbers call.payload) = true) :
    call.run digest numbers cache = (cache, []) := if_pos h

/-- The sends of a call that is not dropped. -/
def Call.sends (call : Call) : List Sent :=
  ((gossip false call.payload).map fun payload ↦
    sendAll payload call.priority call.verified call.turns).getD []

theorem run_of_not_has (h : ¬cache.has (payloadHash digest numbers call.payload) = true) :
    call.run digest numbers cache =
      (cache.add (payloadHash digest numbers call.payload), call.sends) := by
  rw [Call.run, broadcast, if_neg h, Call.sends, gossip]
  by_cases hhops : hopsOf call.payload + 1 > 5 <;> simp [hhops, Call.verified]

/-- Broadcasts keep the shape of the cache. -/
theorem IsGossipCache.run (h : IsGossipCache cache) :
    IsGossipCache (call.run digest numbers cache).1 := by
  by_cases hhas : cache.has (payloadHash digest numbers call.payload) = true
  · rw [run_of_has hhas]
    exact h
  · rw [run_of_not_has hhas]
    exact ⟨h.size, h.hashCount⟩

/-- What a payload sets in the cache. -/
def positionsOf (digest : String → String) (numbers : NumberText) (payload : JsTree) : List ℕ :=
  BloomFilter.getHashes 10000 4 (payloadHash digest numbers payload)

theorem IsGossipCache.has_iff (h : IsGossipCache cache) (payload : JsTree) :
    cache.has (payloadHash digest numbers payload) = true ↔
      Bloom.Has (positionsOf digest numbers) cache.positions payload := by
  rw [BloomFilter.has_iff, h.size, h.hashCount]
  rfl

/-- A call adds its positions; if it is dropped, they are there already. -/
theorem IsGossipCache.positions_run (h : IsGossipCache cache) :
    (call.run digest numbers cache).1.positions =
      Bloom.add (positionsOf digest numbers) cache.positions call.payload := by
  by_cases hhas : cache.has (payloadHash digest numbers call.payload) = true
  · rw [run_of_has hhas, Bloom.add, Finset.union_eq_left.2]
    intro p hp
    exact (h.has_iff _).1 hhas p (List.mem_toFinset.1 hp)
  · rw [run_of_not_has hhas, positions_add, h.size, h.hashCount]
    rfl

theorem isGossipCache_cacheAfter (history : List Call) :
    IsGossipCache (cacheAfter digest numbers history) := by
  induction history using List.reverseRecOn with
  | nil => exact ⟨rfl, rfl⟩
  | append_singleton history call ih =>
    rw [cacheAfter, foldl_append]
    exact ih.run

theorem positions_cacheAfter (history : List Call) : (cacheAfter digest numbers history).positions =
      Bloom.after (positionsOf digest numbers) ∅ (history.map Call.payload) := by
  induction history using List.reverseRecOn with
  | nil => exact positions_new 10000 4 (by decide)
  | append_singleton history call ih =>
    rw [cacheAfter, foldl_append, map_append, Bloom.after, foldl_append]
    exact (isGossipCache_cacheAfter history).positions_run.trans (congrArg (Bloom.add _ · _) ih)

/-- The cache drops a payload exactly if its positions are covered by earlier ones. -/
theorem has_cacheAfter (history : List Call) (payload : JsTree) :
    (cacheAfter digest numbers history).has (payloadHash digest numbers payload) = true ↔
      ∀ p ∈ positionsOf digest numbers payload,
        ∃ earlier ∈ history, p ∈ positionsOf digest numbers earlier.payload := by
  rw [(isGossipCache_cacheAfter history).has_iff, positions_cacheAfter]
  refine forall₂_congr fun p _ ↦ ?_
  rw [Bloom.mem_after]
  simp

theorem sentToAll_sends (hhops : hopsOf call.payload < 5) : SentToAll call call.sends := by
  intro i node hnode hclosed
  have hgossip : gossip false call.payload =
      some (call.payload.set "hops" (.num (hopsOf call.payload + 1))) := by
    rw [gossip, if_neg Bool.false_ne_true, if_neg (by omega)]
  rw [Call.sends, hgossip]
  exact ⟨_, mem_sendAll hnode, rfl, rfl, one_le_send_calls hclosed⟩

end

/-- **When a broadcast is sent.** A broadcast with less than five hops reaches every verified node
with a closed breaker, if there is one, exactly if it has a position in the cache that no earlier
broadcast has. -/
theorem broadcast_sends_iff (history : List Call) (call : Call)
    (hhops : hopsOf call.payload < 5)
    (hopen : ∃ i node, call.verified[i]? = some node ∧ (call.turns i).breaker.state = .closed) :
    SentToAll call (call.run digest numbers (cacheAfter digest numbers history)).2 ↔
      ∃ p ∈ positionsOf digest numbers call.payload,
        ∀ earlier ∈ history, p ∉ positionsOf digest numbers earlier.payload := by
  by_cases hhas : (cacheAfter digest numbers history).has
      (payloadHash digest numbers call.payload) = true
  · rw [run_of_has hhas]
    obtain ⟨i, node, hnode, hclosed⟩ := hopen
    refine iff_of_false (fun hsent ↦ ?_) ?_
    · obtain ⟨sent, hmem, -⟩ := hsent i node hnode hclosed
      cases hmem
    · rintro ⟨p, hp, hnew⟩
      obtain ⟨earlier, hearlier, hmem⟩ := (has_cacheAfter history call.payload).1 hhas p hp
      exact hnew earlier hearlier hmem
  · rw [run_of_not_has hhas]
    refine iff_of_true (sentToAll_sends hhops) ?_
    rw [has_cacheAfter] at hhas
    simpa only [not_forall, not_exists, not_and, exists_prop] using hhas

/-! ### Lockdowns -/

/-- A verified node. -/
def peer : MeshNode := ⟨"node-b", "node-b", "10.0.0.2", 8443, 0, true⟩

/-- `broadcastLockdown` of `node-a` at some time, to a node that answers. -/
def lockdownAt (now : ℕ) : Call where
  payload := Broadcast.lockdown.payload "node-a" now
  nodes := [peer]
  priority := true
  turns _ := ⟨none, now, fun _ ↦ .ok .null, now⟩

/-- **At most once.** A payload whose text was broadcast before is not sent again, whatever was
broadcast in between. -/
theorem repeated_not_sent {history : List Call} {call earlier : Call} (hmem : earlier ∈ history)
    (htext : text numbers call.payload = text numbers earlier.payload) :
    call.run digest numbers (cacheAfter digest numbers history) =
      (cacheAfter digest numbers history, []) := by
  refine run_of_has ((has_cacheAfter history _).2 fun p hp ↦ ⟨earlier, hmem, ?_⟩)
  rwa [positionsOf, payloadHash, ← htext]

theorem repeated_not_sent_lockdown : (lockdownAt 0).run id decimal
    (cacheAfter id decimal [lockdownAt 0, lockdownAt 1]) =
      (cacheAfter id decimal [lockdownAt 0, lockdownAt 1], []) :=
  repeated_not_sent id decimal mem_cons_self rfl

/-- The text of a lockdown up to its time. -/
def lockdownHead : List Char :=
  '\x7b' :: (quote "type" ++ ':' :: quote "GOSSIP_LOCKDOWN" ++ ',' :: quote "data" ++ ':' ::
    '\x7b' :: quote "sourceNode" ++ ':' :: quote "node-a" ++ ',' :: quote "timestamp" ++ [':'])

theorem stringify_lockdownAt (now : ℕ) : (lockdownAt now).payload.stringify decimal =
    some (lockdownHead ++ (decimal.text now ++ ['\x7d', '\x7d'])) := by
  simp [lockdownAt, Broadcast.payload, Broadcast.data, Broadcast.marks, Broadcast.type,
    JsTree.stringify, JsTree.stringifyEntries, bracketed, fieldText, lockdownHead]

/-- Lockdowns at different times have different texts. -/
theorem text_lockdownAt {m n : ℕ} (h : text decimal (lockdownAt m).payload =
    text decimal (lockdownAt n).payload) : m = n := by
  rw [text, text, stringify_lockdownAt, stringify_lockdownAt, getD_some, getD_some,
    String.ofList_inj, append_cancel_left_eq, append_cancel_right_eq] at h
  exact Int.ofNat.inj (decimal.injective h)

/-- A second lockdown, a millisecond after the first one, is sent. -/
theorem broadcast_sends_iff_lockdown : SentToAll (lockdownAt 1)
    ((lockdownAt 1).run id decimal (cacheAfter id decimal [lockdownAt 0])).2 := by
  refine (broadcast_sends_iff id decimal [lockdownAt 0] (lockdownAt 1) (by decide)
    ⟨0, peer, rfl, rfl⟩).2 ?_
  simp only [positionsOf, getHashes, rolling, utf16, payloadHash, text, id, mem_singleton,
    forall_eq, stringify_lockdownAt, getD_some, String.toList_ofList]
  decide +kernel

/-- A lockdown that the cache claims to know is not sent. -/
theorem lockdown_dropped {digest : String → String} {history : List Call} {now : ℕ}
    (h : ∀ p ∈ positionsOf digest decimal (lockdownAt now).payload,
      ∃ earlier ∈ history, p ∈ positionsOf digest decimal earlier.payload) :
    ((lockdownAt now).run digest decimal (cacheAfter digest decimal history)).2 = [] := by
  rw [run_of_has ((has_cacheAfter history _).2 h)]

/-- **Saturation.** Whatever the digest is, there are lockdowns after which the next one, which has
a text of its own, is not sent. -/
theorem exists_lockdown_dropped (digest : String → String) : ∃ (times : List ℕ) (now : ℕ),
    (∀ time ∈ times,
      text decimal (lockdownAt time).payload ≠ text decimal (lockdownAt now).payload) ∧
    ((lockdownAt now).run digest decimal
      (cacheAfter digest decimal (times.map lockdownAt))).2 = [] := by
  let positions (now : ℕ) : List ℕ := positionsOf digest decimal (lockdownAt now).payload
  have hpos : ∀ now ∈ List.range 10001, ∀ p ∈ positions now, p ∈ Finset.range 10000 :=
    fun _ _ _ hp ↦ Finset.mem_range.2 (lt_of_mem_getHashes (by decide) hp)
  obtain ⟨before, now, rest, hrange, hfound⟩ :=
    Bloom.exists_found hpos (Finset.empty_subset _) (by simp)
  have hnew : now ∉ before := by
    have hnodup : (before ++ now :: rest).Nodup := hrange ▸ nodup_range
    exact fun hmem ↦ (nodup_append.1 hnodup).2.2 now hmem now mem_cons_self rfl
  refine ⟨before, now, fun time htime heq ↦ ?_, lockdown_dropped fun p hp ↦ ?_⟩
  · exact hnew (text_lockdownAt heq ▸ htime)
  · obtain hnone | ⟨earlier, hearlier, hmem⟩ := Bloom.mem_after.1 (hfound p hp)
    · cases hnone
    · exact ⟨lockdownAt earlier, List.mem_map_of_mem hearlier, hmem⟩

/-- A lockdown is dropped because there was one before it, with another text. -/
theorem lockdown_suppressed :
    let earlier := lockdownAt 1700000002131
    let later := lockdownAt 1700000002797
    text decimal earlier.payload ≠ text decimal later.payload ∧ hopsOf later.payload < 5 ∧
      (later.run hex decimal (cacheAfter hex decimal [earlier])).2 = [] ∧
      ¬SentToAll later (later.run hex decimal (cacheAfter hex decimal [earlier])).2 := by
  intro earlier later
  have hpositions : positionsOf hex decimal later.payload =
      (positionsOf hex decimal earlier.payload).reverse := by
    -- as lists of characters the texts can be hashed without decoding them first
    simp only [positionsOf, getHashes, rolling, utf16, payloadHash,
      hex, text, earlier, later, stringify_lockdownAt, getD_some,
      String.toList_ofList]
    decide +kernel
  have hdropped : (later.run hex decimal (cacheAfter hex decimal [earlier])).2 = [] := by
    refine lockdown_dropped fun p hp ↦ ⟨earlier, mem_singleton_self _, ?_⟩
    rw [hpositions] at hp
    exact mem_reverse.1 hp
  refine ⟨fun heq ↦ absurd (text_lockdownAt heq) (by decide), by decide, hdropped, ?_⟩
  rw [hdropped]
  intro hsent
  obtain ⟨sent, hmem, -⟩ := hsent 0 peer rfl rfl
  cases hmem

end MeshGossipManager

end Mesh
