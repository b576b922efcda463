import CounterTerrorist.Audit.Sync
import CounterTerrorist.Mesh.Handler
import Mathlib.Data.List.TakeWhile

/-!
# Catching up with another node

`reconcile` sends the last hash of its own ledger to another node, and hands the events that come
back to `syncEvents`. When the other node has nothing to offer after that hash, it is asked for its
latest events instead.

## What is offered

The other node reads its ledger newest first and collects what it meets after the given hash, so it
offers events *older* than that hash. Only if there are none, the requester is offered the latest
events, again newest first (`offered_eq`). `syncEvents` takes events that extend the chain in the
order of the list. So the requester gets everything it misses exactly when the missing events are
offered and were stamped in reverse (`WithinReach`, `reconcile_converges_iff`). If the clock grows
along the chain that means: the requester has at most one event, and it misses exactly one
(`withinReach_of_growing`).

## Proofs

A Merkle proof that comes with the events is never what stops the requester, as long as hashes are
not empty: `honest_proof_accepted_iff`.
-/

namespace Mesh

open Core Audit List AuditService AuditEvent HashChain

/-! ### The requester -/

/-- The first request of `reconcile`. -/
def catchUpRequest (nodeId lastHash : String) : JsTree :=
  .obj [("type", .str "MERKLE_CATCH_UP"), ("lastKnownHash", .str lastHash),
    ("nodeId", .str nodeId)]

/-- The second request, if the first one is answered with `full_sync_required`. -/
def fetchStateRequest (nodeId : String) : JsTree :=
  .obj [("type", .str "FETCH_STATE"), ("nodeId", .str nodeId)]

/-- The events that `reconcile` hands to `syncEvents`. `none` says that it gives up on the node: a
request failed, the proof was not accepted, or the answer was none that it knows. -/
def fetchEvents (p : Ports) (peer : AuditService) (first second : Exchange) (nodeId : String)
    (lastHash : String) : Option (List AuditEvent) :=
  match sendSync p peer first (catchUpRequest nodeId lastHash) with
  | some (.catchUp events proof) =>
    if proof.all fun q ↦ MerkleTree.verify p.hashPair q.root q.leaf (.nat q.index) q.proof then
      some events
    else none
  | some .fullSyncRequired =>
    match sendSync p peer second (fetchStateRequest nodeId) with
    | some (.snapshot kvSnapshot) => some kvSnapshot
    | _ => none
  | _ => none

/-- `reconcile` with one node, alone: from `s` to `t`, with these answers to the awaits of
`syncEvents`, none of which is a rejection. -/
structure Reconciles (p : Ports) (peer : AuditService) (first second : Exchange) (nodeId : String)
    (s : AuditService) (replies : List SyncReply) (t : AuditService) : Prop where
  /-- The events that were handed over are synced. -/
  run : ∀ events, fetchEvents p peer first second nodeId s.lastHash = some events →
    Machine.run (AuditService.step p) s (AuditService.syncCall s events replies) = some t
  /-- Without an answer nothing happens. -/
  skipped : fetchEvents p peer first second nodeId s.lastHash = none → t = s
  accepted : SyncReply.rejected ∉ replies
  ended : t.syncs = s.syncs

variable {p : Ports} {s t : AuditService} {first second : Exchange} {nodeId : String}

theorem Reconciles.of_run {peer : AuditService} {replies : List SyncReply}
    {events : List AuditEvent}
    (hfetch : fetchEvents p peer first second nodeId s.lastHash = some events)
    (hrun : Machine.run (step p) s (syncCall s events replies) = some t)
    (hacc : SyncReply.rejected ∉ replies) (hended : t.syncs = s.syncs) :
    Reconciles p peer first second nodeId s replies t where
  run events' hfetch' := by
    obtain rfl : events = events' := Option.some.inj (hfetch.symm.trans hfetch')
    exact hrun
  skipped hnone := by rw [hfetch] at hnone; cases hnone
  accepted := hacc
  ended := hended

/-! ### Honest ledgers -/

/-- The last hash of a chain. -/
def headHash (chain : List AuditEvent) : String :=
  HashChain.headOf AuditEvent.hash "GENESIS" chain

/-- A chain as one node logs it: every event carries its digest and names the one before it, no two
events are of the same millisecond, and no two digests collide with each other or with the two
reserved words. -/
structure HonestChain (p : Ports) (chain : List AuditEvent) : Prop where
  hashOk : ∀ e ∈ chain, p.HashOk e
  linked : HashChain.Linked AuditEvent.prevHash AuditEvent.hash (fun _ ↦ False) "GENESIS" chain
  times : (chain.map p.time).Nodup
  digests : ("TRUNCATED" :: "GENESIS" :: chain.map AuditEvent.hash).Nodup
  nonempty : ∀ e ∈ chain, e.hash ≠ ""

/-- The ledger of a node is exactly this chain, all of it stored. -/
structure HasChain (p : Ports) (s : AuditService) (chain : List AuditEvent) : Prop where
  lastHash : s.lastHash = headHash chain
  stored : ∀ kv, kv ∈ s.repo.items.entries ↔ kv ∈ p.keyed chain

namespace HonestChain

variable {p : Ports} {chain : List AuditEvent} {e e' : AuditEvent} {j : ℕ}

/-- The hash of an event is the last one of the chain up to it. -/
theorem headHash_succ (hj : chain[j]? = some e) : headHash (chain.take (j + 1)) = e.hash := by
  obtain ⟨hlt, rfl⟩ := List.getElem?_eq_some_iff.1 hj
  rw [headHash, take_succ_eq_append_getElem hlt, headOf_concat]

theorem drop_eq_cons (hj : chain[j]? = some e) : chain.drop j = e :: chain.drop (j + 1) := by
  obtain ⟨hlt, rfl⟩ := List.getElem?_eq_some_iff.1 hj
  exact drop_eq_getElem_cons hlt

section

variable (h : HonestChain p chain)
include h

theorem nodup : chain.Nodup := h.times.of_map

theorem nodup_keys : ((p.keyed chain).map Prod.fst).Nodup := by
  rw [Ports.keyed, map_map]
  refine Nodup.of_map (fun k ↦ (ofLex k).1) ?_
  rw [map_map]
  exact h.times

/-- A key belongs to one event. -/
theorem eq_of_key (he : e ∈ chain) (he' : e' ∈ chain) (hkey : p.key e = p.key e') : e = e' :=
  inj_on_of_nodup_map h.times he he' (congrArg (fun k ↦ (ofLex k).1) hkey)

theorem prevHash_ne (he : e ∈ chain) : e.prevHash ≠ "TRUNCATED" := by
  intro heq
  have hmem := h.linked.prev_mem he id
  rw [heq] at hmem
  exact (nodup_cons.1 h.digests).1 hmem

theorem digests' : ("GENESIS" :: chain.map hash).Nodup := (nodup_cons.1 h.digests).2

/-- Only the whole chain has its last hash. -/
theorem eq_length_of_headHash (hj : j ≤ chain.length)
    (heq : headHash (chain.take j) = headHash chain) : j = chain.length := by
  have hwhole : headHash chain = headHash (chain.take chain.length) := by rw [take_length]
  exact headOf_take_inj h.digests' hj le_rfl (heq.trans hwhole)

/-- Only the next event of the chain is accepted, whatever of the chain is sent. -/
theorem eq_next_of_accepts (he : e ∈ chain) (hj : j ≤ chain.length)
    (hacc : acceptsRemote p (headHash (chain.take j)) e.overJson = true) :
    chain[j]? = some e := by
  rcases (acceptsRemote_spec hacc).2 with ⟨hboundary, -⟩ | ⟨hprev, -⟩
  · rw [prevHash_overJson] at hboundary
    exact absurd hboundary (h.prevHash_ne he)
  · exact h.linked.getElem?_of_prev h.digests' he id hj hprev

/-- The next event is accepted, if JSON leaves it alone. -/
theorem accepts_next (hj : chain[j]? = some e) (hstab : e.overJson = e) :
    acceptsRemote p (headHash (chain.take j)) e.overJson = true := by
  have he : e ∈ chain := mem_of_getElem? hj
  have hlt : j < chain.length := (List.getElem?_eq_some_iff.1 hj).1
  have hprev : e.prevHash = headHash (chain.take j) := h.linked.prev_getElem? hj id
  have hne : e.hash ≠ headHash (chain.take j) := by
    rw [← headHash_succ hj]
    intro heq
    exact absurd (headOf_take_inj h.digests' hlt hlt.le heq) (Nat.succ_ne_self j)
  have hscreen : screen p e = .link := screen_eq_link.2 ⟨h.hashOk e he, h.prevHash_ne he⟩
  rw [hstab, acceptsRemote, hscreen, Bool.and_eq_true]
  exact ⟨bne_iff_ne.2 hne, beq_iff_eq.2 hprev⟩

variable {sent : List AuditEvent}

/-- Whatever of the chain is sent, a first part of the missing events is accepted, and these were
sent in the order of the chain. -/
theorem accepted_eq_take (hsent : ∀ e ∈ sent, e ∈ chain) (hj : j ≤ chain.length) :
    ∃ k, acceptedEvents p (headHash (chain.take j)) (sent.map overJson) =
        ((chain.drop j).take k).map overJson ∧
      ((chain.drop j).take k).Sublist sent := by
  induction sent generalizing j with
  | nil => exact ⟨0, rfl, Sublist.refl _⟩
  | cons e sent ih =>
    obtain ⟨he, hsent⟩ := forall_mem_cons.1 hsent
    rw [map_cons, acceptedEvents]
    by_cases hacc : acceptsRemote p (headHash (chain.take j)) e.overJson = true
    · have hnext := h.eq_next_of_accepts he hj hacc
      have hlt : j < chain.length := (List.getElem?_eq_some_iff.1 hnext).1
      obtain ⟨k, hk, hsub⟩ := ih hsent hlt
      refine ⟨k + 1, ?_, ?_⟩
      · rw [if_pos hacc, hash_overJson, ← headHash_succ hnext, hk, drop_eq_cons hnext]
        rfl
      · rw [drop_eq_cons hnext]
        exact hsub.cons_cons e
    · obtain ⟨k, hk, hsub⟩ := ih hsent hj
      exact ⟨k, by rw [if_neg hacc, hk], hsub.cons e⟩

/-- All missing events are accepted, if they are sent in the order of the chain and JSON leaves them
alone. -/
theorem accepted_eq_drop (hsent : ∀ e ∈ sent, e ∈ chain) (hj : j ≤ chain.length)
    (hstab : ∀ e ∈ chain.drop j, e.overJson = e) (hsublist : (chain.drop j).Sublist sent) :
    acceptedEvents p (headHash (chain.take j)) (sent.map overJson) = chain.drop j := by
  induction sent generalizing j with
  | nil =>
    rw [sublist_nil.1 hsublist]
    rfl
  | cons e sent ih =>
    obtain ⟨he, hsent⟩ := forall_mem_cons.1 hsent
    rw [map_cons, acceptedEvents]
    by_cases hnext : chain[j]? = some e
    · have hlt : j < chain.length := (List.getElem?_eq_some_iff.1 hnext).1
      have hdrop := drop_eq_cons hnext
      rw [hdrop, forall_mem_cons] at hstab
      rw [hdrop] at hsublist
      rw [if_pos (h.accepts_next hnext hstab.1), hash_overJson,
        ← headHash_succ hnext, hstab.1, hdrop, ih hsent hlt hstab.2 hsublist.of_cons_cons]
    · rw [if_neg fun hacc ↦ hnext (h.eq_next_of_accepts he hj hacc)]
      refine ih hsent hj hstab ?_
      -- the head of the list is not the next event, so it is none of the missing ones that match
      rcases sublist_cons_iff.1 hsublist with hsub | ⟨rest, hrest, -⟩
      · exact hsub
      · refine absurd ?_ hnext
        rw [← head?_drop, hrest, head?_cons]

end

end HonestChain

/-! ### What is offered -/

/-- `e` is newer than `f`. -/
def Newer (p : Ports) (e f : AuditEvent) : Prop := p.time f < p.time e

noncomputable instance (p : Ports) : DecidableRel (Newer p) :=
  fun e f ↦ inferInstanceAs (Decidable (p.time f < p.time e))

instance (p : Ports) : Std.Asymm (Newer p) := ⟨fun _ _ h ↦ lt_asymm (α := WithTop ℤ) h⟩

/-- `e` is older than the last of the first `m` events. -/
noncomputable def isOlder (p : Ports) (chain : List AuditEvent) (m : ℕ) (e : AuditEvent) : Bool :=
  (chain.take m).getLast?.any fun l ↦ decide (Newer p l e)

/-- `e` is on the side of the chain that is offered to a node with the first `m` events: the older
one, if there is anything on it. -/
noncomputable def inWindow (p : Ports) (chain : List AuditEvent) (m : ℕ) (e : AuditEvent) : Bool :=
  isOlder p chain m e || !chain.any (isOlder p chain m)

/-- The events that are offered to a node with the given last hash, from a ledger read newest
first. -/
def offered (lastHash : String) (newestFirst : List AuditEvent) : List AuditEvent :=
  let range := AuditService.afterHash lastHash newestFirst
  if range = [] then newestFirst.take 100 else range.take 100

namespace HonestChain

variable {p : Ports} {chain es : List AuditEvent} {m : ℕ}

/-- The ledger, read newest first: the times decrease. -/
structure NewestFirst (p : Ports) (chain es : List AuditEvent) : Prop where
  mem : ∀ {e}, e ∈ es ↔ e ∈ chain
  sorted : es.Pairwise (Newer p)

section

variable (h : HonestChain p chain)
include h

theorem newestFirst {r : KvAuditRepository}
    (hr : ∀ kv, kv ∈ r.items.entries ↔ kv ∈ p.keyed chain) :
    NewestFirst p chain r.items.values.reverse := by
  refine ⟨fun {e} ↦ ?_, ?_⟩
  · rw [mem_reverse, OrderedStore.values, mem_map]
    constructor
    · rintro ⟨kv, hkv, rfl⟩
      obtain ⟨f, hf, rfl⟩ := mem_map.1 ((hr kv).1 hkv)
      exact hf
    · intro he
      exact ⟨(p.key e, e), (hr _).2 (mem_map.2 ⟨e, he, rfl⟩), rfl⟩
  · rw [pairwise_reverse, OrderedStore.values, pairwise_map]
    refine r.items.sorted.imp_of_mem fun {a b} ha hb hlt ↦ ?_
    obtain ⟨e, he, rfl⟩ := mem_map.1 ((hr a).1 ha)
    obtain ⟨f, hf, rfl⟩ := mem_map.1 ((hr b).1 hb)
    rcases Prod.Lex.lt_iff.1 hlt with htime | ⟨htime, hid⟩
    · exact htime
    · -- two events of the same time are the same event, and then so are the ids
      obtain rfl := inj_on_of_nodup_map h.times he hf htime
      exact absurd hid (lt_irrefl _)

variable (hes : NewestFirst p chain es)
include hes

theorem newest_perm : es.Perm chain :=
  (perm_ext_iff_of_nodup hes.sorted.nodup h.nodup).2 fun _ ↦ hes.mem

/-- What follows the last hash of the requester, newest first, is what is older than its last
event. -/
theorem afterHash_newest : afterHash (headHash (chain.take m)) es =
    es.filter (isOlder p chain m) := by
  rcases eq_nil_or_concat (chain.take m) with hnil | ⟨init, l, hlast⟩
  · have hgenesis : headHash (chain.take m) = "GENESIS" := by rw [hnil]; rfl
    have hnone : es.dropWhile (fun e ↦ e.hash ≠ "GENESIS") = [] := by
      rw [dropWhile_eq_nil_iff]
      intro e he
      refine decide_eq_true fun heq ↦ (nodup_cons.1 h.digests').1 ?_
      exact heq ▸ mem_map_of_mem (hes.mem.1 he)
    rw [hgenesis, afterHash, hnone]
    simp [isOlder, hnil]
  · rw [concat_eq_append] at hlast
    have hhash : headHash (chain.take m) = l.hash := by
      rw [headHash, hlast, headOf_concat]
    have hl : l ∈ chain := mem_of_mem_take (hlast ▸ mem_append_right init (by simp))
    have holder : isOlder p chain m = fun e ↦ decide (Newer p l e) := by
      funext e
      rw [isOlder, hlast, getLast?_concat]
      rfl
    have hsplit := SortedList.eq_append_cons hes.sorted (hes.mem.2 hl)
    have hnewer : ∀ e ∈ es.filter (fun e ↦ Newer p e l),
        decide (e.hash ≠ l.hash) = true := by
      intro e he
      obtain ⟨hmem, hlater⟩ := mem_filter.1 he
      refine decide_eq_true fun heq ↦ ?_
      obtain rfl := inj_on_of_nodup_map (nodup_cons.1 h.digests').2 (hes.mem.1 hmem) hl heq
      exact irrefl e (of_decide_eq_true hlater)
    rw [hhash, holder, afterHash]
    conv_lhs => rw [hsplit]
    rw [dropWhile_append_of_pos hnewer, dropWhile_cons_of_neg (by simp)]
    rfl

/-- What is offered, by the times of the events. -/
theorem offered_eq : offered (headHash (chain.take m)) es =
    (es.filter (inWindow p chain m)).take 100 := by
  have hany : es.filter (isOlder p chain m) = [] ↔
      chain.any (isOlder p chain m) = false := by
    rw [filter_eq_nil_iff, any_eq_false]
    exact forall_congr' fun e ↦ imp_congr_left hes.mem
  rw [offered, afterHash_newest h hes]
  by_cases hnone : es.filter (isOlder p chain m) = []
  · have hall : es.filter (inWindow p chain m) = es :=
      filter_eq_self.2 fun e _ ↦ by rw [inWindow, hany.1 hnone, Bool.not_false, Bool.or_true]
    rw [if_pos hnone, hall]
  · have hsome : chain.any (isOlder p chain m) = true :=
      Bool.eq_true_of_not_eq_false fun hfalse ↦ hnone (hany.2 hfalse)
    have hwin : inWindow p chain m = isOlder p chain m := by
      funext e
      rw [inWindow, hsome, Bool.not_true, Bool.or_false]
    rw [if_neg hnone, hwin]

end

end HonestChain

/-! ### The exchange -/

/-- The node admits this request when it arrives. -/
def Exchange.Admits (x : Exchange) (payload : JsTree) : Prop :=
  ∀ w, (padded payload x.padding).overJson = some w → Admitted x.env w x.signature

/-- An admitted request is answered, unless it is about a threat hash. -/
theorem sendSync_eq {w : JsTree} (hadmits : x.Admits payload)
    (hw : (padded payload x.padding).overJson = some w)
    (htype : isType w "GOSSIP_THREAT_HASH" = false) :
    sendSync p audit x payload = some (answer p audit w).overJson := by
  have hadm : admission x.env w x.signature = .pass := hadmits w hw
  have hthreat : onThreatHash w = some [] := by simp [onThreatHash, htype]
  simp only [sendSync, hw, Option.bind_eq_bind, Option.bind_some, handler, hadm, hthreat]

section

variable {p : Ports} {peer : AuditService} {x : Exchange} {nodeId lastHash : String}

/-- The answer to the first request. -/
theorem sendSync_catchUpRequest (hadmits : x.Admits (catchUpRequest nodeId lastHash)) :
    sendSync p peer x (catchUpRequest nodeId lastHash) =
      some (catchUp p peer (catchUpRequest nodeId lastHash)).overJson := by
  rw [sendSync_eq hadmits rfl rfl]
  rfl

/-- The answer to the second one. -/
theorem sendSync_fetchStateRequest (hadmits : x.Admits (fetchStateRequest nodeId)) :
    sendSync p peer x (fetchStateRequest nodeId) =
      some (.snapshot ((peer.getRecentEvents 100).map overJson)) := by
  rw [sendSync_eq hadmits rfl rfl]
  rfl

end

/-- The events that `reconcile` is handed by a node that has the whole chain. -/
theorem fetchEvents_eq {lastHash : String} (hpair : ∀ a b, p.hashPair a b ≠ "")
    (h : HonestChain p chain) (hpeer : HasChain p peer chain) (hlen : chain.length ≤ 1000)
    (hne : lastHash ≠ peer.lastHash) (hfirst : first.Admits (catchUpRequest nodeId lastHash))
    (hsnd : second.Admits (fetchStateRequest nodeId)) :
    fetchEvents p peer first second nodeId lastHash =
      some ((offered lastHash peer.repo.items.values.reverse).map overJson) := by
  have hperm := h.newest_perm (h.newestFirst hpeer.stored)
  have hstr : peer.repo.getStream 1000 true = peer.repo.items.values.reverse :=
    take_of_length_le (hperm.length_eq.trans_le hlen)
  have hget : (catchUpRequest nodeId lastHash).get "lastKnownHash" = .str lastHash := rfl
  have hrange := peer.getEventsInRange_eq lastHash (by decide : 0 < 100)
  rw [hstr] at hrange
  rw [fetchEvents, sendSync_catchUpRequest hfirst, catchUp, hget, hrange, offered]
  rcases hlast : ((afterHash lastHash peer.repo.items.values.reverse).take 100).getLast? with - | l
  · -- nothing older: the latest events are fetched instead
    have hnil : afterHash lastHash peer.repo.items.values.reverse = [] := by
      simpa using getLast?_eq_none_iff.1 hlast
    have hdiffers : (JsTree.str lastHash).isStr peer.lastHash = false := beq_eq_false_iff_ne.2 hne
    simp only [hdiffers, sendSync_fetchStateRequest hsnd, if_pos hnil]
    rfl
  · have hmem := mem_of_getLast? hlast
    have hl : l ∈ peer.repo.items.values.reverse :=
      (dropWhile_sublist _).subset (mem_of_mem_drop (mem_of_mem_take hmem))
    have hne' : afterHash lastHash peer.repo.items.values.reverse ≠ [] := by
      intro hnil
      rw [hnil] at hmem
      cases hmem
    have hrecent : l ∈ peer.getRecentEvents 1000 := by
      rw [getRecentEvents, TimelineRepository.getLatest, hstr]
      exact hl
    obtain ⟨proof, hproof, hver⟩ := merkleProof_verifies hpair hrecent
      (h.nonempty l (hperm.subset hl))
    have hgetProof : peer.getMerkleProof p l.hash = some proof := hproof
    simp only [Body.overJson, hgetProof, Option.all_some, hver, if_true, if_neg hne']

/-! ### When the requester gets everything -/

/-- The missing events are within reach of a node with the first `m` events of the chain: they were
stamped in reverse, they are on the side of the chain that is offered and among the 100 newest
there, and JSON leaves them alone. -/
structure WithinReach (p : Ports) (chain : List AuditEvent) (m : ℕ) : Prop where
  reversed : (chain.drop m).Pairwise (Newer p)
  inWindow : ∀ e ∈ chain.drop m, inWindow p chain m e = true
  room : ∀ e ∈ chain.drop m,
    (chain.filter fun f ↦ Mesh.inWindow p chain m f && decide (Newer p f e)).length < 100
  unchanged : ∀ e ∈ chain.drop m, e.overJson = e

/-- The missing events are offered in the order of the chain exactly if they are within reach. -/
theorem HonestChain.drop_sublist_offered_iff {es : List AuditEvent} (h : HonestChain p chain)
    (hes : NewestFirst p chain es) :
    ((∀ e ∈ chain.drop m, e.overJson = e) ∧
      (chain.drop m).Sublist (offered (headHash (chain.take m)) es)) ↔
      WithinReach p chain m := by
  have hsort := hes.sorted.filter (inWindow p chain m)
  have hcnt (e : AuditEvent) :
      ((es.filter (inWindow p chain m)).filter fun f ↦ Newer p f e).length =
        (chain.filter fun f ↦ inWindow p chain m f && decide (Newer p f e)).length := by
    rw [filter_filter]
    refine (((h.newest_perm hes).filter _).length_eq).trans (congrArg List.length ?_)
    exact filter_congr fun f _ ↦ Bool.and_comm ..
  rw [h.offered_eq hes, SortedList.sublist_iff (hsort.sublist (take_sublist _ _))]
  constructor
  · rintro ⟨hsame, hrev, hmem⟩
    have hwin (e) (he : e ∈ chain.drop m) := mem_of_mem_take (hmem e he)
    refine ⟨hrev, fun e he ↦ (mem_filter.1 (hwin e he)).2, fun e he ↦ ?_, hsame⟩
    rw [← hcnt]
    exact (SortedList.mem_take_iff hsort (hwin e he)).1 (hmem e he)
  · intro hreach
    refine ⟨hreach.unchanged, hreach.reversed, fun e he ↦ ?_⟩
    have hwin : e ∈ es.filter (inWindow p chain m) :=
      mem_filter.2 ⟨hes.mem.2 (mem_of_mem_drop he), hreach.inWindow e he⟩
    refine (SortedList.mem_take_iff hsort hwin).2 ?_
    rw [hcnt]
    exact hreach.room e he

/-- What is stored after some of the missing events have been saved. -/
theorem HonestChain.stored_iff (h : HonestChain p chain) (hs : HasChain p s (chain.take m))
    {missing : List AuditEvent} (hmissing : missing.Sublist (chain.drop m))
    (hsaved : Saved p s t (missing.map overJson))
    (kv : TimelineKey × AuditEvent) :
    kv ∈ t.repo.items.entries ↔
      kv ∈ p.keyed (missing.map overJson) ∨ kv ∈ p.keyed (chain.take m) := by
  have hkeys : (p.keyed (missing.map overJson)).map Prod.fst = missing.map p.key := by
    simp [Ports.keyed]
  have hnodup : (chain.map p.key).Nodup := by
    have := h.nodup_keys
    rwa [Ports.keyed, map_map] at this
  rw [← chain.take_append_drop m, map_append, nodup_append] at hnodup
  obtain ⟨-, hdrop, hdisj⟩ := hnodup
  rw [hsaved.repo, p.items_foldl_save, ← hs.stored kv]
  refine OrderedStore.mem_setAll_of_fresh ?_ fun k hk hstored ↦ ?_
  · rw [hkeys]
    exact hdrop.sublist (hmissing.map p.key)
  · rw [hkeys] at hk
    obtain ⟨kv', hkv', rfl⟩ := mem_map.1 hstored
    obtain ⟨e, he, rfl⟩ := mem_map.1 ((hs.stored kv').1 hkv')
    exact hdisj _ (mem_map_of_mem he) _ ((hmissing.map p.key).subset hk) rfl

theorem headOf_overJson (lastHash : String) (es : List AuditEvent) :
    headOf hash lastHash (es.map overJson) = headOf hash lastHash es := by
  rw [headOf, foldl_map]
  rfl

/-- Saving what is accepted of some events of the chain completes it exactly if all missing ones are
among them, in order, and JSON leaves these alone. -/
theorem HonestChain.hasChain_iff {chain sent : List AuditEvent} {m : ℕ} (h : HonestChain p chain)
    (hm : m ≤ chain.length) (hs : HasChain p s (chain.take m)) (hsent : ∀ e ∈ sent, e ∈ chain)
    (hsaved : Saved p s t (acceptedEvents p (headHash (chain.take m)) (sent.map overJson))) :
    HasChain p t chain ↔ (∀ e ∈ chain.drop m, e.overJson = e) ∧ (chain.drop m).Sublist sent := by
  constructor
  · intro ht
    obtain ⟨k, hacc, hsub⟩ := h.accepted_eq_take hsent hm
    rw [hacc] at hsaved
    have hlast : headHash (chain.take (m + k)) = headHash chain := by
      rw [← ht.lastHash, hsaved.lastHash, headOf_overJson, hs.lastHash, headHash, headHash,
        ← headOf_append, take_add]
    have hall : (chain.drop m).take k = chain.drop m := by
      refine take_of_length_le ?_
      rw [length_drop]
      by_contra hshort
      have := h.eq_length_of_headHash (by omega) hlast
      omega
    rw [hall] at hsaved hsub
    refine ⟨fun e he ↦ ?_, hsub⟩
    -- the saved copy is stored under the key of `e`, where the chain has `e`
    have hcopy : (p.key e, e.overJson) ∈ t.repo.items.entries :=
      (h.stored_iff hs (Sublist.refl _) hsaved _).2
        (.inl (mem_map.2 ⟨e.overJson, mem_map_of_mem he, rfl⟩))
    obtain ⟨f, hf, heq⟩ := mem_map.1 ((ht.stored _).1 hcopy)
    obtain ⟨hkey, rfl⟩ := Prod.mk.inj heq
    exact h.eq_of_key hf (mem_of_mem_drop he) hkey
  · rintro ⟨hsame, hsub⟩
    have hcopies : (chain.drop m).map overJson = chain.drop m :=
      (map_congr_left hsame).trans (map_id _)
    rw [h.accepted_eq_drop hsent hm hsame hsub] at hsaved
    refine ⟨?_, fun kv ↦ ?_⟩
    · rw [hsaved.lastHash, hs.lastHash, headHash, ← headOf_append, take_append_drop]
      rfl
    · have hstored := h.stored_iff hs (Sublist.refl _) (hcopies.symm ▸ hsaved) kv
      rw [hstored, hcopies, or_comm, ← mem_append, Ports.keyed, Ports.keyed,
        ← map_append, take_append_drop]
      rfl

/-- Along a chain whose clock grows nothing but earlier events are offered to a node with two events
or more. -/
theorem not_inWindow_of_growing (hgrow : chain.Pairwise fun e f ↦ p.time e < p.time f)
    (htwo : 2 ≤ m) (hm : m < chain.length) : inWindow p chain m chain[m] = false := by
  rw [pairwise_iff_getElem] at hgrow
  have hlast : (chain.take m).getLast? = some chain[m - 1] := by
    rw [getLast?_take, if_neg (by omega), getElem?_eq_getElem (by omega), Option.some_or]
  have hfirst : isOlder p chain m chain[0] = true := by
    rw [isOlder, hlast]
    exact decide_eq_true (hgrow 0 (m - 1) (by omega) (by omega) (by omega))
  have hnext : isOlder p chain m chain[m] = false := by
    rw [isOlder, hlast]
    exact decide_eq_false (lt_asymm (hgrow (m - 1) m (by omega) hm (by omega)))
  rw [inWindow, hnext, any_eq_true.2 ⟨_, getElem_mem _, hfirst⟩]
  rfl

/-- Nothing is older than the first event. -/
theorem isOlder_eq_false {e : AuditEvent}
    (hgrow : chain.Pairwise fun e f ↦ p.time e < p.time f) (hone : m ≤ 1) (he : e ∈ chain) :
    isOlder p chain m e = false := by
  rcases chain with - | ⟨a, rest⟩
  · cases he
  rcases Nat.le_one_iff_eq_zero_or_eq_one.1 hone with rfl | rfl
  · rfl
  · refine decide_eq_false (p := Newer p a e) fun holder ↦ ?_
    rcases mem_cons.1 he with rfl | he
    · exact irrefl e holder
    · exact lt_asymm holder (rel_of_pairwise_cons hgrow he)

/-- Along a chain whose clock grows, the missing events are within reach only of a node with at most
one event that misses one event. -/
theorem withinReach_of_growing (hm : m < chain.length)
    (hgrow : chain.Pairwise fun e f ↦ p.time e < p.time f) :
    WithinReach p chain m ↔ m ≤ 1 ∧ chain.length = m + 1 ∧ ∀ e ∈ chain.drop m, e.overJson = e := by
  constructor
  · intro hreach
    refine ⟨?_, ?_, hreach.unchanged⟩
    · by_contra htwo
      have hwin := hreach.inWindow chain[m] (by
        rw [drop_eq_getElem_cons hm]
        exact mem_cons_self)
      rw [not_inWindow_of_growing hgrow (by omega) hm] at hwin
      cases hwin
    · -- two missing events would be stamped in both orders
      by_contra hmore
      have hsnd : m + 1 < chain.length := by omega
      have hrev := hreach.reversed
      rw [drop_eq_getElem_cons hm, drop_eq_getElem_cons hsnd] at hrev
      have hnewer : p.time chain[m + 1] < p.time chain[m] :=
        rel_of_pairwise_cons hrev mem_cons_self
      exact lt_asymm hnewer (pairwise_iff_getElem.1 hgrow m (m + 1) hm hsnd (by omega))
  · rintro ⟨hone, hlen, hsame⟩
    have hnone : chain.any (isOlder p chain m) = false := by
      rw [any_eq_false]
      exact fun e he ↦ by simp [isOlder_eq_false hgrow hone he]
    refine ⟨?_, fun e _ ↦ by rw [inWindow, hnone, Bool.not_false, Bool.or_true], fun e _ ↦ ?_,
      hsame⟩
    · rw [drop_eq_getElem_cons hm, drop_of_length_le (by omega)]
      exact pairwise_singleton _ _
    · have := length_filter_le (fun f ↦ inWindow p chain m f && decide (Newer p f e)) chain
      omega

/-! ### Sample values -/

/-- The service of a node that has just loaded a chain. -/
def loaded (p : Ports) (chain : List AuditEvent) : AuditService :=
  .start (headHash chain) (chain.foldl p.save .empty)

/-- What a chain begins with is a chain. -/
theorem HonestChain.take (h : HonestChain p chain) (m : ℕ) : HonestChain p (chain.take m) := by
  have hsub : (chain.take m).Sublist chain := take_sublist m chain
  refine ⟨fun e he ↦ h.hashOk e (hsub.subset he), ?_, h.times.sublist (hsub.map _),
    h.digests.sublist (((hsub.map _).cons_cons _).cons_cons _),
    fun e he ↦ h.nonempty e (hsub.subset he)⟩
  have hlink := h.linked
  rw [← chain.take_append_drop m, linked_append] at hlink
  exact hlink.1

theorem HonestChain.hasChain_loaded (h : HonestChain p chain) :
    HasChain p (loaded p chain) chain := by
  refine ⟨rfl, fun kv ↦ ?_⟩
  show kv ∈ (chain.foldl p.save .empty).items.entries ↔ _
  rw [p.items_foldl_save, OrderedStore.mem_setAll_of_fresh h.nodup_keys fun _ _ ↦ not_mem_nil]
  simp [TimelineRepository.empty]

/-- Ports whose hash of two texts is never empty. -/
def pairingPorts : Ports := { AuditService.joiningPorts with hashPair := fun a b ↦ "h" ++ (a ++ b) }

theorem hashPair_pairingPorts (a b : String) : pairingPorts.hashPair a b ≠ "" := by
  simp [pairingPorts]

/-- An event of a given millisecond. -/
def stamped (ms : ℤ) (id prevHash : String) : AuditEvent :=
  { AuditService.remoteEvent id "" prevHash with timestamp := .iso ms }

/-- A chain of three events, one a millisecond. -/
def threeEvents : List AuditEvent :=
  [stamped 1 "a" "GENESIS", stamped 2 "b" "a", stamped 3 "c" "b"]

theorem honestChain_threeEvents : HonestChain pairingPorts threeEvents where
  hashOk := (by decide : ∀ e ∈ threeEvents, e.hash = pairingPorts.computeHash e.hashInput)
  linked := ⟨.inl rfl, .inl rfl, .inl rfl, trivial⟩
  times := by decide
  digests := by decide
  nonempty := by decide

/-- A signed request to a node that accepts it. -/
def trusted : Exchange := ⟨trustingEnv (stamped 1 "a" "GENESIS"), some "sig", "pad"⟩

theorem trusted_admits_catchUp (nodeId lastHash : String) :
    trusted.Admits (catchUpRequest nodeId lastHash) := by
  intro w hw
  obtain rfl := Option.some.inj hw
  rfl

theorem trusted_admits_fetchState (nodeId : String) :
    trusted.Admits (fetchStateRequest nodeId) := by
  intro w hw
  obtain rfl := Option.some.inj hw
  rfl

/-! ### Reconciling -/

/-- A node with the first `m` events of an honest chain reconciles with a node that has all of them,
both requests being admitted and nothing else going on. `reconcile` can be brought to its end; and
however it is, the requester has the whole chain afterwards if and only if what it missed was within
reach. -/
theorem reconcile_converges_iff {p : Ports} {chain : List AuditEvent} {m : ℕ}
    {s peer : AuditService} {first second : Exchange} {nodeId : String}
    (hpair : ∀ a b, p.hashPair a b ≠ "") (h : HonestChain p chain) (hm : m < chain.length)
    (hlength : chain.length ≤ 1000) (hpeer : HasChain p peer chain)
    (hs : HasChain p s (chain.take m)) (hfirst : first.Admits (catchUpRequest nodeId s.lastHash))
    (hsecond : second.Admits (fetchStateRequest nodeId)) :
    (∃ replies t, Reconciles p peer first second nodeId s replies t) ∧
      ∀ replies t, Reconciles p peer first second nodeId s replies t →
        (HasChain p t chain ↔ WithinReach p chain m) := by
  have hne : s.lastHash ≠ peer.lastHash := by
    rw [hs.lastHash, hpeer.lastHash]
    exact fun heq ↦ hm.ne (h.eq_length_of_headHash hm.le heq)
  have hfetch := fetchEvents_eq hpair h hpeer hlength hne hfirst hsecond
  have hes := h.newestFirst hpeer.stored
  have hoffered : ∀ e ∈ offered (headHash (chain.take m)) peer.repo.items.values.reverse,
      e ∈ chain := by
    intro e he
    rw [h.offered_eq hes] at he
    exact hes.mem.1 (mem_of_mem_filter (mem_of_mem_take he))
  refine ⟨?_, fun replies t hreconciles ↦ ?_⟩
  · obtain ⟨replies, t, haccepted, hended, hrun⟩ := exists_syncCall p s
      ((offered s.lastHash peer.repo.items.values.reverse).map overJson)
    exact ⟨replies, t, .of_run hfetch hrun haccepted hended⟩
  · obtain ⟨saved, hsaved, -, hall⟩ := syncCall_saved (hreconciles.run _ hfetch)
    rw [hall hreconciles.accepted hreconciles.ended, hs.lastHash] at hsaved
    rw [← h.drop_sublist_offered_iff hes]
    exact h.hasChain_iff hm.le hs hoffered hsaved

/-- Of two events the second one is missing: it arrives. -/
theorem reconcile_converges_iff_second :
    ∃ replies t, Reconciles pairingPorts (loaded pairingPorts (threeEvents.take 2)) trusted trusted
        "n1" (loaded pairingPorts (threeEvents.take 1)) replies t ∧
      HasChain pairingPorts t (threeEvents.take 2) := by
  have hchain := honestChain_threeEvents.take 2
  obtain ⟨⟨replies, t, hreconciles⟩, hiff⟩ := reconcile_converges_iff (m := 1)
    hashPair_pairingPorts hchain (by decide) (by decide) hchain.hasChain_loaded
    (hchain.take 1).hasChain_loaded (trusted_admits_catchUp "n1" _) (trusted_admits_fetchState "n1")
  refine ⟨replies, t, hreconciles, (hiff replies t hreconciles).2 ?_⟩
  refine (withinReach_of_growing (by decide) (by decide)).2 ⟨le_rfl, rfl, fun e he ↦ ?_⟩
  obtain rfl := mem_singleton.1 he
  rfl

/-- Of three events the third one is missing: the oldest one is offered instead, and the requester
has what it had before. -/
theorem reconcile_leaves_gap :
    HonestChain pairingPorts threeEvents ∧
      HasChain pairingPorts (loaded pairingPorts threeEvents) threeEvents ∧
      HasChain pairingPorts (loaded pairingPorts (threeEvents.take 2)) (threeEvents.take 2) ∧
      ∃ replies t, Reconciles pairingPorts (loaded pairingPorts threeEvents) trusted trusted "n1"
          (loaded pairingPorts (threeEvents.take 2)) replies t ∧
        t.lastHash = "b" ∧ ¬HasChain pairingPorts t threeEvents := by
  have hchain := honestChain_threeEvents
  have hoffered : fetchEvents pairingPorts (loaded pairingPorts threeEvents) trusted trusted "n1"
      "b" = some [stamped 1 "a" "GENESIS"] := rfl
  have hrun : (Machine.run (step pairingPorts) (loaded pairingPorts (threeEvents.take 2)) (syncCall
        (loaded pairingPorts (threeEvents.take 2)) [stamped 1 "a" "GENESIS"] [.hashed])).map
      (fun t ↦ (t.syncs.isEmpty, t.lastHash)) = some (true, "b") := by decide
  obtain ⟨t, ht, hend⟩ := Option.map_eq_some_iff.1 hrun
  obtain ⟨hended, hlast⟩ := Prod.mk.inj hend
  refine ⟨hchain, hchain.hasChain_loaded, (hchain.take 2).hasChain_loaded, [.hashed], t,
    .of_run hoffered ht (by decide) (List.isEmpty_iff.1 hended), hlast, fun hwhole ↦ ?_⟩
  have heq : "b" = headHash threeEvents := hlast.symm.trans hwhole.lastHash
  revert heq
  decide

/-! ### Proofs on the way -/

/-- The checks refuse with a status of their own. -/
theorem status_of_refuse {env : HandlerEnv} {signature : Option String} {reply : Reply}
    (h : admission env payload signature = .refuse reply) : reply.status ≠ 200 := by
  unfold admission at h
  split_ifs at h <;> cases h <;> dsimp only <;> decide

/-- What a node answers with status 200 was put together by `answer`. -/
theorem exists_answer_of_sendSync {body : Body} (h : sendSync p audit x payload = some body) :
    ∃ w, body = (answer p audit w).overJson := by
  obtain ⟨w, -, hreply⟩ := Option.bind_eq_some_iff.1 h
  refine ⟨w, ?_⟩
  split at hreply
  case h_2 => cases hreply
  case h_1 inner hinner =>
    obtain rfl := Option.some.inj hreply
    unfold handler at hinner
    split at hinner
    case h_1 reply hrefuse =>
      obtain rfl := Option.some.inj hinner
      exact absurd rfl (status_of_refuse hrefuse)
    case h_2 => cases hinner
    case h_3 =>
      split at hinner
      · cases hinner
      · cases hinner
        rfl

/-- A proof in an answer was made by `getMerkleProof`. -/
theorem merkleProof_of_sendSync {q : MerkleProof}
    (h : sendSync p peer x payload = some (.catchUp events (some q))) :
    ∃ eventHash, p.merkleProof eventHash (peer.getRecentEvents 1000) = some q := by
  obtain ⟨w, hbody⟩ := exists_answer_of_sendSync h
  unfold answer catchUp at hbody
  split at hbody
  case isTrue =>
    dsimp only at hbody
    split at hbody
    case h_1 lastEvent hlast =>
      injection hbody with hevs hproof
      exact ⟨lastEvent.hash, hproof.symm⟩
    case h_2 =>
      split at hbody
      · cases hbody
      · injection hbody with hevs hproof
        cases hproof
  case isFalse =>
    split at hbody <;> cases hbody

/-- **Honest proofs are accepted**, unless the top node of the tree is the empty string. This is so
of `verify`, for every list of leaves and every hash of pairs; of what `getMerkleProof` returns; and
of `reconcile`, which then goes on with the events that the proof came with. -/
theorem honest_proof_accepted_iff :
    (∀ (hashPair : String → String → String) (leaves : List String) (i : ℕ) (leaf : String),
      leaves[i]? = some leaf →
      (MerkleTree.verify hashPair (MerkleTree.getRoot hashPair leaves) leaf (.nat i)
          (MerkleTree.getProof hashPair leaves i) = true ↔
        (MerkleTree.buildTree hashPair leaves).getLast? ≠ some [""])) ∧
    (∀ (p : Ports) (eventHash : String) (recent : List AuditEvent) (q : MerkleProof),
      p.merkleProof eventHash recent = some q →
      (MerkleTree.verify p.hashPair q.root q.leaf (.nat q.index) q.proof = true ↔
        (MerkleTree.buildTree p.hashPair (recent.map AuditEvent.hash).reverse).getLast? ≠
          some [""])) ∧
    ∀ (p : Ports) (peer : AuditService) (first second : Exchange) (nodeId lastHash : String)
      (events : List AuditEvent) (proof : Option MerkleProof),
      (MerkleTree.buildTree p.hashPair
        ((peer.getRecentEvents 1000).map AuditEvent.hash).reverse).getLast? ≠ some [""] →
      sendSync p peer first (catchUpRequest nodeId lastHash) = some (.catchUp events proof) →
      fetchEvents p peer first second nodeId lastHash = some events := by
  refine ⟨fun hashPair leaves i leaf ↦ MerkleTree.verify_getProof_iff hashPair,
    fun p eventHash recent q ↦ merkleProof_verifies_iff, ?_⟩
  intro p peer first second nodeId lastHash events proof htop hsend
  have haccepted : (proof.all fun q ↦
      MerkleTree.verify p.hashPair q.root q.leaf (.nat q.index) q.proof) = true := by
    rw [Option.all_eq_true]
    rintro q rfl
    obtain ⟨eventHash, hq⟩ := merkleProof_of_sendSync hsend
    exact (merkleProof_verifies_iff hq).2 htop
  rw [fetchEvents, hsend]
  exact if_pos haccepted

/-- The middle one of three hashes. -/
theorem honest_proof_accepted_iff_middle :
    MerkleTree.verify pairingPorts.hashPair
        (MerkleTree.getRoot pairingPorts.hashPair ["a", "b", "c"]) "b" (.nat 1)
        (MerkleTree.getProof pairingPorts.hashPair ["a", "b", "c"] 1) = true :=
  (honest_proof_accepted_iff.1 pairingPorts.hashPair ["a", "b", "c"] 1 "b" rfl).2 (by decide)

/-- The only leaf is the empty string: the root is reported as `EMPTY`, and the proof refused. -/
theorem empty_leaf_refused :
    MerkleTree.verify pairingPorts.hashPair (MerkleTree.getRoot pairingPorts.hashPair [""]) ""
      (.nat 0) (MerkleTree.getProof pairingPorts.hashPair [""] 0) = false := by
  decide

end Mesh
