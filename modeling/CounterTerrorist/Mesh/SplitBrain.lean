import CounterTerrorist.Foundations.Quorum
import CounterTerrorist.Mesh.Discovery

/-!
# Quorums and split brains

How many nodes have to agree is computed in two places: for a command that needs a quorum, and for
the audit root that a node takes over when the mesh has split. The formulas are written differently.
From three nodes on they agree (`quorumThreshold_eq`), and two quorums have a node in common.

A node that resolves a split asks every verified peer for its root, counts the answers in a map, and
takes the first root of the map with enough votes; its own head is one vote. The map is in the order
of the answers. But no two roots can have enough votes, so the order of the peers makes no
difference (`quorums_intersect`), as long as the head of the node does not change meanwhile.
-/

namespace Mesh

open Core

/-! ### Thresholds -/

/-- The threshold of `requestQuorumCommand` for `N` nodes. -/
def quorumThreshold (allowSmallQuorum : Bool) (N : ℕ) : ℕ :=
  if N = 2 ∧ allowSmallQuorum = true then 1
  else if 4 ≤ N then 2 * N / 3 + 1
  else N / 2 + 1

/-- The threshold of `resolveSplitBrain` for `N` nodes. -/
def splitBrainThreshold (N : ℕ) : ℕ := if 4 ≤ N then 2 * N / 3 + 1 else N / 2 + 1

variable {N : ℕ}

theorem quorumThreshold_eq {allowSmallQuorum : Bool}
    (h : 3 ≤ N ∨ N = 2 ∧ allowSmallQuorum = false) :
    quorumThreshold allowSmallQuorum N = splitBrainThreshold N := by
  rw [quorumThreshold, splitBrainThreshold, if_neg]
  rintro ⟨rfl, hsmall⟩
  rcases h with h | ⟨-, hoff⟩
  · omega
  · rw [hsmall] at hoff
    cases hoff

/-- A quorum is more than half of the nodes. -/
theorem lt_two_mul_threshold (N : ℕ) : N < 2 * splitBrainThreshold N := by
  rw [splitBrainThreshold]
  split <;> omega

/-- From four nodes on it is more than two thirds. -/
theorem lt_three_mul_threshold (h : 4 ≤ N) : 2 * N < 3 * splitBrainThreshold N := by
  rw [splitBrainThreshold, if_pos h]
  omega

/-! ### Resolving a split -/

/-- What a peer answers to `GET_AUDIT_STATUS`, as far as it is looked at; `none` is a failure. -/
def reportedRoot (reply : Option JsTree) : Option String :=
  match reply with
  | some res =>
    match res.get "lastHash" with
    | .str root => some root
    | _ => none
  | none => none

/-- `roots`: the votes of the peers, in the order in which they are asked. -/
def roots (peers : List MeshNode) (reply : MeshNode → Option JsTree) : InsertionMap String ℕ :=
  Tally.tally (peers.filterMap fun node ↦ reportedRoot (reply node))

/-- `totalVotes`. -/
def totalVotes (selfHash : String) (root : String) (votes : ℕ) : ℕ :=
  votes + if root = selfHash then 1 else 0

/-- The loop that looks for the majority. The head is asked for again for every root. -/
def findMajority (threshold : ℕ) (selfHash : ℕ → String) : List (String × ℕ) → String
  | [] => ""
  | (root, votes) :: rest =>
    if threshold ≤ totalVotes (selfHash 0) root votes then root
    else findMajority threshold (fun n ↦ selfHash (n + 1)) rest

/-- `majorityRoot`, for verified peers. -/
def majorityRoot (peers : List MeshNode) (reply : MeshNode → Option JsTree)
    (selfHash : ℕ → String) : String :=
  findMajority (splitBrainThreshold (peers.length + 1)) selfHash (roots peers reply).entries

/-- `resolveSplitBrain`: the node whose ledger is asked for, if any. The peers are asked twice, and
the head is asked for once more in between. -/
def resolveSplitBrain (nodes : List MeshNode) (first second : MeshNode → Option JsTree)
    (selfHash : ℕ → String) (lastHash : String) : Option String :=
  let verifiedNodes := nodes.filter (·.verified)
  if verifiedNodes = [] then none
  else
    let majority := majorityRoot verifiedNodes first selfHash
    if majority ≠ "" ∧ majority ≠ lastHash then
      (verifiedNodes.find? fun node ↦ reportedRoot (second node) = some majority).map (·.id)
    else none

/-! ### One majority -/

/-- The loop, when the head stays the same. -/
theorem findMajority_const (threshold : ℕ) (head : String) (entries : List (String × ℕ)) :
    findMajority threshold (fun _ ↦ head) entries =
      ((entries.find? fun e ↦ threshold ≤ totalVotes head e.1 e.2).map Prod.fst).getD "" := by
  induction entries with
  | nil => rfl
  | cons e entries ih =>
    obtain ⟨root, votes⟩ := e
    rw [findMajority, List.find?_cons, ih]
    by_cases henough : threshold ≤ totalVotes head root votes
    · rw [if_pos henough, decide_eq_true henough]
      rfl
    · rw [if_neg henough, decide_eq_false henough]

/-- **At most one root has enough votes.** -/
theorem root_unique {voted : List String} (hN : voted.length + 1 ≤ N) {head a b : String}
    (ha : splitBrainThreshold N ≤ totalVotes head a (voted.count a))
    (hb : splitBrainThreshold N ≤ totalVotes head b (voted.count b)) : a = b := by
  by_contra hne
  have hvotes := Tally.count_add_count_le voted hne
  have hhalf := lt_two_mul_threshold N
  -- The head is a vote for one of the two only.
  have hhead : (if a = head then 1 else 0) + (if b = head then 1 else 0) ≤ 1 := by
    split_ifs with hahead hbhead
    · exact absurd (hahead.trans hbhead.symm) hne
    all_goals omega
  rw [totalVotes] at ha hb
  omega

/-- **No ledger is asked for without a quorum.** The node that is asked is a verified one, and what
it reports is a root that differs from the own one and had enough votes. -/
theorem quorum_of_resolveSplitBrain {nodes : List MeshNode}
    {first second : MeshNode → Option JsTree} {head lastHash id : String}
    (h : resolveSplitBrain nodes first second (fun _ ↦ head) lastHash = some id) :
    ∃ node ∈ nodes.filter (·.verified), node.id = id ∧
      ∃ root, reportedRoot (second node) = some root ∧ root ≠ lastHash ∧
        splitBrainThreshold ((nodes.filter (·.verified)).length + 1) ≤ totalVotes head root
          (((nodes.filter (·.verified)).filterMap fun node ↦ reportedRoot (first node)).count
            root) := by
  obtain ⟨-, h⟩ := Option.ite_none_left_eq_some.1 h
  obtain ⟨⟨hroot, hne⟩, h⟩ := Option.ite_none_right_eq_some.1 h
  obtain ⟨node, hfind, rfl⟩ := Option.map_eq_some_iff.1 h
  have hreports := List.find?_some hfind
  refine ⟨node, List.mem_of_find?_eq_some hfind, rfl, _, of_decide_eq_true hreports, hne, ?_⟩
  rw [majorityRoot, findMajority_const] at hroot ⊢
  cases hmajority : (roots (nodes.filter (·.verified)) first).entries.find? _ with
  | none =>
    rw [hmajority] at hroot
    exact absurd rfl hroot
  | some e =>
    obtain ⟨-, hvotes⟩ := Tally.mem_entries_tally.1 (List.mem_of_find?_eq_some hmajority)
    have henough := List.find?_some hmajority
    rw [decide_eq_true_eq, ← hvotes] at henough
    exact henough

/-- **The order of the peers makes no difference.** -/
theorem majorityRoot_perm {peers peers' : List MeshNode} (h : peers.Perm peers')
    (reply : MeshNode → Option JsTree) (head : String) :
    majorityRoot peers reply (fun _ ↦ head) = majorityRoot peers' reply fun _ ↦ head := by
  have hvoted := h.filterMap fun node ↦ reportedRoot (reply node)
  have hlen : (peers.filterMap fun node ↦ reportedRoot (reply node)).length + 1 ≤
      peers.length + 1 := Nat.succ_le_succ (List.length_filterMap_le _ _)
  rw [majorityRoot, majorityRoot, findMajority_const, findMajority_const, ← h.length_eq]
  refine congrArg (fun found : Option (String × ℕ) ↦ (found.map Prod.fst).getD "")
    (Tally.find?_eq_of_unique (fun e ↦ ?_) fun e he e' he' hfound hfound' ↦ ?_)
  · rw [roots, roots, Tally.mem_entries_tally, Tally.mem_entries_tally, hvoted.mem_iff,
      hvoted.count_eq]
  · obtain ⟨-, hcnt⟩ := Tally.mem_entries_tally.1 he
    obtain ⟨-, hcount'⟩ := Tally.mem_entries_tally.1 he'
    rw [decide_eq_true_eq] at hfound hfound'
    have hsame : e.1 = e'.1 := root_unique hlen (hcnt ▸ hfound) (hcount' ▸ hfound')
    exact Prod.ext hsame (by rw [← hcnt, ← hcount', hsame])

/-! ### The result -/

/-- **Quorums have nodes in common, and a split has at most one majority.** For two nodes without
small quorums, and for any number from three on: both thresholds are the same; any two sets of so
many nodes share one, and from four nodes on more than a third of them; no two reported roots both
reach the threshold with the head of the node; and the majority root is the same in whichever order
the peers are asked. -/
theorem quorums_intersect (N : ℕ) (allowSmallQuorum : Bool)
    (hN : 3 ≤ N ∨ N = 2 ∧ allowSmallQuorum = false) :
    quorumThreshold allowSmallQuorum N = splitBrainThreshold N ∧
      (∀ nodes A B : Finset String, nodes.card = N → A ⊆ nodes → B ⊆ nodes →
        quorumThreshold allowSmallQuorum N ≤ A.card →
        quorumThreshold allowSmallQuorum N ≤ B.card →
          (A ∩ B).Nonempty ∧ (4 ≤ N → N < 3 * (A ∩ B).card)) ∧
      ∀ (peers : List MeshNode) (reply : MeshNode → Option JsTree) (head : String),
        peers.length + 1 = N →
          (∀ a n b m, (a, n) ∈ (roots peers reply).entries →
            (b, m) ∈ (roots peers reply).entries →
            splitBrainThreshold N ≤ totalVotes head a n →
            splitBrainThreshold N ≤ totalVotes head b m → a = b) ∧
          ∀ peers' : List MeshNode, peers.Perm peers' →
            majorityRoot peers' reply (fun _ ↦ head) = majorityRoot peers reply fun _ ↦ head := by
  have heq := quorumThreshold_eq hN
  refine ⟨heq, fun nodes A B hcard hA hB hquorum hquorum' ↦ ?_, fun peers reply head hlength ↦
    ⟨fun a n b m ha hb hfound hfound' ↦ ?_, fun peers' h ↦ (majorityRoot_perm h reply head).symm⟩⟩
  · have hoverlap := Quorum.two_mul_le hA hB hquorum hquorum'
    have hhalf := lt_two_mul_threshold N
    refine ⟨Finset.card_pos.1 (by omega), fun hfour ↦ ?_⟩
    have hthird := lt_three_mul_threshold hfour
    omega
  · obtain ⟨-, rfl⟩ := Tally.mem_entries_tally.1 ha
    obtain ⟨-, rfl⟩ := Tally.mem_entries_tally.1 hb
    refine root_unique ?_ hfound hfound'
    rw [← hlength]
    exact Nat.succ_le_succ (List.length_filterMap_le _ _)

/-- A peer of four nodes, with an address of its own. -/
def numberedPeer (id : String) : MeshNode := ⟨id, id, "10.0.0.1", 8000, 0, true⟩

/-- Two of three peers report the head `r`, the third one another root. -/
def mostReport (node : MeshNode) : Option JsTree :=
  some (.obj [("lastHash", .str (if node.id = "c" then "other" else "r"))])

theorem quorums_intersect_four :
    quorumThreshold true 4 = splitBrainThreshold 4 ∧
      (({"a", "b", "c"} ∩ {"b", "c", "d"} : Finset String).Nonempty ∧
        (4 ≤ 4 → 4 < 3 * ({"a", "b", "c"} ∩ {"b", "c", "d"} : Finset String).card)) ∧
      majorityRoot [numberedPeer "c", numberedPeer "a", numberedPeer "b"] mostReport (fun _ ↦ "r") =
        majorityRoot [numberedPeer "a", numberedPeer "b", numberedPeer "c"] mostReport
          fun _ ↦ "r" := by
  obtain ⟨hsame, hshare, hmajority⟩ := quorums_intersect 4 true (.inl (by decide))
  refine ⟨hsame, hshare {"a", "b", "c", "d"} _ _ (by decide) (by decide) (by decide) (by decide)
    (by decide), ?_⟩
  exact (hmajority _ _ _ rfl).2 _ (by decide)

end Mesh
