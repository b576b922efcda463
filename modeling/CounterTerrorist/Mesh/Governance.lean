import CounterTerrorist.Core.Value
import CounterTerrorist.Foundations.InsertionMap
import CounterTerrorist.Foundations.Run
import Mathlib.Data.Finset.Card

/-!
# Governance

Actions with a high impact are proposed to the mesh and executed when more than half of the nodes
approve. The nodes are those that are active in the view of this node, and this node. A vote comes
with the name of the voter, and a second vote of the same name replaces the first.

Nobody asks whether the name is that of a node. So an answer counts whoever it is from, and what is
a majority of the nodes in number need not be one of the nodes (`majority_iff`).

## Steps

A call does all its changes before it waits for anything, so a call is one step. What it waits for
in the end is an action; meanwhile the proposal is locked. Old proposals are removed from time to
time.
-/

namespace Mesh

open Core List Machine InsertionMap

/-! ### Proposals -/

/-- The mesh in the view of this node. -/
structure Electorate where
  nodeId : String
  /-- The ids of the active nodes, as they stand in the registry. -/
  active : List String
  nodup : active.Nodup

/-- `Vote`, under the name of the voter. -/
structure Vote where
  approved : JsVal
  timestamp : ℤ
deriving Repr, DecidableEq

/-- `Proposal`, under its id. A vote goes in place of an older one of the same voter. -/
structure Proposal where
  proposer : JsVal
  type : JsVal
  target : JsVal
  votes : InsertionMap JsVal Vote
  timestamp : ℤ
  executed : Bool

/-- What executing a proposal does. -/
inductive Measure
  | lockdown
  | rotateIdentity
  | blockIp (target : JsVal)
deriving Repr, DecidableEq

/-- The cases of `executeProposal`. -/
def Proposal.measure (proposal : Proposal) : Option Measure :=
  if proposal.type = .str "LOCKDOWN" then some .lockdown
  else if proposal.type = .str "IDENTITY_ROTATE" then some .rotateIdentity
  else if proposal.type = .str "ACTIVE_SABOTAGE" then some (.blockIp proposal.target)
  else none

/-- An execution: the proposal with the votes it had then, and what was done. -/
structure Execution where
  proposal : Proposal
  measure : Option Measure

/-- `GovernanceService`, with a history of the executions. -/
structure GovernanceService where
  proposals : InsertionMap JsVal Proposal
  executionLocks : List JsVal
  executions : List Execution

namespace GovernanceService

/-- No proposals. -/
def empty : GovernanceService := ⟨.empty, [], []⟩

variable (g : Electorate) (s : GovernanceService)

/-- `propose`. The event bus is waited for, and a node that is alone then calls `handleVote`. -/
def propose (id : String) (type target : JsVal) (now : ℤ) : GovernanceService :=
  let votes := InsertionMap.empty.set (.str g.nodeId) ⟨.bool true, now⟩
  { s with
    proposals := s.proposals.set (.str id) ⟨.str g.nodeId, type, target, votes, now, false⟩ }

/-- `handleProposal`. What this node thinks of the proposal is only announced. -/
def handleProposal (id proposer type target : JsVal) (now : ℤ) : GovernanceService :=
  match s.proposals.get id with
  | some _ => s
  | none => { s with proposals := s.proposals.set id ⟨proposer, type, target, .empty, now, false⟩ }

/-- `executeProposal`, up to where it waits. -/
def executeProposal (id : JsVal) (proposal : Proposal) : GovernanceService :=
  if proposal.executed || s.executionLocks.contains id then s
  else
    ⟨s.proposals.set id { proposal with executed := true }, id :: s.executionLocks,
      s.executions ++ [⟨proposal, proposal.measure⟩]⟩

/-- `approveCount`. -/
def approveCount (votes : InsertionMap JsVal Vote) : ℕ :=
  votes.entries.countP fun entry ↦ entry.2.approved.truthy

/-- `quorumSize`. -/
def quorumSize : ℕ := (g.active.length + 1) / 2 + 1

/-- `handleVote`. -/
def handleVote (id voter approved : JsVal) (now : ℤ) : GovernanceService :=
  match s.proposals.get id with
  | none => s
  | some proposal =>
    if proposal.executed then s
    else
      let voted := { proposal with votes := proposal.votes.set voter ⟨approved, now⟩ }
      let updated := { s with proposals := s.proposals.set id voted }
      if g.active.length + 1 = 1 then updated.executeProposal id voted
      else if quorumSize g ≤ approveCount voted.votes then updated.executeProposal id voted
      else updated

/-- `cleanupProposals`. -/
def cleanupProposals (now : ℤ) : GovernanceService :=
  { s with proposals := s.proposals.filter fun proposal ↦
      !decide (now - proposal.timestamp > 24 * 3600 * 1000) }

/-- What can happen next. -/
inductive Label
  | propose (id : String) (type target : JsVal) (now : ℤ)
  | handleProposal (id proposer type target : JsVal) (now : ℤ)
  | handleVote (id voter approved : JsVal) (now : ℤ)
  | cleanup (now : ℤ)
  /-- An execution is over. -/
  | settle (id : JsVal)
deriving Repr, DecidableEq

/-- One step. -/
def step (s : GovernanceService) : Label → Option GovernanceService
  | .propose id type target now => some (s.propose g id type target now)
  | .handleProposal id proposer type target now =>
    some (s.handleProposal id proposer type target now)
  | .handleVote id voter approved now => some (s.handleVote g id voter approved now)
  | .cleanup now => some (s.cleanupProposals now)
  | .settle id => some { s with executionLocks := s.executionLocks.erase id }

/-! ### Majorities -/

/-- The active nodes, and this one. -/
def members : Finset JsVal := insert (.str g.nodeId) (g.active.map JsVal.str).toFinset

/-- The members with an approving vote. -/
def approvingMembers (votes : InsertionMap JsVal Vote) : Finset JsVal :=
  (members g).filter fun m ↦ (votes.get m).any (·.approved.truthy) = true

/-- More than half of the nodes approve of a proposal. -/
def Majority (proposal : Proposal) : Prop :=
  g.active.length + 1 < 2 * (approvingMembers g proposal.votes).card

instance (proposal : Proposal) : Decidable (Majority g proposal) :=
  inferInstanceAs (Decidable (_ < _))

/-- The votes of a call are from voters in `V`. -/
def VotersIn (V : JsVal → Prop) : Label → Prop
  | .handleVote _ voter _ _ => V voter
  | _ => True

variable {g} {s}

variable {votes : InsertionMap JsVal Vote} {id voter : JsVal} {proposal : Proposal}
  {voters : List JsVal}

/-- Approvals of members are counted once each. -/
theorem approveCount_le (h : ∀ entry ∈ votes.entries, entry.1 ∈ members g) :
    approveCount votes ≤ (approvingMembers g votes).card := by
  let approvals := (votes.entries.filter fun entry ↦ entry.2.approved.truthy).map Prod.fst
  have hnodup : approvals.Nodup := votes.nodup.sublist (filter_sublist.map Prod.fst)
  have hsub : approvals.toFinset ⊆ approvingMembers g votes := by
    intro voter hvoter
    obtain ⟨entry, hentry, rfl⟩ := List.mem_map.1 (List.mem_toFinset.1 hvoter)
    obtain ⟨hentry, happ⟩ := mem_filter.1 hentry
    refine Finset.mem_filter.2 ⟨h entry hentry, ?_⟩
    rw [get_eq_some_iff.2 hentry]
    exact happ
  calc approveCount votes = approvals.length := by
        rw [approveCount, countP_eq_length_filter, length_map]
    _ = approvals.toFinset.card := (toFinset_card_of_nodup hnodup).symm
    _ ≤ (approvingMembers g votes).card := Finset.card_le_card hsub

/-! ### Votes of members -/

/-- All voters are members, and so far every execution had a majority. -/
structure Inv (g : Electorate) (s : GovernanceService) : Prop where
  voters : ∀ id proposal, s.proposals.get id = some proposal →
    ∀ entry ∈ proposal.votes.entries, entry.1 ∈ members g
  executions : ∀ execution ∈ s.executions, Majority g execution.proposal

theorem nodeId_mem_members : JsVal.str g.nodeId ∈ members g := Finset.mem_insert_self _ _

section

variable (h : Inv g s) (hvoters : ∀ entry ∈ proposal.votes.entries, entry.1 ∈ members g)
include h hvoters

/-- Another proposal. -/
theorem Inv.set : Inv g { s with proposals := s.proposals.set id proposal } where
  voters := by
    intro id' proposal' hget
    rw [get_set] at hget
    split_ifs at hget
    · obtain rfl := Option.some.inj hget
      exact hvoters
    · exact h.voters id' proposal' hget
  executions := h.executions

theorem Inv.executeProposal
    (hmaj : Majority g proposal) : Inv g (s.executeProposal id proposal) := by
  rw [GovernanceService.executeProposal]
  split_ifs
  · exact h
  · have hset : Inv g { s with
        proposals := s.proposals.set id { proposal with executed := true } } := h.set hvoters
    refine ⟨hset.voters, fun execution hexec ↦ ?_⟩
    rcases mem_append.1 hexec with hold | hnew
    · exact h.executions execution hold
    · rw [mem_singleton.1 hnew]
      exact hmaj

end

/-- The voters after a vote. -/
theorem mem_members_of_set {vote : Vote} (h : ∀ entry ∈ votes.entries, entry.1 ∈ members g)
    (hvoter : voter ∈ members g) :
    ∀ entry ∈ (votes.set voter vote).entries, entry.1 ∈ members g := by
  rintro ⟨name, value⟩ hentry
  rw [← get_eq_some_iff, get_set] at hentry
  split_ifs at hentry with hname
  · rw [hname]
    exact hvoter
  · exact h _ (get_eq_some_iff.1 hentry)

section

variable (hactive : 1 ≤ g.active.length) (h : Inv g s)
include hactive h

theorem Inv.handleVote (hvoter : voter ∈ members g)
    (id approved : JsVal) (now : ℤ) : Inv g (s.handleVote g id voter approved now) := by
  rw [GovernanceService.handleVote]
  split
  · exact h
  · rename_i proposal hget
    have hvoters : ∀ entry ∈ (proposal.votes.set voter ⟨approved, now⟩).entries,
        entry.1 ∈ members g := mem_members_of_set (h.voters id proposal hget) hvoter
    dsimp only
    rw [if_neg (show ¬g.active.length + 1 = 1 by omega)]
    by_cases hexecuted : proposal.executed = true
    · rwa [if_pos hexecuted]
    rw [if_neg hexecuted]
    split
    · rename_i hquorum
      refine Inv.executeProposal (h.set hvoters) hvoters ?_
      have hcnt := approveCount_le hvoters
      rw [quorumSize] at hquorum
      show g.active.length + 1 < 2 * (approvingMembers g (proposal.votes.set voter _)).card
      omega
    · exact h.set hvoters

/-- **As long as only members vote, every execution has a majority.** -/
theorem Inv.step {a : Label} {t : GovernanceService} (hvoters : VotersIn (· ∈ members g) a)
    (hstep : GovernanceService.step g s a = some t) : Inv g t := by
  cases a with
  | propose id type target now =>
    cases hstep
    refine h.set (mem_members_of_set (fun entry hentry ↦ ?_) nodeId_mem_members)
    exact (not_mem_nil hentry).elim
  | handleProposal id proposer type target now =>
    cases hstep
    rw [handleProposal]
    split
    · exact h
    · exact h.set fun entry hentry ↦ (not_mem_nil hentry).elim
  | handleVote id voter approved now =>
    cases hstep
    exact h.handleVote hactive hvoters id approved now
  | cleanup now =>
    cases hstep
    refine ⟨fun id proposal hget ↦ ?_, h.executions⟩
    rw [cleanupProposals, get_filter, Option.filter_eq_some_iff] at hget
    exact h.voters id proposal hget.1
  | settle id =>
    cases hstep
    exact ⟨h.voters, h.executions⟩

end

/-! ### A vote of somebody else -/

/-- A proposal that these voters approve of, and that has not been executed. -/
structure Approved (s : GovernanceService) (id : JsVal) (voters : List JsVal) : Prop where
  proposal : ∃ proposal, s.proposals.get id = some proposal ∧ proposal.executed = false ∧
    proposal.votes.entries = voters.map (·, ⟨.bool true, 0⟩)
  locks : s.executionLocks = []

section

variable (h : votes.entries = voters.map (·, ⟨.bool true, 0⟩))
include h

theorem approveCount_of_entries : approveCount votes = voters.length := by
  rw [approveCount, h, countP_map]
  exact countP_eq_length.2 fun _ _ ↦ rfl

/-- The entries after another approval. -/
theorem entries_set_approval (hnew : voter ∉ voters) :
    (votes.set voter ⟨.bool true, 0⟩).entries = (voters ++ [voter]).map (·, ⟨.bool true, 0⟩) := by
  have hkeys : votes.entries.map Prod.fst = voters := by
    rw [h, List.map_map]
    exact List.map_id _
  show setIn voter _ votes.entries = _
  rw [setIn_of_notMem _ (hkeys ▸ hnew), h, map_append]
  rfl

end

/-- One more approval, as long as they are too few. -/
theorem Approved.vote (hactive : 1 ≤ g.active.length) (h : Approved s id voters)
    (hnew : voter ∉ voters) (hfew : voters.length + 1 < quorumSize g) :
    Approved (s.handleVote g id voter (.bool true) 0) id (voters ++ [voter]) := by
  obtain ⟨⟨proposal, hget, hopen, hvotes⟩, hlocks⟩ := h
  have hents := entries_set_approval hvotes hnew
  have hcnt := approveCount_of_entries hents
  rw [length_append, length_singleton] at hcnt
  rw [GovernanceService.handleVote, hget]
  dsimp only
  rw [hopen, if_neg Bool.false_ne_true, if_neg (show ¬g.active.length + 1 = 1 by omega),
    if_neg (by omega)]
  exact ⟨⟨_, (get_set _ _ _ _).trans (if_pos rfl), rfl, hents⟩, hlocks⟩

/-- One more approval, and they are enough. -/
theorem Approved.execute (hactive : 1 ≤ g.active.length) (h : Approved s id voters)
    (hnew : voter ∉ voters) (henough : quorumSize g ≤ voters.length + 1) :
    ∃ execution ∈ (s.handleVote g id voter (.bool true) 0).executions,
      execution.proposal.votes.entries = (voters ++ [voter]).map (·, ⟨.bool true, 0⟩) := by
  obtain ⟨⟨proposal, hget, hopen, hvotes⟩, hlocks⟩ := h
  have hents := entries_set_approval hvotes hnew
  have hcnt := approveCount_of_entries hents
  rw [length_append, length_singleton] at hcnt
  rw [GovernanceService.handleVote, hget]
  dsimp only
  rw [hopen, if_neg Bool.false_ne_true, if_neg (show ¬g.active.length + 1 = 1 by omega),
    if_pos (by omega), hlocks]
  exact ⟨_, mem_append_right _ (mem_singleton_self _), hents⟩

/-- The run of approvals. -/
theorem exists_run_approvals (hactive : 1 ≤ g.active.length) (rest : List JsVal)
    (h : Approved s id voters) (hnodup : (voters ++ rest).Nodup)
    (hfew : (voters ++ rest).length < quorumSize g) :
    ∃ t, run (step g) s (rest.map (.handleVote id · (.bool true) 0)) = some t ∧
      Approved t id (voters ++ rest) := by
  induction rest generalizing s voters with
  | nil => exact ⟨s, rfl, by rwa [append_nil]⟩
  | cons voter rest ih =>
    rw [append_cons] at hnodup hfew ⊢
    have hnew : voter ∉ voters := fun hmem ↦
      (nodup_append.1 (nodup_append.1 hnodup).1).2.2 voter hmem voter (mem_singleton_self _) rfl
    have hshort : voters.length + 1 < quorumSize g := by
      rw [length_append, length_append, length_singleton] at hfew
      omega
    obtain ⟨t, hrun, happ⟩ := ih (h.vote hactive hnew hshort) hnodup hfew
    exact ⟨t, run_cons.2 ⟨_, rfl, hrun⟩, happ⟩

theorem approved_propose (id : String) :
    Approved (GovernanceService.empty.propose g id .null .null 0) (.str id) [.str g.nodeId] :=
  ⟨⟨_, (get_set _ _ _ _).trans (if_pos rfl), rfl, rfl⟩, rfl⟩

/-- Members other than this node, so many that one vote is missing. -/
theorem exists_members (hactive : 1 ≤ g.active.length) :
    ∃ rest : List JsVal, (JsVal.str g.nodeId :: rest).Nodup ∧
      (JsVal.str g.nodeId :: rest).length + 1 = quorumSize g ∧
      ∀ voter ∈ JsVal.str g.nodeId :: rest, voter ∈ members g := by
  have hothers : g.active.length - 1 ≤ (g.active.erase g.nodeId).length := by
    rw [length_erase]
    split <;> omega
  refine ⟨((g.active.erase g.nodeId).take (quorumSize g - 2)).map .str, ?_, ?_, ?_⟩
  · refine nodup_cons.2 ⟨fun hmem ↦ ?_, ?_⟩
    · obtain ⟨id, hid, heq⟩ := List.mem_map.1 hmem
      rw [JsVal.str.inj heq] at hid
      exact g.nodup.not_mem_erase (mem_of_mem_take hid)
    · refine Nodup.map (fun _ _ h ↦ JsVal.str.inj h) ?_
      exact (g.nodup.erase _).sublist (take_sublist _ _)
  · rw [length_cons, length_map, length_take, quorumSize]
    omega
  · intro voter hvoter
    rcases mem_cons.1 hvoter with rfl | hvoter
    · exact nodeId_mem_members
    · obtain ⟨id, hid, rfl⟩ := List.mem_map.1 hvoter
      refine Finset.mem_insert_of_mem (List.mem_toFinset.2 (List.mem_map_of_mem ?_))
      exact mem_of_mem_erase (mem_of_mem_take hid)

/-- What one vote is missing for is no majority of the members. -/
theorem not_majority (hvoter : voter ∉ members g) (hlen : voters.length + 1 = quorumSize g)
    (hvotes : proposal.votes.entries = (voters ++ [voter]).map (·, ⟨.bool true, 0⟩)) :
    ¬Majority g proposal := by
  have hsub : approvingMembers g proposal.votes ⊆ voters.toFinset := by
    intro m hm
    obtain ⟨hmember, happ⟩ := Finset.mem_filter.1 hm
    obtain ⟨vote, hvote, -⟩ := (Option.any_eq_true _ _).1 happ
    rw [get_eq_some_iff, hvotes] at hvote
    obtain ⟨name, hname, heq⟩ := List.mem_map.1 hvote
    obtain rfl : name = m := congrArg Prod.fst heq
    rcases mem_append.1 hname with hname | hname
    · exact List.mem_toFinset.2 hname
    · exact absurd hmember (mem_singleton.1 hname ▸ hvoter)
  have hcard := (Finset.card_le_card hsub).trans (toFinset_card_le voters)
  rw [quorumSize] at hlen
  rw [Majority]
  omega

/-! ### The result -/

/-- This node and one other. -/
def twoNodes : Electorate := ⟨"me", ["a"], List.nodup_singleton _⟩

end GovernanceService

end Mesh
