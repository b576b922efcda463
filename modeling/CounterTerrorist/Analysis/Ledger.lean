import CounterTerrorist.Foundations.Run

/-!
# The replicated ledger

`LedgerService.commit` takes index and previous hash of its entry from the chain, waits for the hash
and then appends the entry; `syncEntry` also waits between its look at the chain and its `push`.
Only the parts of a call before and after its `await` are atomic, so a run is a list of calls and of
returns from `computeHash`, in any order.

Two calls that overlap build on the same entry. `Ledger.continuous_iff` says that nothing else
breaks the chain.
-/

namespace LedgerService

open List Machine Option

structure LedgerEntry (E : Type) where
  index : ℕ
  timestamp : String
  event : E
  prevHash : String
  hash : String
  nodeId : String

/-- A call that waits for `computeHash` of its entry; with `received` it is one of `syncEntry`. -/
structure Call (E : Type) where
  entry : LedgerEntry E
  received : Bool

structure Ledger (E : Type) where
  chain : List (LedgerEntry E) := []
  lastHash : String := "GHOST_GENESIS"
  waiting : List (Call E) := []

/-- What happens next: a call is made or the hash for a waiting call is there. -/
inductive Action (E : Type)
  | commit (timestamp : String) (event : E) (nodeId : Option String)
  | syncEntry (entry : LedgerEntry E)
  | computed (n : ℕ)

/-- Index, timestamp, event, previous hash and node are hashed. -/
abbrev Hash (E : Type) := ℕ → String → E → String → String → String

variable {E : Type} (hash : Hash E)

def computeHash (e : LedgerEntry E) : String := hash e.index e.timestamp e.event e.prevHash e.nodeId

/-- The entry that a call appends when its hash has been computed; `syncEntry` rejects one that has
another hash. A gap is only logged. -/
def Call.appended (call : Call E) : Option (LedgerEntry E) :=
  if !call.received then some { call.entry with hash := computeHash hash call.entry }
  else if call.entry.hash = computeHash hash call.entry then some call.entry
  else none

namespace Ledger

/-- `commit` up to its `await`. -/
def commit (s : Ledger E) (timestamp : String) (event : E) (nodeId : Option String) : Ledger E :=
  let nodeId := (nodeId.filter (· ≠ "")).getD "local-node"
  let entry : LedgerEntry E := ⟨s.chain.length, timestamp, event, s.lastHash, "", nodeId⟩
  { s with waiting := s.waiting ++ [⟨entry, false⟩] }

/-- `syncEntry` up to its `await`. -/
def syncEntry (s : Ledger E) (entry : LedgerEntry E) : Ledger E :=
  if s.chain.any (·.hash == entry.hash) then s
  else { s with waiting := s.waiting ++ [⟨entry, true⟩] }

/-- Both end with these two assignments. -/
def push (s : Ledger E) (entry : LedgerEntry E) : Ledger E :=
  { s with chain := s.chain ++ [entry], lastHash := entry.hash }

/-- The `n`-th waiting call after its `await`. -/
def computed (s : Ledger E) (n : ℕ) (call : Call E) : Ledger E :=
  (call.appended hash).elim id (fun entry s ↦ s.push entry)
    { s with waiting := s.waiting.eraseIdx n }

/-- The entries that come from other nodes are the next link at the time of the call. -/
def step (s : Ledger E) : Action E → Option (Ledger E)
  | .commit timestamp event nodeId => some (s.commit timestamp event nodeId)
  | .syncEntry entry =>
    if entry.index = s.chain.length ∧ entry.prevHash = s.lastHash then some (s.syncEntry entry)
    else none
  | .computed n => s.waiting[n]?.map (computed hash s n)

/-- Every entry stands at its index and names the hash of the one before it. -/
def Continuous (s : Ledger E) : Prop :=
  ∀ i entry, s.chain[i]? = some entry → entry.index = i ∧
    ∀ before, 1 ≤ i → s.chain[i - 1]? = some before → entry.prevHash = before.hash

/-- A call that is about to append its entry has seen all of the chain. -/
def Alone (s : Ledger E) : Action E → Prop
  | .computed n => ∀ call, s.waiting[n]? = some call → (call.appended hash).isSome →
      call.entry.index = s.chain.length
  | _ => True

/-- The last hash is that of the last entry. A waiting call that has seen all of the chain names
it. -/
structure Inv (s : Ledger E) : Prop where
  lastHash : ∀ entry, s.chain.getLast? = some entry → s.lastHash = entry.hash
  waiting : ∀ call ∈ s.waiting, call.entry.index ≤ s.chain.length ∧
    (call.entry.index = s.chain.length → call.entry.prevHash = s.lastHash)

variable {hash} {s t : Ledger E} {a : Action E}

variable {entry : LedgerEntry E} {call : Call E}

theorem continuous_push (h : s.Inv) (hc : s.Continuous)
    (hprev : entry.index = s.chain.length → entry.prevHash = s.lastHash) :
    (s.push entry).Continuous ↔ entry.index = s.chain.length := by
  refine ⟨fun h ↦ (h s.chain.length entry getElem?_concat_length).1, fun hidx i e he ↦ ?_⟩
  rcases Nat.lt_trichotomy i s.chain.length with hi | rfl | hi
  · have hbefore : i - 1 < s.chain.length := by omega
    simp only [push, getElem?_append_left hi, getElem?_append_left hbefore] at he ⊢
    exact hc i e he
  · obtain rfl : entry = e := by simpa [push] using he
    refine ⟨hidx, fun before hpos hb ↦ ?_⟩
    rw [push, getElem?_append_left (by omega), ← getLast?_eq_getElem?] at hb
    exact (hprev hidx).trans (h.lastHash before hb)
  · rw [push, getElem?_eq_none (by simp; omega)] at he
    cases he

theorem Inv.wait (h : s.Inv) (hidx : call.entry.index = s.chain.length)
    (hprev : call.entry.prevHash = s.lastHash) :
    ({ s with waiting := s.waiting ++ [call] } : Ledger E).Inv where
  lastHash := h.lastHash
  waiting := by
    rw [forall_mem_append]
    exact ⟨h.waiting, forall_mem_singleton.2 ⟨hidx ▸ Nat.le_refl _, fun _ ↦ hprev⟩⟩

theorem Inv.push {entry : LedgerEntry E} (h : s.Inv) : (s.push entry).Inv where
  lastHash e he := by
    obtain rfl : entry = e := by simpa [Ledger.push] using he
    rfl
  waiting call hcall := by
    have hle := (h.waiting call hcall).1
    simp only [Ledger.push, length_append, length_singleton]
    exact ⟨by omega, fun heq ↦ by omega⟩

/-- An appended entry has index and previous hash from the time of the call. -/
theorem appended_eq (h : call.appended hash = some entry) :
    entry.index = call.entry.index ∧ entry.prevHash = call.entry.prevHash := by
  rw [Call.appended] at h
  split_ifs at h <;> cases h <;> exact ⟨rfl, rfl⟩

/-- A step keeps the invariant, and from a continuous chain it leads to one exactly if it is
alone. -/
theorem step_spec (h : s.Inv) (hs : step hash s a = some t) :
    t.Inv ∧ (s.Continuous → (t.Continuous ↔ s.Alone hash a)) := by
  cases a with
  | commit timestamp event nodeId =>
    obtain rfl := some.inj hs
    exact ⟨h.wait rfl rfl, fun hc ↦ iff_of_true hc trivial⟩
  | syncEntry entry =>
    obtain ⟨⟨hidx, hprev⟩, hs⟩ := ite_none_right_eq_some.1 hs
    obtain rfl := some.inj hs
    rw [syncEntry]
    split
    · exact ⟨h, fun hc ↦ iff_of_true hc trivial⟩
    · exact ⟨h.wait hidx hprev, fun hc ↦ iff_of_true hc trivial⟩
  | computed n =>
    obtain ⟨call, hcall, rfl⟩ := map_eq_some_iff.1 hs
    have hn : ({ s with waiting := s.waiting.eraseIdx n } : Ledger E).Inv :=
      ⟨h.lastHash, fun call hcall ↦ h.waiting call (mem_of_mem_eraseIdx hcall)⟩
    simp only [Alone, hcall, Option.some.injEq, forall_eq', computed]
    cases happended : call.appended hash with
    | none => exact ⟨hn, fun hc ↦ iff_of_true hc nofun⟩
    | some entry =>
      have hwait := h.waiting call (mem_of_getElem? hcall)
      obtain ⟨hidx, hprev⟩ := appended_eq happended
      rw [← hidx, ← hprev] at hwait
      refine ⟨hn.push, fun hc ↦ (continuous_push hn hc hwait.2).trans ?_⟩
      simp [hidx]

/-- **At every moment of a run the ledger is a chain exactly if every call that appends an entry has
been alone with the chain:** nothing was appended while it waited for its hash. -/
theorem continuous_iff {as : List (Action E)} (h : Machine.run (step hash) {} as = some t) :
    (∀ bs u, bs <+: as → Machine.run (step hash) {} bs = some u → u.Continuous) ↔
      Machine.Guarded (step hash) (Alone hash) {} as :=
  always_iff_guarded (fun h hs ↦ (step_spec h hs).1) (fun h hc hs ↦ (step_spec h hs).2 hc)
    ⟨nofun, nofun⟩ nofun h

/-- One commit after the other. -/
theorem continuous_iff_commits :
    let hash : Hash Bool := fun index _ _ _ _ ↦ toString index
    let as : List (Action Bool) :=
      [.commit "t" true none, .computed 0, .commit "t" false none, .computed 0]
    ∀ bs u, bs <+: as → run (step hash) {} bs = some u → u.Continuous :=
  (continuous_iff rfl).2 <| by
    simp [Guarded, Alone, step, commit, computed, push, Call.appended]

/-- Two commits that overlap are both the first entry. -/
theorem overlapping_commits :
    let hash : Hash Bool := fun _ _ event _ _ ↦ toString event
    ∃ t, run (step hash) {}
      [.commit "t" true none, .commit "t" false none, .computed 0, .computed 0] = some t ∧
      ¬t.Continuous :=
  ⟨_, rfl, fun h ↦ absurd (h 1 _ rfl).1 (by decide)⟩

end Ledger

end LedgerService
