import CounterTerrorist.Audit.Service
import CounterTerrorist.Core.Json

/-!
# What other nodes ask the ledger

The read side of the audit service: its latest events, the events in the range after a hash, and a
Merkle proof for an event; and what becomes of an event that is sent as JSON.

`getEventsInRange` reads newest first, so what it collects after it has met the given hash are the
events before that one, not those after it (`getEventsInRange_eq`).
-/

namespace Audit

open Core List

/-! ### Events over JSON -/

/-- An event as another node receives it. Of its fields only these two can be more than a string. -/
def AuditEvent.overJson (e : AuditEvent) : AuditEvent :=
  { e with actor := e.actor.bind JsTree.overJson, data := e.data.bind JsTree.overJson }

@[simp] theorem AuditEvent.hash_overJson (e : AuditEvent) : e.overJson.hash = e.hash := rfl

@[simp] theorem AuditEvent.prevHash_overJson (e : AuditEvent) :
    e.overJson.prevHash = e.prevHash := rfl

@[simp] theorem Ports.key_overJson (p : Ports) (e : AuditEvent) : p.key e.overJson = p.key e := rfl

/-! ### Queries -/

/-- What `getMerkleProof` returns. -/
structure MerkleProof where
  leaf : String
  index : ℕ
  proof : List String
  root : String
deriving Repr, DecidableEq

/-- `AuditVerifier.getMerkleProof`; `none` is `null`. -/
def Ports.merkleProof (p : Ports) (eventHash : String) (recentEvents : List AuditEvent) :
    Option MerkleProof :=
  let hashes := (recentEvents.map AuditEvent.hash).reverse
  match hashes.idxOf? eventHash with
  | none => none
  | some index =>
    some ⟨eventHash, index, MerkleTree.getProof p.hashPair hashes index,
      MerkleTree.getRoot p.hashPair hashes⟩

namespace AuditService

variable (p : Ports)

/-- `getRecentEvents`. -/
def getRecentEvents (s : AuditService) (limit : ℕ) : List AuditEvent := s.repo.getLatest limit

/-- The loop of `getEventsInRange`. The hash comes from a message, so it can be any value. -/
def rangeLoop (startHash : JsTree) (limit : ℕ) : Bool → List AuditEvent → List AuditEvent →
    List AuditEvent
  | _, events, [] => events
  | found, events, event :: stream =>
    if found then
      if (events ++ [event]).length ≥ limit then events ++ [event]
      else rangeLoop startHash limit true (events ++ [event]) stream
    else rangeLoop startHash limit (startHash.isStr event.hash) events stream

/-- `getEventsInRange`. -/
def getEventsInRange (s : AuditService) (startHash : JsTree) (limit : ℕ) : List AuditEvent :=
  rangeLoop startHash limit false [] (s.repo.getStream 1000 true)

/-- `getMerkleProof`, over a window of 1000 events. -/
def getMerkleProof (s : AuditService) (eventHash : String) : Option MerkleProof :=
  p.merkleProof eventHash (s.getRecentEvents 1000)

/-! ### What the range is -/

/-- What follows the first event with the given hash. -/
def afterHash (hash : String) (stream : List AuditEvent) : List AuditEvent :=
  (stream.dropWhile fun e ↦ e.hash ≠ hash).drop 1

variable {limit : ℕ} {recent : List AuditEvent}

theorem rangeLoop_true (startHash : JsTree) {events : List AuditEvent}
    (hroom : events.length < limit) (stream : List AuditEvent) :
    rangeLoop startHash limit true events stream =
      events ++ stream.take (limit - events.length) := by
  induction stream generalizing events with
  | nil => simp [rangeLoop]
  | cons e stream ih =>
    have hlen : (events ++ [e]).length = events.length + 1 := length_append
    rw [rangeLoop]
    by_cases hfull : (events ++ [e]).length ≥ limit
    · have hone : limit - events.length = 1 := by omega
      rw [if_pos hfull, hone]
      rfl
    · have hsucc : limit - events.length = limit - (events ++ [e]).length + 1 := by omega
      rw [if_neg hfull, ih (by omega), hsucc, append_assoc]
      rfl

/-- The range after a hash: the events that follow it, newest first. -/
theorem getEventsInRange_eq (s : AuditService) (hash : String) (hlimit : 0 < limit) :
    s.getEventsInRange (.str hash) limit =
      (afterHash hash (s.repo.getStream 1000 true)).take limit := by
  rw [getEventsInRange]
  induction s.repo.getStream 1000 true with
  | nil => simp [rangeLoop, afterHash]
  | cons e stream ih =>
    rw [rangeLoop, if_neg (by simp), afterHash]
    by_cases heq : e.hash = hash
    · have hfound : (JsTree.str hash).isStr e.hash = true := beq_iff_eq.2 heq.symm
      rw [hfound, rangeLoop_true _ hlimit, dropWhile_cons_of_neg (by simpa using heq)]
      simp
    · have hnot : (JsTree.str hash).isStr e.hash = false := beq_eq_false_iff_ne.2 fun h ↦ heq h.symm
      rw [hnot, ih, dropWhile_cons_of_pos (by simpa using heq), afterHash]

/-- A proof that is returned is accepted, except under an empty top node. -/
theorem merkleProof_verifies_iff {p : Ports} {eventHash : String} {q : MerkleProof}
    (hq : p.merkleProof eventHash recent = some q) :
    MerkleTree.verify p.hashPair q.root q.leaf (.nat q.index) q.proof = true ↔
      (MerkleTree.buildTree p.hashPair (recent.map AuditEvent.hash).reverse).getLast? ≠
        some [""] := by
  rw [Ports.merkleProof] at hq
  split at hq
  case h_1 => cases hq
  case h_2 index hidx =>
    obtain rfl := Option.some.inj hq
    obtain ⟨hlt, heq, -⟩ := idxOf?_eq_some_iff.1 hidx
    exact MerkleTree.verify_getProof_iff p.hashPair (by rw [getElem?_eq_getElem hlt, heq])

/-- The proof for a stored event is accepted. -/
theorem merkleProof_verifies {p : Ports} (hpair : ∀ a b, p.hashPair a b ≠ "") {e : AuditEvent}
    (he : e ∈ recent) (hne : e.hash ≠ "") :
    ∃ proof, p.merkleProof e.hash recent = some proof ∧
      MerkleTree.verify p.hashPair proof.root proof.leaf (.nat proof.index) proof.proof = true := by
  have hmem : e.hash ∈ (recent.map AuditEvent.hash).reverse :=
    mem_reverse.2 (List.mem_map.2 ⟨e, he, rfl⟩)
  rcases hidx : (recent.map AuditEvent.hash).reverse.idxOf? e.hash with - | i
  · exact absurd hmem (idxOf?_eq_none_iff.1 hidx)
  · refine ⟨_, by rw [Ports.merkleProof, hidx], ?_⟩
    refine MerkleTree.verify_getProof hpair ?_ hne
    obtain ⟨hlt, heq, -⟩ := idxOf?_eq_some_iff.1 hidx
    rw [getElem?_eq_getElem hlt, heq]

end AuditService

end Audit
