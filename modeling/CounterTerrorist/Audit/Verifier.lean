import CounterTerrorist.Audit.Repository
import CounterTerrorist.Foundations.HashChain

/-!
# The audit verifier

`AuditVerifier.verifyChain` walks the ledger from the newest event to the oldest, carrying the newer
neighbour along, and stops at the first event it objects to.

## What is checked

* An event of type `CHECKPOINT` is checked against its signature when it has one and a TPM is there,
  and otherwise only has to carry the marker `TRUNCATED`. Its hash is not recomputed, and its newer
  neighbour does not have to name it.
* Any other event must carry the digest of its own fields, and its newer neighbour must name that
  digest or be marked `TRUNCATED`. Its signature is not looked at.

`inspect` is one iteration and `verifyEvents` the loop; `valid_iff` says what an accepted list is
without the loop.
-/

namespace Audit

open Core List

/-- Where and why a ledger was rejected. -/
structure BrokenAt where
  eventId : String
  expected : String
  actual : String
  type : String
deriving Repr, DecidableEq

/-- The answer of the verifier. -/
structure Verification where
  valid : Bool
  eventsChecked : ℕ
  brokenAt : Option BrokenAt
deriving Repr, DecidableEq

namespace Ports

variable (p : Ports)

/-- The signature that the verifier checks on a checkpoint, with the TPM it asks. -/
def checkedSignature (e : AuditEvent) : Option (TpmPort × String) :=
  match e.hwSignature, p.tpm with
  | some signature, some tpm => if signature = "" then none else some (tpm, signature)
  | _, _ => none

/-- The branch for checkpoints. -/
def inspectCheckpoint (e : AuditEvent) : Option BrokenAt :=
  match p.checkedSignature e with
  | some (tpm, signature) =>
    if tpm.verify e.hash signature then none
    else some ⟨e.id, "VALID_TPM_SIG", "INVALID_SIG", "CHECKPOINT_TAMPER"⟩
  | none =>
    if e.prevHash ≠ "TRUNCATED" then
      some ⟨e.id, "TPM_SIGNATURE", "UNSIGNED", "UNSIGNED_CHECKPOINT"⟩
    else none

/-- The link from the newer neighbour, if there is one, to `e`. -/
def inspectLink (prevEvent : Option AuditEvent) (e : AuditEvent) : Option BrokenAt :=
  match prevEvent with
  | some newer =>
    if newer.prevHash ≠ e.hash ∧ newer.prevHash ≠ "TRUNCATED" then
      some ⟨newer.id, e.hash, newer.prevHash, "CHAIN_BREAK"⟩
    else none
  | none => none

/-- One iteration of the loop: the objection to `e`, if any. -/
def inspect (prevEvent : Option AuditEvent) (e : AuditEvent) : Option BrokenAt :=
  if e.type = "CHECKPOINT" then p.inspectCheckpoint e
  else if e.hash ≠ p.computeHash e.hashInput then
    some ⟨e.id, p.computeHash e.hashInput, e.hash, "HASH_MISMATCH"⟩
  else inspectLink prevEvent e

/-- The loop over the events that are left. -/
def verifyEvents : ℕ → Option AuditEvent → List AuditEvent → Verification
  | eventsChecked, _, [] => ⟨true, eventsChecked, none⟩
  | eventsChecked, prevEvent, e :: es =>
    match p.inspect prevEvent e with
    | some brokenAt => ⟨false, eventsChecked + 1, some brokenAt⟩
    | none => verifyEvents (eventsChecked + 1) (some e) es

/-- `Number.MAX_SAFE_INTEGER`. -/
def maxSafeInteger : ℕ := 9007199254740991

/-- `verifyChain`; the limit `none` is the source's `-1`. -/
def verifyChain (r : KvAuditRepository) (limit : Option ℕ) : Verification :=
  p.verifyEvents 0 none (r.getStream (limit.getD maxSafeInteger) true)

/-- `verifyFullChain`. -/
def verifyFullChain (r : KvAuditRepository) : Verification := p.verifyChain r none

/-! ### What is accepted -/

/-- The condition on a single event. -/
def EventOk (e : AuditEvent) : Prop :=
  if e.type = "CHECKPOINT" then p.inspectCheckpoint e = none else p.HashOk e

/-- The condition on neighbours, the newer one first. -/
def LinkOk (newer older : AuditEvent) : Prop :=
  older.type = "CHECKPOINT" ∨ newer.prevHash = older.hash ∨ newer.prevHash = "TRUNCATED"

variable {p}

variable {e : AuditEvent} {es : List AuditEvent}

theorem inspect_none_iff : p.inspect none e = none ↔ p.EventOk e := by
  unfold inspect EventOk HashOk
  by_cases hc : e.type = "CHECKPOINT"
  · simp only [hc, if_true]
  · by_cases hh : e.hash = p.computeHash e.hashInput <;> simp [hc, inspectLink]

variable {newer : AuditEvent} {n : ℕ}

theorem inspect_some_iff : p.inspect (some newer) e = none ↔ p.EventOk e ∧ LinkOk newer e := by
  unfold inspect EventOk HashOk LinkOk
  by_cases hc : e.type = "CHECKPOINT"
  · simp only [hc, if_true, true_or, and_true]
  · by_cases hh : e.hash = p.computeHash e.hashInput
    · simp only [inspectLink]
      split <;> grind
    · simp [hc, hh]

theorem verifyEvents_cons_valid {prevEvent : Option AuditEvent} :
    (p.verifyEvents n prevEvent (e :: es)).valid = true ↔
      p.inspect prevEvent e = none ∧ (p.verifyEvents (n + 1) (some e) es).valid = true := by
  rw [verifyEvents]
  split <;> rename_i hi <;> simp [hi]

/-- The loop behind an accepted event: every event passes alone and every pair of neighbours is
linked, the accepted event included. -/
theorem verifyEvents_some_valid : (p.verifyEvents n (some newer) es).valid = true ↔
      (∀ e ∈ es, p.EventOk e) ∧ (newer :: es).IsChain LinkOk := by
  induction es generalizing n newer with
  | nil => simp [verifyEvents]
  | cons e es ih =>
    rw [verifyEvents_cons_valid, inspect_some_iff, ih, forall_mem_cons, isChain_cons_cons]
    tauto

/-- A list is accepted when every event passes alone and every pair of neighbours is linked. -/
theorem valid_iff :
    (p.verifyEvents n none es).valid = true ↔ (∀ e ∈ es, p.EventOk e) ∧ es.IsChain LinkOk := by
  cases es with
  | nil => simp [verifyEvents]
  | cons e es =>
    rw [verifyEvents_cons_valid, inspect_none_iff, verifyEvents_some_valid, forall_mem_cons,
      and_assoc]

/-- A list stays accepted when its oldest events are left out. -/
theorem valid_take (n : ℕ) (hes : (p.verifyEvents 0 none es).valid = true) :
    (p.verifyEvents 0 none (es.take n)).valid = true := by
  obtain ⟨hok, hchain⟩ := valid_iff.1 hes
  exact valid_iff.2 ⟨fun e he ↦ hok e (mem_of_mem_take he), hchain.take n⟩

/-- Ordinary events that carry their digests and name their older neighbours are accepted, under
every limit. -/
theorem verifyChain_valid_of_isChain {r : KvAuditRepository} (limit : Option ℕ)
    (htype : ∀ e ∈ r.items.values, e.type ≠ "CHECKPOINT")
    (hhash : ∀ e ∈ r.items.values, p.HashOk e)
    (hlink : r.items.values.reverse.IsChain fun newer older ↦ newer.prevHash = older.hash) :
    (p.verifyChain r limit).valid = true := by
  have hmem {e : AuditEvent} (he : e ∈ r.getStream (limit.getD maxSafeInteger) true) :
      e ∈ r.items.values := mem_reverse.1 (mem_of_mem_take he)
  refine valid_iff.2 ⟨fun e he ↦ ?_, ?_⟩
  · rw [EventOk, if_neg (htype e (hmem he))]
    exact hhash e (hmem he)
  · exact (hlink.take _).imp fun newer older h ↦ Or.inr (Or.inl h)

end Ports

end Audit
