import CounterTerrorist.Audit.Verifier
import Mathlib.Data.Sum.Order

/-!
# Deltas in the timeline

`KvAuditRepository.appendDelta` stores a delta under `["audit", "deltas", eventId, timestamp, id]`,
next to the events under `["audit", timestamp, id]`. Texts come before numbers in the key order, so
all deltas come before the first event, and a listing of the prefix `["audit"]` has both.
`getStream` and `getLatest` are such listings and yield deltas where events are expected. The
verifier finds no hash on a delta.

That a delta expires after 30 days is not part of the model.
-/

namespace Audit

structure AuditDelta where
  id : String
  eventId : String
  timestamp : String
  field : String
  oldValue : Option Core.JsTree
  newValue : Option Core.JsTree

/-- The rest of a key after `"audit"`: that of a delta, without `"deltas"`, or that of an event. -/
abbrev AuditKey := (String ×ₗ String ×ₗ String) ⊕ₗ TimelineKey

/-- What is stored under `"audit"`. -/
abbrev AuditRecords := OrderedStore AuditKey (AuditDelta ⊕ AuditEvent)

namespace AuditRecords

def deltaKey (delta : AuditDelta) : AuditKey :=
  Sum.inlₗ (toLex (delta.eventId, toLex (delta.timestamp, delta.id)))

def appendDelta (r : AuditRecords) (delta : AuditDelta) : AuditRecords :=
  r.set (deltaKey delta) (.inl delta)

def getStream (r : AuditRecords) (limit : Option ℕ) (reverse : Bool) :
    List (AuditDelta ⊕ AuditEvent) :=
  let values := if reverse then r.values.reverse else r.values
  limit.elim values values.take

def getLatest (r : AuditRecords) (limit : ℕ) : List (AuditDelta ⊕ AuditEvent) :=
  r.getStream (some limit) true

/-- The loop of the verifier. A delta has no `type` and no `hash`, so it is refused; `deltaHash` is
the digest of the fields that it has. -/
def verifyRecords (p : Ports) (deltaHash : AuditDelta → String) :
    ℕ → Option AuditEvent → List (AuditDelta ⊕ AuditEvent) → Verification
  | eventsChecked, _, [] => ⟨true, eventsChecked, none⟩
  | eventsChecked, _, .inl delta :: _ =>
    ⟨false, eventsChecked + 1, some ⟨delta.id, deltaHash delta, "undefined", "HASH_MISMATCH"⟩⟩
  | eventsChecked, prevEvent, .inr e :: es =>
    match p.inspect prevEvent e with
    | some brokenAt => ⟨false, eventsChecked + 1, some brokenAt⟩
    | none => verifyRecords p deltaHash (eventsChecked + 1) (some e) es

def verifyFullChain (p : Ports) (deltaHash : AuditDelta → String) (r : AuditRecords) :
    Verification :=
  verifyRecords p deltaHash 0 none (r.getStream (some Ports.maxSafeInteger) true)

/-- **A delta leaves the listings and the verdict on the ledger as they were exactly if it was
already there.** -/
theorem appendDelta_frame_iff {p : Ports} {deltaHash : AuditDelta → String} {r : AuditRecords}
    {delta : AuditDelta} :
    ((∀ limit reverse, (r.appendDelta delta).getStream limit reverse = r.getStream limit reverse) ∧
      (∀ limit, (r.appendDelta delta).getLatest limit = r.getLatest limit) ∧
      verifyFullChain p deltaHash (r.appendDelta delta) = verifyFullChain p deltaHash r) ↔
    (deltaKey delta, .inl delta) ∈ r.entries := by
  constructor
  · rintro ⟨hstream, -, -⟩
    exact OrderedStore.values_set_eq_iff.1 (hstream none false)
  · intro hmem
    rw [appendDelta, OrderedStore.set_of_mem hmem]
    exact ⟨fun _ _ ↦ rfl, fun _ ↦ rfl, rfl⟩

/-- An event, the first one. -/
def login : AuditEvent :=
  { (LogEntry.plain "login").toPayload with
    id := "e", timestamp := .iso 0, hash := "h", prevHash := "GENESIS", hwSignature := none
    formatted := none }

/-- A ledger of one event is valid. With a delta, a listing has two values and the ledger is
broken. -/
theorem appendDelta_breaks :
    let p := Ports.sample (fun _ ↦ "h") none
    let delta : AuditDelta := ⟨"d", "e", "t", "severity", none, none⟩
    let r : AuditRecords := OrderedStore.empty.set (Sum.inrₗ (toLex (0, "e"))) (.inr login)
    (verifyFullChain p (fun _ ↦ "h") r).valid = true ∧ r.getLatest 2 = [.inr login] ∧
      (r.appendDelta delta).getLatest 2 = [.inr login, .inl delta] ∧
      (verifyFullChain p (fun _ ↦ "h") (r.appendDelta delta)).valid = false :=
  ⟨rfl, rfl, rfl, rfl⟩

end AuditRecords

end Audit
