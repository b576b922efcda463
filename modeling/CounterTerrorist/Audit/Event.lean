import CounterTerrorist.Core.Value
import Mathlib.Order.WithBot
import Mathlib.Data.Int.ConditionallyCompleteOrder

/-!
# Ledger events and the ports of the audit service

The data of the audit service: what a caller asks to be logged (`LogEntry`), what the ledger holds
(`AuditEvent`), and what the hash of an event is computed from (`HashInput`): everything but
`hwSignature`, `formatted` and `merkleRoot`.

## Timestamps

A timestamp is a string. What `Date.prototype.toISOString` produces corresponds to a millisecond
instant and is represented by it (`iso`); any other string is kept as text, and what `Date` makes of
it is a parameter. `getTime` is a number or `NaN`, which sorts after every number in a storage key,
so it is the top element.

## Ports

What the service is given from outside is collected in `Ports`. Hashing is a function of its input.
Answers that may differ from one call to the next (a signature, an integrity check, the success of a
write) are labels of the runs instead.
-/

namespace Audit

open Core

/-- A timestamp string. -/
inductive Timestamp
  /-- What `toISOString` gives for an instant, in milliseconds. -/
  | iso (ms : ℤ)
  /-- Any other string. -/
  | text (s : String)
deriving Repr, DecidableEq

/-- What the caller of the ledger says about an event. `actor` is typed in the source but passed on
as it is, so at run time it can be any value. -/
structure Payload (D : Type) where
  type : String
  severity : Option String
  caller : Option String
  message : String
  actor : Option JsTree
  data : Option D
  correlationId : Option String
  merkleRoot : Option String

/-- A request to log an event. -/
structure LogEntry (D : Type) extends Payload D where
  timestamp : Option Timestamp
  fromAudit : Bool

/-- An event of the ledger. -/
structure AuditEvent extends Payload JsTree where
  id : String
  timestamp : Timestamp
  hash : String
  prevHash : String
  hwSignature : Option String
  formatted : Option String

/-- The object a hash is computed from. -/
structure HashInput where
  id : String
  timestamp : Timestamp
  type : String
  severity : Option String
  caller : Option String
  message : String
  actor : Option JsTree
  data : Option JsTree
  correlationId : Option String
  prevHash : String

/-- The hashed part of an event. -/
def AuditEvent.hashInput (e : AuditEvent) : HashInput where
  id := e.id
  timestamp := e.timestamp
  type := e.type
  severity := e.severity
  caller := e.caller
  message := e.message
  actor := e.actor
  data := e.data
  correlationId := e.correlationId
  prevHash := e.prevHash

/-- Event data as a caller passes it: a value and the objects it refers to. -/
structure RawData where
  heap : Heap
  value : JsVal
deriving Repr, DecidableEq

/-- The entry `logEvent` queues: the same with sanitised data. -/
def LogEntry.sanitized (entry : LogEntry RawData) : LogEntry JsTree where
  type := entry.type
  severity := entry.severity
  caller := entry.caller
  message := entry.message
  actor := entry.actor
  data := entry.data.bind fun d ↦
    if d.value.truthy then some (sanitizeDataForAudit d.heap d.value) else none
  correlationId := entry.correlationId
  merkleRoot := entry.merkleRoot
  timestamp := entry.timestamp
  fromAudit := entry.fromAudit

/-- Whether `computeHash` returns for an entry. Of the fields of the hash input only these two can
be more than a string; they are one level below the top. -/
def LogEntry.hashable (entry : LogEntry JsTree) : Bool :=
  entry.actor.all (canonicalStringifyReturns 10) && entry.data.all (canonicalStringifyReturns 10)

/-- Data is sanitised before it is hashed, the actor is not. So only the actor can keep an entry
from being hashed. -/
theorem LogEntry.hashable_sanitized (entry : LogEntry RawData) :
    entry.sanitized.hashable = entry.actor.all (canonicalStringifyReturns 10) := by
  have hdata : entry.sanitized.data.all (canonicalStringifyReturns 10) = true := by
    rw [Option.all_eq_true]
    intro d hd
    obtain ⟨raw, -, hraw⟩ := Option.bind_eq_some_iff.1 hd
    split at hraw
    · exact Option.some.inj hraw ▸ sanitizeDataForAudit_returns raw.heap raw.value
    · exact nomatch hraw
  rw [hashable, hdata, Bool.and_true]
  rfl

/-- `event.timestamp || new Date().toISOString()`. -/
def Timestamp.orNow (timestamp : Option Timestamp) (now : ℤ) : Timestamp :=
  match timestamp with
  | some (.text s) => if s = "" then .iso now else .text s
  | some (.iso ms) => .iso ms
  | none => .iso now

/-- The part of a TPM whose answers are a function of the question. -/
structure TpmPort where
  verify : String → String → Bool

/-- What the audit service is constructed with. -/
structure Ports where
  computeHash : HashInput → String
  hashPair : String → String → String
  /-- The string of an instant. -/
  toISOString : ℤ → String
  /-- `Date` on a string that `toISOString` does not produce. -/
  dateParse : String → WithTop ℤ
  toUpperCase : String → String
  toLowerCase : String → String
  tpm : Option TpmPort
  /-- Whether a write-once repository is attached. -/
  wormRepo : Bool

/-- A timestamp as the string it is. -/
def Ports.render (p : Ports) : Timestamp → String
  | .iso ms => p.toISOString ms
  | .text s => s

/-- `new Date(timestamp).getTime()`. -/
def Ports.getTime (p : Ports) : Timestamp → WithTop ℤ
  | .iso ms => ms
  | .text s => p.dateParse s

/-- The one-line rendering of an event. -/
def Ports.format (p : Ports) (entry : LogEntry JsTree) : String :=
  "[" ++ p.toUpperCase entry.type ++ "] [" ++ p.toLowerCase (strOr entry.severity "info") ++
    "] [" ++ p.toUpperCase (strOr entry.caller "SYSTEM") ++ "] " ++ entry.message

/-- The hash of an event is the digest of its own fields. -/
def Ports.HashOk (p : Ports) (e : AuditEvent) : Prop := e.hash = p.computeHash e.hashInput

/-! ### Sample values -/

/-- Ports with a given hash function and TPM; everything else is as simple as it can be. -/
def Ports.sample (computeHash : HashInput → String) (tpm : Option TpmPort) : Ports where
  computeHash := computeHash
  hashPair := (· ++ ·)
  toISOString := toString
  dateParse := fun _ ↦ ⊤
  toUpperCase := id
  toLowerCase := id
  tpm := tpm
  wormRepo := false

/-- A TPM that signs a hash by marking it. -/
def TpmPort.marking : TpmPort := ⟨fun hash signature ↦ signature == "signed " ++ hash⟩

/-- An entry that consists of a message. -/
def LogEntry.plain {D : Type} (message : String) : LogEntry D where
  type := "INFO"
  severity := none
  caller := none
  message := message
  actor := none
  data := none
  correlationId := none
  merkleRoot := none
  timestamp := none
  fromAudit := false

end Audit
