import CounterTerrorist.Foundations.Run
import CounterTerrorist.Logging.Processor

/-!
# `LoggingService`

A call of `log` processes its entry and writes it to a buffer: to `preInitBuffer` as long as there
is no store, to `kvBuffer` afterwards. A full `kvBuffer` is saved to the store, in chunks of a
hundred entries, and so is a `kvBuffer` that is not empty whenever the timer fires. A batch that
could not be saved is put back at the front of the buffer.

`log` is not reentrant: a call that comes while another one is at work is dropped. The flag that
says so stays up while the other one waits, for its flush or only for its turn.

The model is a machine whose steps are what happens between two awaits. An entry is kept together
with the number of the call that brought it.
-/

namespace Logging

open Core List

/-- An entry, and the number of the call that brought it. -/
structure Record where
  call : ℕ
  entry : LogEntry

/-- A flush that is under way. -/
structure Flush where
  toFlush : List Record
  /-- The number of entries that the store has already. -/
  saved : ℕ

/-- The service, its store, and what is in flight. -/
structure LoggingService where
  /-- Whether there is a `diagnosticRepo`. -/
  diagnosticRepo : Bool
  secrets : List Text
  isLogging : Bool
  /-- The call that is at work waits for the flush. -/
  awaitsFlush : Bool
  kvBuffer : List Record
  preInitBuffer : List Record
  /-- The flush, if `isFlushingKv`. -/
  flush : Option Flush
  /-- The entries for which `addLog` is under way. -/
  adding : List Record
  /-- The entries in the store. -/
  store : List Record
  /-- The calls of `log` so far. -/
  calls : List LogEntry

namespace LoggingService

/-- `ignoredSources`. -/
def ignoredSources : List Text :=
  ["WEB:UI".toList, "HEARTBEAT".toList, "orchestrator:domain:analysis:audit".toList]

/-- `ignoredKeywords`. -/
def ignoredKeywords : List Text := ["GET /api/ws/events".toList, "GET /api/metrics".toList]

/-- An entry is on one of the ignore lists. -/
def Ignored (entry : LogEntry) : Prop :=
  entry.caller ∈ ignoredSources ∨ ∃ kw ∈ ignoredKeywords, kw <:+: entry.message

instance (entry : LogEntry) : Decidable (Ignored entry) := inferInstanceAs (Decidable (_ ∨ _))

/-- The service before the first call. -/
def start (diagnosticRepo : Bool) : LoggingService where
  diagnosticRepo := diagnosticRepo
  secrets := []
  isLogging := false
  awaitsFlush := false
  kvBuffer := []
  preInitBuffer := []
  flush := none
  adding := []
  store := []
  calls := []

/-- `flushKvBuffer`, up to its first await. -/
def flushKvBuffer (s : LoggingService) : LoggingService :=
  if !s.diagnosticRepo || s.kvBuffer.isEmpty || s.flush.isSome then s
  else { s with flush := some ⟨s.kvBuffer, 0⟩, kvBuffer := [] }

/-- `writeToKv`, up to its first await. -/
def writeToKv (s : LoggingService) (record : Record) : LoggingService :=
  if s.diagnosticRepo then
    let pushed := { s with kvBuffer := s.kvBuffer ++ [record] }
    if 50 ≤ pushed.kvBuffer.length then
      { pushed.flushKvBuffer with awaitsFlush := pushed.flush.isNone }
    else pushed
  else
    let preInitBuffer := s.preInitBuffer ++ [record]
    { s with preInitBuffer := if 500 < preInitBuffer.length then preInitBuffer.tail
                              else preInitBuffer }

/-- `setKv`. -/
def setKv (s : LoggingService) : LoggingService :=
  { s with
    diagnosticRepo := true
    preInitBuffer := []
    adding := s.adding ++ s.preInitBuffer }

/-- The commit of a chunk in `setMany`, and what `flushKvBuffer` does after the last one or after
one that failed. -/
def commit (s : LoggingService) (f : Flush) (ok : Bool) : LoggingService :=
  if ok then
    let saved := { s with store := s.store ++ (f.toFlush.drop f.saved).take 100 }
    if f.toFlush.length ≤ f.saved + 100 then { saved with flush := none, awaitsFlush := false }
    else { saved with flush := some { f with saved := f.saved + 100 } }
  else
    { s with
      kvBuffer := (f.toFlush ++ s.kvBuffer).take 1000
      flush := none
      awaitsFlush := false }

/-- What happens to the service between two awaits. -/
inductive Label
  /-- `setConfig`, as far as it registers secrets. -/
  | setConfig (config : String → Option Text)
  | setKv
  /-- A call of `log`, up to its await. -/
  | log (entry : LogEntry)
  /-- The call of `log` that is at work gets its turn again. -/
  | resume
  /-- The timer, or `shutdown`. -/
  | tick
  /-- The store answers to the next chunk of a flush. -/
  | commit (ok : Bool)
  /-- The store answers to one of the calls of `addLog`. -/
  | added (i : ℕ) (ok : Bool)

section

-- `process` is `none` if the processor throws, as it does on a payload that contains itself
variable (process : List Text → LogEntry → Option LogEntry)

/-- The entry that `log` writes, if it comes to that. -/
def toWrite (s : LoggingService) (entry : LogEntry) : Option LogEntry :=
  match process s.secrets entry with
  | none => none
  | some entry => if entry.fromAudit ∨ Ignored entry then none else some entry

/-- `log`, up to its await. -/
def log (s : LoggingService) (entry : LogEntry) : LoggingService :=
  let called := { s with calls := s.calls ++ [entry] }
  if entry.message = [] then called
  else if s.isLogging then called
  else
    match s.toWrite process entry with
    | none => called
    | some written => { called.writeToKv ⟨s.calls.length, written⟩ with isLogging := true }

/-- One step. -/
def step (s : LoggingService) : Label → Option LoggingService
  | .setConfig config => some { s with secrets := updateSecrets config s.secrets }
  | .setKv => some s.setKv
  | .log entry => some (s.log process entry)
  | .resume => if s.isLogging && !s.awaitsFlush then some { s with isLogging := false } else none
  | .tick => some s.flushKvBuffer
  | .commit ok => s.flush.map fun f ↦ s.commit f ok
  | .added i ok => (s.adding[i]?).map fun record ↦
    { s with
      adding := s.adding.eraseIdx i
      store := if ok then s.store ++ [record] else s.store }

end

/-! ### Copies -/

/-- The number of records of a call in a list. -/
def copiesIn (i : ℕ) (records : List Record) : ℕ := records.countP (·.call = i)

/-- The records of a flush that the store does not have. -/
def unsaved (s : LoggingService) : List Record :=
  match s.flush with
  | none => []
  | some f => f.toFlush.drop f.saved

/-- The records of a flush that the store has. -/
def saved (s : LoggingService) : List Record :=
  match s.flush with
  | none => []
  | some f => f.toFlush.take f.saved

/-- The number of records of a call on the way to the store without a buffer to go back to. -/
def early (s : LoggingService) (i : ℕ) : ℕ := copiesIn i s.preInitBuffer + copiesIn i s.adding

/-- The number of records of a call, wherever they are. -/
def copies (s : LoggingService) (i : ℕ) : ℕ :=
  copiesIn i s.kvBuffer + copiesIn i s.unsaved + s.early i + copiesIn i s.store

section

variable {i : ℕ} {l l' : List Record} {r : Record}

@[simp] theorem copiesIn_nil : copiesIn i [] = 0 := rfl

/-- Copies add up. -/
@[simp] theorem copiesIn_append : copiesIn i (l ++ l') = copiesIn i l + copiesIn i l' :=
  countP_append

theorem copiesIn_cons : copiesIn i (r :: l) = copiesIn i l + copiesIn i [r] := by
  rw [← singleton_append, copiesIn_append, Nat.add_comm]

theorem copiesIn_singleton : copiesIn i [r] = if r.call = i then 1 else 0 := by
  simp [copiesIn]

theorem copiesIn_take_add_drop (n : ℕ) (l : List Record) :
    copiesIn i (l.take n) + copiesIn i (l.drop n) = copiesIn i l := by
  rw [← copiesIn_append, take_append_drop]

theorem copiesIn_pos (h : r ∈ l) : 0 < copiesIn r.call l :=
  countP_pos_iff.2 ⟨r, h, decide_eq_true rfl⟩

theorem exists_of_copiesIn_pos (h : 0 < copiesIn i l) : ∃ r ∈ l, r.call = i := by
  obtain ⟨r, hmem, hr⟩ := countP_pos_iff.1 h
  exact ⟨r, hmem, of_decide_eq_true hr⟩

/-- Taking a record out. -/
theorem copiesIn_eraseIdx {j : ℕ} (h : l[j]? = some r) :
    copiesIn i (l.eraseIdx j) + copiesIn i [r] = copiesIn i l := by
  induction l generalizing j with
  | nil => cases h
  | cons x l ih =>
    cases j with
    | zero =>
      cases h
      exact (copiesIn_cons).symm
    | succ j =>
      have hrest := ih (j := j) h
      rw [eraseIdx_cons_succ, copiesIn_cons, copiesIn_cons (l := l)]
      omega

end

end LoggingService

end Logging
