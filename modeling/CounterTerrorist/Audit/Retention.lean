import CounterTerrorist.Audit.TamperEvidence
import Mathlib.Data.Rat.Floor

/-!
# Retention

`purgeExpired` looks for the last expired event, writes a checkpoint that summarises what is about
to go, and calls `deleteBefore`.

`deleteBefore` throws on the first batch (`TimelineRepository.deleteBefore_eq`), after the
checkpoint was written. So a purge removes nothing: it leaves the ledger as it is or adds a
checkpoint (`purge_cases`), and the next purge, which finds the same expired events, adds another
one. What retention promises (`Retained`) holds exactly when there was nothing to do.

## Times

The cutoff is a number of milliseconds before now. Times of events are whole milliseconds, so a
fractional cutoff is represented by the next whole number.
-/

namespace Audit

open TimelineRepository List

namespace Ports

variable (p : Ports)

/-- `Date.now() - maxAgeDays * 24 * 60 * 60 * 1000`, up to the next whole millisecond. -/
def cutoffTimestamp (now : ℤ) (maxAgeDays : ℚ) : ℤ := ⌈(now : ℚ) - maxAgeDays * 24 * 60 * 60 * 1000⌉

/-- The signature of the checkpoint: absent without a TPM, else the TPM's answer. The outer `none`
is a TPM that rejects the request. -/
def checkpointSignature (answer : Option String) : Option (Option String) :=
  match p.tpm with
  | none => some none
  | some _ => answer.map some

/-- `purgeExpired` with the clock, the setting and the TPM, when every commit succeeds. `tick` is
what the checkpoint takes its id and timestamp from. -/
def purge (r : KvAuditRepository) (now : ℤ) (maxAgeDays : ℚ) (tick : Tick)
    (answer : Option String) : KvAuditRepository :=
  match p.checkpointSignature answer with
  | none => r
  | some signature =>
    -- what `deleteBefore` throws is caught
    p.purgeExpired r (cutoffTimestamp now maxAgeDays) tick signature fun saved ↦
      (saved.deleteBefore (cutoffTimestamp now maxAgeDays)).2

/-- What retention promises about a ledger before and after a purge: no stored event is older than
the cutoff, no event that is not older was removed, and a checkpoint was added exactly when an event
was removed. -/
structure Retained (cutoff : ℤ) (r r' : KvAuditRepository) : Prop where
  none_older : ∀ e ∈ r'.items.values, p.isExpired cutoff e = false
  others_kept : ∀ kv ∈ r.items.entries, p.isExpired cutoff kv.2 = false → kv ∈ r'.items.entries
  checkpoint_iff : (∃ kv ∈ r'.items.entries, kv ∉ r.items.entries ∧ kv.2.type = "CHECKPOINT") ↔
    ∃ kv ∈ r.items.entries, kv ∉ r'.items.entries

variable {p} {r : KvAuditRepository} {now : ℤ} {maxAgeDays : ℚ} {tick : Tick}
  {answer : Option String}

/-! ### What a purge does -/

/-- A purge leaves the ledger as it is, or adds a checkpoint to it. -/
theorem purge_cases (p : Ports) (r : KvAuditRepository) (now : ℤ) (maxAgeDays : ℚ) (tick : Tick)
    (answer : Option String) : p.purge r now maxAgeDays tick answer = r ∨
    ∃ boundary signature, p.boundaryEvent r (cutoffTimestamp now maxAgeDays) = some boundary ∧
      p.checkpointSignature answer = some signature ∧
      p.purge r now maxAgeDays tick answer =
        p.save r (p.purgeCheckpoint boundary tick signature) := by
  rcases hsig : p.checkpointSignature answer with - | signature
  · rw [purge, hsig]
    exact .inl rfl
  · rcases hboundary : p.boundaryEvent r (cutoffTimestamp now maxAgeDays) with - | boundary
    · simp only [purge, hsig, purgeExpired, hboundary, true_or]
    · refine .inr ⟨boundary, signature, rfl, rfl, ?_⟩
      simp only [purge, hsig, purgeExpired, hboundary, deleteBefore_eq]

/-- Without an expired event there is no boundary. -/
theorem boundaryEvent_eq_none {cutoff : ℤ}
    (h : ∀ e ∈ r.items.values, p.isExpired cutoff e = false) : p.boundaryEvent r cutoff = none := by
  have hstr : (r.getStream 10000 false).takeWhile (p.isExpired cutoff) = [] := by
    rcases hlist : r.getStream 10000 false with - | ⟨e, es⟩
    · rfl
    · have hmem : e ∈ r.items.values := by
        have hfirst : e ∈ r.getStream 10000 false := hlist ▸ mem_cons_self
        exact mem_of_mem_take hfirst
      rw [takeWhile_cons_of_neg]
      rw [h e hmem]
      decide
  rw [boundaryEvent, hstr, getLast?_nil]

/-- An expired event is never gone for good: it is still there, or the checkpoint has taken its key
and is as old. -/
theorem exists_expired_purge (now : ℤ) (maxAgeDays : ℚ) (tick : Tick) (answer : Option String)
    (hkeys : ∀ kv ∈ r.items.entries, kv.1 = p.key kv.2) (cutoff : ℤ) {e : AuditEvent}
    (he : e ∈ r.items.values) (hexp : p.isExpired cutoff e = true) :
    ∃ e' ∈ (p.purge r now maxAgeDays tick answer).items.values, p.isExpired cutoff e' = true := by
  obtain ⟨kv, hkv, rfl⟩ := List.mem_map.1 he
  rcases purge_cases p r now maxAgeDays tick answer with
    hsame | ⟨boundary, signature, -, -, hsaved⟩
  · rw [hsame]
    exact ⟨kv.2, he, hexp⟩
  · rw [hsaved]
    by_cases hkey : kv.1 = p.key (p.purgeCheckpoint boundary tick signature)
    · -- equal keys have equal times
      refine ⟨p.purgeCheckpoint boundary tick signature,
        List.mem_map.2 ⟨_, OrderedStore.mem_set.2 (.inl rfl), rfl⟩, ?_⟩
      have htime : p.time kv.2 = p.time (p.purgeCheckpoint boundary tick signature) :=
        congrArg (fun k ↦ (ofLex k).1) ((hkeys kv hkv).symm.trans hkey)
      rwa [isExpired, ← htime]
    · exact ⟨kv.2, List.mem_map.2 ⟨kv, OrderedStore.mem_set.2 (.inr ⟨hkey, hkv⟩), rfl⟩, hexp⟩

/-- Retention holds exactly when no stored event is older than the cutoff, whatever the clock, the
setting and the TPM say. -/
theorem purge_retained_iff (hkeys : ∀ kv ∈ r.items.entries, kv.1 = p.key kv.2) :
    p.Retained (cutoffTimestamp now maxAgeDays) r (p.purge r now maxAgeDays tick answer) ↔
      ∀ e ∈ r.items.values, p.isExpired (cutoffTimestamp now maxAgeDays) e = false := by
  constructor
  · intro hretained e he
    by_contra hexpired
    obtain ⟨e', he', hexpired'⟩ := exists_expired_purge now maxAgeDays tick answer hkeys _ he
      (by simpa using hexpired)
    rw [hretained.none_older e' he'] at hexpired'
    cases hexpired'
  · intro hnone
    have hsame : p.purge r now maxAgeDays tick answer = r := by
      rw [purge]
      split
      · rfl
      · rw [purgeExpired, boundaryEvent_eq_none hnone]
    rw [hsame]
    refine ⟨hnone, fun kv hkv _ ↦ hkv, ?_⟩
    constructor
    · rintro ⟨kv, hkv, hnot, -⟩
      exact absurd hkv hnot
    · rintro ⟨kv, hkv, hnot⟩
      exact absurd hkv hnot

/-- A ledger of one event, logged at the start of time. -/
def oldLedger : KvAuditRepository :=
  (Ports.sample HashInput.message none).save .empty
    ((Ports.sample HashInput.message none).logged (LogEntry.plain "login") "a" (.iso 0) "GENESIS"
      none)

theorem oldLedger_keys :
    ∀ kv ∈ oldLedger.items.entries, kv.1 = (Ports.sample HashInput.message none).key kv.2 := by
  intro kv hkv
  obtain rfl := mem_singleton.1 hkv
  rfl

/-- One millisecond after the epoch, with a retention of a day, there is nothing to purge. -/
theorem purge_retained_iff_young :
    (Ports.sample HashInput.message none).Retained (cutoffTimestamp 1 1) oldLedger
      ((Ports.sample HashInput.message none).purge oldLedger 1 1 ⟨"c", 2⟩ none) := by
  refine (purge_retained_iff oldLedger_keys).2 fun e he ↦ ?_
  obtain rfl := mem_singleton.1 he
  have hcutoff : cutoffTimestamp 1 1 = -86399999 := by norm_num [cutoffTimestamp]
  rw [hcutoff]
  rfl

/-- A day and a millisecond after the epoch, with a retention of a day, the event is older than the
cutoff and stays. -/
theorem purge_keeps_expired :
    (∀ kv ∈ oldLedger.items.entries, kv.1 = (Ports.sample HashInput.message none).key kv.2) ∧
      ¬(Ports.sample HashInput.message none).Retained (cutoffTimestamp 86400001 1) oldLedger
        ((Ports.sample HashInput.message none).purge oldLedger 86400001 1 ⟨"c", 86400002⟩
          none) := by
  refine ⟨oldLedger_keys, fun hretained ↦ ?_⟩
  have hcutoff : cutoffTimestamp 86400001 1 = 1 := by norm_num [cutoffTimestamp]
  rw [hcutoff] at hretained
  obtain ⟨e, he, hexpired⟩ := exists_expired_purge 86400001 1 ⟨"c", 86400002⟩ none oldLedger_keys 1
    (mem_singleton.2 rfl) rfl
  have hnone := hretained.none_older e he
  rw [hexpired] at hnone
  cases hnone

end Ports

end Audit
