import CounterTerrorist.Audit.Service
import CounterTerrorist.Audit.Verifier
import CounterTerrorist.Core.Numbering

/-!
# What a verified ledger is evidence of

A ledger grows by the events `processQueue` appends and is cut by `purgeExpired`, which writes a
signed checkpoint and deletes old events. `Honest` collects the ledgers that arise in this way, with
a TPM and with keys that grow. They all verify (`honest_verifies`).

## The converse fails

The verifier never looks at the signature of an event that is not a checkpoint, and nothing anchors
the newest event. So someone who can write to the store but cannot sign extends any ledger by events
of their own: they compute the hash, name the newest hash, and leave the signature out. The result
verifies, for every honest ledger and every text of the new event.

## What is left

`hashInput_eq_of_head` is what the hashes do give: without checkpoints and truncation marks, when
the newest hash is known from elsewhere, everything that is hashed is determined as far back as both
lists go.
-/

namespace Audit

open Core List Option OrderedStore AuditEvent

namespace Ports

variable (p : Ports)

/-! ### Retention -/

/-- `ts < cutoffTimestamp`. An invalid time is not before anything. -/
def isExpired (cutoff : ℤ) (e : AuditEvent) : Bool := decide ((p.time e).untopD cutoff < cutoff)

/-- Events old enough to be purged, oldest first. -/
def expired (r : KvAuditRepository) (cutoff : ℤ) : List AuditEvent :=
  r.items.values.takeWhile (p.isExpired cutoff)

/-- The last expired event among the first 10000. -/
def boundaryEvent (r : KvAuditRepository) (cutoff : ℤ) : Option AuditEvent :=
  ((r.getStream 10000 false).takeWhile (p.isExpired cutoff)).getLast?

/-- What the checkpoint says, with a place for its hash and signature. -/
def checkpoint (boundary : AuditEvent) (tick : Tick) (hash : String) (signature : Option String) :
    AuditEvent where
  type := "CHECKPOINT"
  severity := some "info"
  caller := some "AUDIT:RETENTION"
  message := "Chain Truncated. Genesis state summarized at " ++ p.render boundary.timestamp
  actor := none
  data := some (.obj [("purgedEventsCutoff", .str (p.render boundary.timestamp)),
    ("boundaryHash", .str boundary.hash)])
  correlationId := none
  merkleRoot := none
  id := tick.uuid
  timestamp := .iso tick.now
  hash := hash
  prevHash := "TRUNCATED"
  hwSignature := signature
  formatted := some "[CHECKPOINT] [info] [AUDIT:RETENTION] Chain Truncated."

/-- The checkpoint of a purge. -/
def purgeCheckpoint (boundary : AuditEvent) (tick : Tick) (signature : Option String) :
    AuditEvent :=
  p.checkpoint boundary tick (p.computeHash (p.checkpoint boundary tick "" none).hashInput)
    signature

/-- `purgeExpired`, with what `deleteBefore` leaves behind. -/
def purgeExpired (r : KvAuditRepository) (cutoff : ℤ) (tick : Tick) (signature : Option String)
    (deleteBefore : KvAuditRepository → KvAuditRepository) : KvAuditRepository :=
  match p.boundaryEvent r cutoff with
  | some boundary => deleteBefore (p.save r (p.purgeCheckpoint boundary tick signature))
  | none => r

/-- The oldest events go, at most `deleted` of them. Deletions are committed in batches that can
fail. -/
def dropOldest (deleted : ℕ) (r : KvAuditRepository) : KvAuditRepository :=
  { r with items := r.items.drop deleted }

/-! ### Honest ledgers -/

/-- The newest event first. -/
def stream (r : KvAuditRepository) : List AuditEvent := r.items.values.reverse

/-- The event `processQueue` makes of an entry. -/
def logged (entry : LogEntry JsTree) (id : String) (timestamp : Timestamp) (prevHash : String)
    (signature : Option String) : AuditEvent :=
  AuditService.makeEvent p entry id timestamp prevHash
    (p.computeHash (AuditService.entryInput entry id timestamp prevHash)) signature

/-- The key of `e` is above every stored key. -/
def Above (r : KvAuditRepository) (e : AuditEvent) : Prop :=
  ∀ kv ∈ r.items.entries, kv.1 < p.key e

/-- Ledgers made by appending and purging, with the chain head. Signatures are ones the TPM
accepts. -/
inductive Honest (tpm : TpmPort) : String → KvAuditRepository → Prop
  | empty : Honest tpm "GENESIS" .empty
  | append {h : String} {r : KvAuditRepository} (entry : LogEntry JsTree) (id : String)
      (timestamp : Timestamp) (signature : String) (ledger : Honest tpm h r)
      (above : p.Above r (p.logged entry id timestamp h (some signature)))
      (nonempty : signature ≠ "")
      (signed : tpm.verify (p.logged entry id timestamp h (some signature)).hash signature = true) :
      Honest tpm (p.logged entry id timestamp h (some signature)).hash
        (p.save r (p.logged entry id timestamp h (some signature)))
  | purge {h : String} {r : KvAuditRepository} (cutoff : ℤ) (tick : Tick) (signature : String)
      (deleted : ℕ) (boundary : AuditEvent) (ledger : Honest tpm h r)
      (found : p.boundaryEvent r cutoff = some boundary)
      (above : p.Above r (p.purgeCheckpoint boundary tick (some signature)))
      (nonempty : signature ≠ "")
      (signed :
        tpm.verify (p.purgeCheckpoint boundary tick (some signature)).hash signature = true) :
      Honest tpm h (p.purgeExpired r cutoff tick (some signature)
        (dropOldest (min deleted (p.expired r cutoff).length)))

variable {p}

variable {r : KvAuditRepository} {e : AuditEvent} {tpm : TpmPort} {signature h : String}
  {es fs : List AuditEvent} {entry : LogEntry JsTree}

/-- Saving above every key puts the event first in the stream. -/
theorem stream_save (h : p.Above r e) : stream (p.save r e) = e :: stream r := by
  rw [stream, values, save_items, entries_set_of_lt h, map_append, reverse_append]
  rfl

/-- A signed event passes the checkpoint branch. -/
theorem inspectCheckpoint_signed (htpm : p.tpm = some tpm) (hs : e.hwSignature = some signature)
    (hne : signature ≠ "") (hv : tpm.verify e.hash signature = true) :
    p.inspectCheckpoint e = none := by
  simp [inspectCheckpoint, checkedSignature, hs, htpm, hne, hv]

/-- An accepted list goes on being accepted when an acceptable event is put in front of it. -/
theorem valid_cons (hes : (p.verifyEvents 0 none es).valid = true) (he : p.EventOk e)
    (hlink : ∀ newest, es.head? = some newest → LinkOk e newest) :
    (p.verifyEvents 0 none (e :: es)).valid = true := by
  obtain ⟨hok, hchain⟩ := valid_iff.1 hes
  exact valid_iff.2 ⟨forall_mem_cons.2 ⟨he, hok⟩,
    isChain_cons.2 ⟨fun newest hn ↦ hlink newest hn, hchain⟩⟩

/-- What is known of an honest ledger: it verifies, and its newest event is a checkpoint or carries
the chain head. -/
structure Sound (p : Ports) (h : String) (r : KvAuditRepository) : Prop where
  valid : (p.verifyEvents 0 none (stream r)).valid = true
  head : ∀ newest, (stream r).head? = some newest → newest.type = "CHECKPOINT" ∨ newest.hash = h

section

variable (htpm : p.tpm = some tpm)
include htpm

theorem Sound.append (hr : Sound p h r) {id : String}
    {timestamp : Timestamp} (above : p.Above r (p.logged entry id timestamp h (some signature)))
    (hne : signature ≠ "")
    (hv : tpm.verify (p.logged entry id timestamp h (some signature)).hash signature = true) :
    Sound p (p.logged entry id timestamp h (some signature)).hash
      (p.save r (p.logged entry id timestamp h (some signature))) := by
  constructor
  · rw [stream_save above]
    refine valid_cons hr.valid ?_ fun newest hn ↦ ?_
    · -- an entry may itself be of type `CHECKPOINT`; its signature then carries it
      rw [EventOk]
      split
      · exact inspectCheckpoint_signed htpm rfl hne hv
      · rfl
    · rcases hr.head newest hn with htype | hhash
      · exact .inl htype
      · exact .inr (.inl hhash.symm)
  · rw [stream_save above]
    rintro newest hn
    obtain rfl := some.inj hn
    exact .inr rfl

theorem Sound.purge (hr : Sound p h r) {cutoff : ℤ} {tick : Tick}
    {deleted : ℕ} {boundary : AuditEvent} (found : p.boundaryEvent r cutoff = some boundary)
    (above : p.Above r (p.purgeCheckpoint boundary tick (some signature))) (hne : signature ≠ "")
    (hv : tpm.verify (p.purgeCheckpoint boundary tick (some signature)).hash signature = true) :
    Sound p h (p.purgeExpired r cutoff tick (some signature) (dropOldest deleted)) := by
  obtain ⟨n, hstr⟩ : ∃ n, stream (p.purgeExpired r cutoff tick (some signature)
        (dropOldest deleted)) =
      (p.purgeCheckpoint boundary tick (some signature) :: stream r).take n := by
    rw [← stream_save above, purgeExpired, found]
    simp only [stream, dropOldest, OrderedStore.values, OrderedStore.drop, map_drop, reverse_drop]
    exact ⟨_, rfl⟩
  have hvalid : (p.verifyEvents 0 none
      (p.purgeCheckpoint boundary tick (some signature) :: stream r)).valid = true := by
    refine valid_cons hr.valid ?_ fun newest _ ↦ .inr (.inr rfl)
    exact inspectCheckpoint_signed htpm rfl hne hv
  constructor
  · rw [hstr]
    exact valid_take n hvalid
  · rw [hstr]
    cases n with
    | zero => simp
    | succ n =>
      rintro newest hn
      obtain rfl := some.inj hn
      exact .inl rfl

theorem Honest.sound (hr : p.Honest tpm h r) : Sound p h r := by
  induction hr with
  | empty => exact ⟨rfl, fun _ hn ↦ nomatch hn⟩
  | append _ _ _ _ _ above hne hv ih => exact ih.append htpm above hne hv
  | purge _ _ _ _ _ _ found above hne hv ih => exact ih.purge htpm found above hne hv

end

/-- The verifier's answer about a whole store. -/
theorem verifyFullChain_valid_of_stream (h : (p.verifyEvents 0 none (stream r)).valid = true) :
    (p.verifyFullChain r).valid = true :=
  valid_take maxSafeInteger h

/-- Honest ledgers verify. -/
theorem honest_verifies (htpm : p.tpm = some tpm) (hr : p.Honest tpm h r) :
    (p.verifyFullChain r).valid = true :=
  verifyFullChain_valid_of_stream (hr.sound htpm).valid

/-! ### Writing without the key -/

/-- A store someone without the TPM's key can leave behind, starting from `r`: every signature in it
that the TPM accepts was already there, for the same hash. -/
def KeylessFrom (tpm : TpmPort) (r r' : KvAuditRepository) : Prop :=
  ∀ e ∈ stream r', ∀ signature, e.hwSignature = some signature →
    tpm.verify e.hash signature = true →
      ∃ e₀ ∈ stream r, e₀.hash = e.hash ∧ e₀.hwSignature = some signature

variable (p)

/-- An unsigned event that names the newest hash and sorts after it. -/
def forged (r : KvAuditRepository) (entry : LogEntry JsTree) : AuditEvent :=
  match (stream r).head? with
  | some newest => p.logged entry (newest.id ++ "0") newest.timestamp newest.hash none
  | none => p.logged entry "0" (.iso 0) "GENESIS" none

variable {p}

/-- A string sorts before every proper extension of it. -/
theorem lt_append_zero (s : String) : s < s ++ "0" := by
  rw [String.lt_iff_toList_lt, String.toList_append]
  induction s.toList with
  | nil => exact List.Lex.nil
  | cons a l ih => exact List.Lex.cons ih

section

variable (hkeys : ∀ kv ∈ r.items.entries, kv.1 = p.key kv.2)
include hkeys

/-- The newest event has the greatest key. -/
theorem key_le_of_head {newest : AuditEvent}
    (hn : (stream r).head? = some newest) {kv : TimelineKey × AuditEvent}
    (hkv : kv ∈ r.items.entries) : kv.1 ≤ p.key newest := by
  rw [stream, values, head?_reverse, getLast?_map] at hn
  obtain ⟨last, hlast, rfl⟩ := map_eq_some_iff.1 hn
  obtain ⟨init, hinit⟩ := getLast?_eq_some_iff.1 hlast
  have hsort := r.items.sorted
  rw [hinit] at hkv hsort hkeys
  rw [← hkeys last (by simp)]
  rcases mem_append.1 hkv with hmem | hmem
  · exact ((pairwise_append.1 hsort).2.2 kv hmem last (by simp)).le
  · rw [mem_singleton.1 hmem]

/-- The forged event sorts after everything stored. -/
theorem above_forged (entry : LogEntry JsTree) : p.Above r (p.forged r entry) := by
  intro kv hkv
  rcases hn : (stream r).head? with - | newest
  · rw [stream, values, head?_eq_none_iff, reverse_eq_nil_iff, map_eq_nil_iff] at hn
    rw [hn] at hkv
    cases hkv
  · refine (key_le_of_head hkeys hn hkv).trans_lt ?_
    rw [forged, hn]
    exact Prod.Lex.toLex_lt_toLex.2 (.inr ⟨rfl, lt_append_zero newest.id⟩)

end

/-- Every event of an honest ledger is stored under its own key. -/
theorem Honest.keys (hr : p.Honest tpm h r) : ∀ kv ∈ r.items.entries, kv.1 = p.key kv.2 := by
  have hsave {r : KvAuditRepository} {e : AuditEvent}
      (ih : ∀ kv ∈ r.items.entries, kv.1 = p.key kv.2) :
      ∀ kv ∈ (p.save r e).items.entries, kv.1 = p.key kv.2 := by
    intro kv hkv
    rcases mem_set.1 hkv with rfl | ⟨-, hkv⟩
    · rfl
    · exact ih kv hkv
  induction hr with
  | empty => exact fun kv hkv ↦ nomatch hkv
  | append _ _ _ _ _ _ _ _ ih => exact hsave ih
  | purge _ _ _ _ _ _ found _ _ _ ih =>
    intro kv hkv
    rw [purgeExpired, found] at hkv
    exact hsave ih kv (mem_of_mem_drop hkv)

section

variable (hkeys : ∀ kv ∈ r.items.entries, kv.1 = p.key kv.2)
include hkeys

/-- A store extended by the forged event still verifies. -/
theorem valid_save_forged
    (hvalid : (p.verifyEvents 0 none (stream r)).valid = true) (htype : entry.type ≠ "CHECKPOINT") :
    (p.verifyFullChain (p.save r (p.forged r entry))).valid = true := by
  apply verifyFullChain_valid_of_stream
  rw [stream_save (above_forged hkeys entry)]
  refine valid_cons hvalid ?_ fun newest hn ↦ ?_
  · have hforged : (p.forged r entry).type ≠ "CHECKPOINT" ∧ p.HashOk (p.forged r entry) := by
      unfold forged
      split <;> exact ⟨htype, rfl⟩
    rw [EventOk, if_neg hforged.1]
    exact hforged.2
  · rw [forged, hn]
    exact .inr (.inl rfl)

/-- The forged event carries no signature, so it takes no key to write it. -/
theorem keylessFrom_save_forged
    (entry : LogEntry JsTree) : KeylessFrom tpm r (p.save r (p.forged r entry)) := by
  intro e he signature hs _
  rw [stream_save (above_forged hkeys entry)] at he
  rcases mem_cons.1 he with rfl | he
  · have hunsigned : (p.forged r entry).hwSignature = none := by
      unfold forged
      split <;> rfl
    rw [hunsigned] at hs
    exact nomatch hs
  · exact ⟨e, he, rfl, hs⟩

/-- The extended ledger is longer than the honest one, so it is no part of it. -/
theorem not_infix_save_forged
    (entry : LogEntry JsTree) : ¬stream (p.save r (p.forged r entry)) <:+: stream r := by
  rw [stream_save (above_forged hkeys entry)]
  intro hinfix
  have hlen := hinfix.length_le
  rw [length_cons] at hlen
  omega

end

/-- Against every honest ledger, and for every entry that is not of type `CHECKPOINT`: the store
with the forged event can be made without the key and verifies, and it is no run of the honest
ledger. -/
theorem forged_ledger_verifies {tpm : TpmPort} (htpm : p.tpm = some tpm) {h : String}
    {r : KvAuditRepository} (hr : p.Honest tpm h r) (entry : LogEntry JsTree)
    (htype : entry.type ≠ "CHECKPOINT") :
    KeylessFrom tpm r (p.save r (p.forged r entry)) ∧
      (p.verifyFullChain (p.save r (p.forged r entry))).valid = true ∧
      ¬stream (p.save r (p.forged r entry)) <:+: stream r := by
  exact ⟨keylessFrom_save_forged hr.keys entry,
    valid_save_forged hr.keys (hr.sound htpm).valid htype, not_infix_save_forged hr.keys entry⟩

/-- Ports with a given hash function and a TPM. -/
def markingPorts (computeHash : HashInput → String) : Ports :=
  .sample computeHash (some .marking)

/-- The first event of a ledger. -/
def firstEvent (computeHash : HashInput → String) : AuditEvent :=
  (markingPorts computeHash).logged (LogEntry.plain "login") "a" (.iso 1) "GENESIS"
    (some ("signed " ++ computeHash
      (AuditService.entryInput (LogEntry.plain "login") "a" (.iso 1) "GENESIS")))

/-- A ledger of one signed event is honest, whatever the hash function. -/
theorem honest_firstEvent (computeHash : HashInput → String) :
    (markingPorts computeHash).Honest .marking
      (firstEvent computeHash).hash ((markingPorts computeHash).save .empty
        (firstEvent computeHash)) := by
  refine Honest.append (LogEntry.plain "login") "a" (.iso 1) _ .empty
    (fun kv hkv ↦ nomatch hkv) ?_ ?_
  · intro hempty
    have hlen := congrArg String.length hempty
    exact absurd hlen (by simp)
  · exact beq_self_eq_true _

/-- The ledger of one event, with the message as its hash. -/
def firstLedger : KvAuditRepository :=
  (markingPorts HashInput.message).save .empty (firstEvent HashInput.message)

/-- Two more events, and a purge that deletes the first one. -/
def purgedLedger : KvAuditRepository :=
  let p := markingPorts HashInput.message
  let second := p.logged (LogEntry.plain "read") "b" (.iso 2) "login" (some "signed read")
  let third := p.logged (LogEntry.plain "logout") "c" (.iso 3) "read" (some "signed logout")
  p.purgeExpired (p.save (p.save firstLedger second) third) 2 ⟨"d", 4⟩
    (some "signed Chain Truncated. Genesis state summarized at 1") (dropOldest (min 1 1))

/-- A checkpoint and two linked events are left, and they verify. -/
theorem honest_verifies_purgedLedger : (stream purgedLedger).map AuditEvent.id = ["d", "c", "b"] ∧
    ((markingPorts HashInput.message).verifyFullChain purgedLedger).valid = true := by
  refine ⟨rfl, honest_verifies rfl (.purge 2 ⟨"d", 4⟩ _ 1 (firstEvent HashInput.message)
    (.append (LogEntry.plain "logout") "c" (.iso 3) _
      (.append (LogEntry.plain "read") "b" (.iso 2) _ (honest_firstEvent HashInput.message)
        ?_ (by decide) rfl) ?_ (by decide) rfl) rfl ?_ (by decide) rfl)⟩
  all_goals
    unfold Above
    decide

/-- The same with a forged event. -/
def forgedLedger : KvAuditRepository :=
  (markingPorts HashInput.message).save firstLedger
    ((markingPorts HashInput.message).forged firstLedger (LogEntry.plain "logout"))

theorem forged_ledger_verifies_firstLedger :
    KeylessFrom .marking firstLedger forgedLedger ∧
      ((markingPorts HashInput.message).verifyFullChain forgedLedger).valid = true ∧
      ¬stream forgedLedger <:+: stream firstLedger :=
  forged_ledger_verifies rfl (honest_firstEvent HashInput.message) (LogEntry.plain "logout")
    (by decide)

/-- A timestamp as one of two kinds of data. -/
def timestampData : Timestamp → ℤ ⊕ String
  | .iso ms => .inl ms
  | .text s => .inr s

theorem timestampData_injective : Function.Injective timestampData := by
  rintro (a | a) (b | b) h <;> simp_all [timestampData]

/-- There is a collision-free hash function that never yields the mark of a truncation. -/
theorem exists_injective_computeHash :
    ∃ f : HashInput → String, Function.Injective f ∧ ∀ i, f i ≠ "TRUNCATED" := by
  have hinput : Countable HashInput := by
    refine Function.Injective.countable (f := fun i : HashInput ↦ (i.id, timestampData i.timestamp,
      i.type, i.severity, i.caller, i.message, i.actor, i.data, i.correlationId, i.prevHash)) ?_
    rintro ⟨⟩ ⟨⟩ h
    simp_all [timestampData_injective.eq_iff]
  obtain ⟨c, hc⟩ := exists_injective_nat HashInput
  refine ⟨fun i ↦ String.ofList (List.replicate (c i) 'a'), fun i j h ↦ hc ?_, fun i h ↦ ?_⟩
  · simpa using congrArg String.length h
  · have htext : List.replicate (c i) 'a' = "TRUNCATED".toList :=
      String.toList_ofList.symm.trans (congrArg String.toList h)
    have hmem : 'T' ∈ List.replicate (c i) 'a' := htext ▸ by decide
    exact absurd (eq_of_mem_replicate hmem) (by decide)

/-- With a collision-free hash function and a TPM, a ledger that is not honest verifies. -/
theorem forged_ledger_counterexample :
    ∃ (p : Ports) (tpm : TpmPort) (h : String) (r r' : KvAuditRepository),
      Function.Injective p.computeHash ∧ p.tpm = some tpm ∧ p.Honest tpm h r ∧
      KeylessFrom tpm r r' ∧ (p.verifyFullChain r').valid = true ∧
      ¬stream r' <:+: stream r := by
  obtain ⟨computeHash, hinj, -⟩ := exists_injective_computeHash
  have hr := honest_firstEvent computeHash
  exact ⟨markingPorts computeHash, _, _, _, _, hinj, rfl, hr,
    keylessFrom_save_forged hr.keys (LogEntry.plain "logout"),
    valid_save_forged hr.keys (hr.sound rfl).valid (by decide),
    not_infix_save_forged hr.keys (LogEntry.plain "logout")⟩

/-! ### What the hashes determine -/

section

variable (hinj : Function.Injective p.computeHash)
include hinj

/-- Two linked lists that carry their digests and start with the same hash agree in everything that
is hashed, as far as both go. -/
theorem hashInput_eq_of_head (hes : ∀ e ∈ es, p.HashOk e) (hfs : ∀ e ∈ fs, p.HashOk e)
    (les : es.IsChain fun newer older ↦ newer.prevHash = older.hash)
    (lfs : fs.IsChain fun newer older ↦ newer.prevHash = older.hash)
    (hhead : ∀ e f, es.head? = some e → fs.head? = some f → e.hash = f.hash) :
    es.map hashInput <+: fs.map hashInput ∨ fs.map hashInput <+: es.map hashInput := by
  induction es generalizing fs with
  | nil => exact .inl nil_prefix
  | cons e es ih =>
    cases fs with
    | nil => exact .inr nil_prefix
    | cons f fs =>
      -- equal hashes have equal inputs, and the input names the next hash
      have hinput : e.hashInput = f.hashInput := by
        apply hinj
        rw [← hes e (by simp), ← hfs f (by simp)]
        exact hhead e f rfl rfl
      have hprev : e.prevHash = f.prevHash := congrArg HashInput.prevHash hinput
      obtain ⟨he, les⟩ := isChain_cons.1 les
      obtain ⟨hf, lfs⟩ := isChain_cons.1 lfs
      have hrest := ih (fun x hx ↦ hes x (by simp [hx])) (fun x hx ↦ hfs x (by simp [hx])) les lfs
        fun e' f' he' hf' ↦ by rw [← he e' he', ← hf f' hf', hprev]
      simpa only [map_cons, hinput, cons_prefix_cons, true_and] using hrest

/-- Tamper evidence below a known newest hash: two lists that verify, have neither checkpoints nor
truncation marks and start with the same hash agree in everything that is hashed. -/
theorem hashInput_eq_of_valid (hes : (p.verifyEvents 0 none es).valid = true)
    (hfs : (p.verifyEvents 0 none fs).valid = true)
    (hordinary : ∀ e ∈ es ++ fs, e.type ≠ "CHECKPOINT" ∧ e.prevHash ≠ "TRUNCATED")
    (hhead : ∀ e f, es.head? = some e → fs.head? = some f → e.hash = f.hash) :
    es.map hashInput <+: fs.map hashInput ∨ fs.map hashInput <+: es.map hashInput := by
  have hplain {gs : List AuditEvent} (hgs : (p.verifyEvents 0 none gs).valid = true)
      (ho : ∀ e ∈ gs, e.type ≠ "CHECKPOINT" ∧ e.prevHash ≠ "TRUNCATED") :
      (∀ e ∈ gs, p.HashOk e) ∧ gs.IsChain fun newer older ↦ newer.prevHash = older.hash := by
    obtain ⟨hok, hchain⟩ := valid_iff.1 hgs
    refine ⟨fun e he ↦ ?_, ?_⟩
    · have heok := hok e he
      rwa [EventOk, if_neg (ho e he).1] at heok
    · refine hchain.imp_of_mem_imp fun newer older hn ho' hlink ↦ ?_
      exact (hlink.resolve_left (ho older ho').1).resolve_right (ho newer hn).2
  obtain ⟨hes, les⟩ := hplain hes fun e he ↦ hordinary e (mem_append_left _ he)
  obtain ⟨hfs, lfs⟩ := hplain hfs fun e he ↦ hordinary e (mem_append_right _ he)
  exact hashInput_eq_of_head hinj hes hfs les lfs hhead

end

/-- Two linked events, with a signature on the newer one. -/
def linkedEvents (computeHash : HashInput → String) (signature : String) : List AuditEvent :=
  [(markingPorts computeHash).logged (LogEntry.plain "logout") "b" (.iso 2)
    (firstEvent computeHash).hash (some signature), firstEvent computeHash]

/-- Two lists that differ in a signature agree in what is hashed. -/
theorem hashInput_eq_of_valid_linkedEvents : ∃ f : HashInput → String, Function.Injective f ∧
    linkedEvents f "one" ≠ linkedEvents f "two" ∧
    ((linkedEvents f "one").map hashInput <+: (linkedEvents f "two").map hashInput ∨
      (linkedEvents f "two").map hashInput <+: (linkedEvents f "one").map hashInput) := by
  obtain ⟨f, hinj, hmark⟩ := exists_injective_computeHash
  have hvalid (signature : String) :
      ((markingPorts f).verifyEvents 0 none (linkedEvents f signature)).valid = true := by
    refine valid_cons ((honest_firstEvent f).sound rfl).valid rfl fun newest hn ↦ ?_
    obtain rfl := some.inj hn
    exact .inr (.inl rfl)
  refine ⟨f, hinj, fun heq ↦ ?_, hashInput_eq_of_valid (p := markingPorts f) hinj
    (hvalid "one") (hvalid "two") ?_ ?_⟩
  · exact absurd (some.inj (congrArg AuditEvent.hwSignature (cons.inj heq).1)) (by decide)
  · have hne : (firstEvent f).hash ≠ "TRUNCATED" := hmark _
    simp [linkedEvents, firstEvent, logged, AuditService.makeEvent, LogEntry.plain] at hne ⊢
    exact hne
  · intro e f he hf
    cases he
    cases hf
    rfl

end Ports

end Audit
