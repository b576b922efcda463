import CounterTerrorist.Audit.Conservation

/-!
# One bad event stops the ledger

`processQueue` puts an entry that cannot be hashed back at the front of the queue, and `flushBuffer`
puts a batch that cannot be stored back at the front of the buffer. So an entry that can never be
hashed, or an event that can never be stored, keeps everything behind it waiting.

## What is shown

`OneBadEvent` describes an infinite run in which all goes well apart from one entry: other hashes
and writes succeed, every await settles, `logEvent` and `flushBuffer` are called again and again. In
every such run the repository never gets an event of an entry that was accepted after the bad one
(`behind_of_unhashable`, `behind_of_unstorable`). Both have one reason: accepted entries get to the
ledger and to the repository in the order of acceptance (`InOrder`), so what does not get past the
bad one never gets further.

## What happens to the queue

While the bad entry is at the front the queue only grows. Once it holds more than 5000 entries
`logEvent` drops what it is given before it comes to calling `processQueue`, so not even a retry is
made any more (`saturated_run`).
-/

namespace Audit

open Core List Machine Option AuditService

namespace AuditService

variable (p : Ports)

/-! ### Where the bad entry is -/

/-- The entry `bad` is not hashed in this step. -/
def Unhashable (bad : LogEntry JsTree) (s : AuditService) : Action → Prop
  | .queue .hashed _ => ∀ x, s.processing = some x → x.entry ≠ bad
  | _ => True

/-- No event of `bad` is stored in this step. -/
def Unstorable (bad : LogEntry JsTree) (s : AuditService) : Action → Prop
  | .flushSettled failAt =>
    ∀ f, s.flushing = some f → ∀ e ∈ written f.batch failAt, ¬ LoggedAs p bad e
  | _ => True

/-- Entry `k`, if it is accepted already, is `bad`. -/
def AtIndex (k : ℕ) (bad : LogEntry JsTree) (s : AuditService) : Prop :=
  ∀ entry, s.history.accepted[k]? = some entry → entry = bad

/-- What the repository holds was there before or belongs to one of the first `k` ledger events. -/
structure Behind (r : KvAuditRepository) (k : ℕ) (s : AuditService) : Prop where
  flushed : s.history.flushed.length ≤ k
  stored : ∀ kv ∈ s.repo.items.entries,
    kv ∈ r.items.entries ∨ ∃ i < k, s.history.ledger[i]? = some kv.2

/-- The first entry that is not in the ledger is entry `k` or an earlier one, and if it is `bad` it
has no hash. -/
structure Blocked (k : ℕ) (bad : LogEntry JsTree) (s : AuditService) : Prop where
  ledger : s.history.ledger.length ≤ k
  signing : ∀ entry rest id timestamp prevHash hash,
    s.processing = some ⟨entry, rest, .signing id timestamp prevHash hash⟩ → entry ≠ bad

variable {p} {h : String} {r : KvAuditRepository} {k : ℕ} {bad : LogEntry JsTree}
  {s t : AuditService} {a : Action}

theorem behind_start (h : String) (r : KvAuditRepository) (k : ℕ) : Behind r k (.start h r) :=
  ⟨Nat.zero_le k, fun _ hkv ↦ .inl hkv⟩

theorem blocked_start (h : String) (r : KvAuditRepository) (k : ℕ) (bad : LogEntry JsTree) :
    Blocked k bad (.start h r) :=
  ⟨Nat.zero_le k, fun _ _ _ _ _ _ hx ↦ nomatch hx⟩

/-! ### Positions -/

variable {e : AuditEvent} {failAt : Option ℕ}

section

variable (hs : InOrder p h s)
include hs

/-- Ledger event `i` is the event of entry `i`. -/
theorem InOrder.logged_at {i : ℕ} (he : s.history.ledger[i]? = some e) :
    ∃ entry, s.history.accepted[i]? = some entry ∧ LoggedAs p entry e := by
  obtain ⟨done, hdone, hforall⟩ := hs.accepted
  obtain ⟨hlt, hget⟩ := List.getElem?_eq_some_iff.1 he
  have hlen : done.length = s.history.ledger.length := hforall.length_eq
  have hi : i < done.length := hlen ▸ hlt
  refine ⟨done[i], ?_, ?_⟩
  · rw [hdone, getElem?_append_left hi, getElem?_eq_getElem hi]
  · rw [← hget]
    exact Forall₂.get hforall hi hlt

/-- The entry that is being hashed or signed is the first one that is not in the ledger. -/
theorem InOrder.next_entry {x : Processing} (hx : s.processing = some x)
    (hlog : logged x.stage = false) :
    s.history.accepted[s.history.ledger.length]? = some x.entry := by
  obtain ⟨done, hdone, hforall⟩ := hs.accepted
  have hpend : s.pending = x.entry :: (x.rest ++ s.logQueue) := by
    rw [pending, hx, unlogged, hlog]
    rfl
  rw [hdone, hpend, ← hforall.length_eq, getElem?_append_right (Nat.le_refl _), Nat.sub_self]
  rfl

/-- What is written of a batch follows what has been stored before. -/
theorem InOrder.written_at {f : Flush} (hf : s.flushing = some f)
    (failAt : Option ℕ) {j : ℕ} (he : (written f.batch failAt)[j]? = some e) :
    s.history.ledger[s.history.flushed.length + j]? = some e := by
  obtain ⟨rest, hrest⟩ := written_append f.batch failAt
  obtain ⟨hlt, -⟩ := List.getElem?_eq_some_iff.1 he
  have hsplit : s.history.ledger =
      s.history.flushed ++ (written f.batch failAt ++ (rest ++ s.auditBuffer)) := by
    rw [hs.ledger, buffered, hf, ← append_assoc (written f.batch failAt), ← hrest]
    rfl
  rw [hsplit, getElem?_append_right (Nat.le_add_right _ _), Nat.add_sub_cancel_left,
    getElem?_append_left hlt]
  exact he

end

/-! ### What gets to the repository -/

/-- A step that writes nothing. -/
theorem Behind.of_repo (hb : Behind r k s) (hrepo : t.repo = s.repo)
    (hflushed : t.history.flushed = s.history.flushed)
    (hledger : ∃ more, t.history.ledger = s.history.ledger ++ more) : Behind r k t := by
  obtain ⟨more, hmore⟩ := hledger
  refine ⟨hflushed ▸ hb.flushed, fun kv hkv ↦ ?_⟩
  rw [hrepo] at hkv
  refine (hb.stored kv hkv).imp_right ?_
  rintro ⟨i, hi, hget⟩
  obtain ⟨hlt, -⟩ := List.getElem?_eq_some_iff.1 hget
  refine ⟨i, hi, ?_⟩
  rw [hmore, getElem?_append_left hlt]
  exact hget

/-- A write that does not get past position `k`. -/
theorem Behind.flushSettled (hb : Behind r k s) (hs : InOrder p h s) {f : Flush}
    (hf : s.flushing = some f)
    (hle : s.history.flushed.length + (written f.batch failAt).length ≤ k) :
    Behind r k (s.flushSettled p f failAt) := by
  obtain ⟨hledger, -⟩ := flushSettled_ledger (p := p) s f failAt
  obtain ⟨repo, hrepo, hcases⟩ := flushSettled_cases (p := p) s f failAt
  have hstored : ∀ kv ∈ repo.items.entries,
      kv ∈ r.items.entries ∨ ∃ i < k, s.history.ledger[i]? = some kv.2 := by
    intro kv hkv
    rw [hrepo] at hkv
    rcases OrderedStore.mem_of_mem_setAll hkv with hnew | hold
    · obtain ⟨e, he, rfl⟩ := List.mem_map.1 hnew
      obtain ⟨j, hj⟩ := mem_iff_getElem?.1 he
      obtain ⟨hlt, -⟩ := List.getElem?_eq_some_iff.1 hj
      refine .inr ⟨s.history.flushed.length + j, ?_, hs.written_at hf failAt hj⟩
      exact Nat.lt_of_lt_of_le (Nat.add_lt_add_left hlt _) hle
    · exact hb.stored kv hold
  rcases hcases with ⟨hall, heq⟩ | ⟨-, heq⟩
  · rw [heq]
    refine ⟨?_, hstored⟩
    show (s.history.flushed ++ f.batch).length ≤ k
    rwa [length_append, ← hall]
  · rw [heq]
    exact ⟨hb.flushed, hstored⟩

/-- Any step, given that a write does not get past position `k`. -/
theorem Behind.step (hb : Behind r k s) (hs : InOrder p h s) (ha : Local a)
    (hle : ∀ failAt f, a = .flushSettled failAt → s.flushing = some f →
      s.history.flushed.length + (written f.batch failAt).length ≤ k)
    (hstep : step p s a = some t) : Behind r k t := by
  obtain ⟨hledger, -⟩ := step_ledger hstep
  cases localStep_of_step ha hstep with
  | beside h => exact hb.of_repo h.same.repo h.same.flushed ⟨_, hledger⟩
  | queue _ _ hq => exact hb.of_repo hq.stored.1 hq.stored.2 ⟨_, hledger⟩
  | flush hf => exact hb.flushSettled hs hf (hle _ _ rfl hf)

/-! ### An event that cannot be stored -/

/-- A write cannot get past the bad event. -/
theorem written_le_of_unstorable (hs : InOrder p h s) (hb : Behind r k s)
    (hidx : AtIndex k bad s) {f : Flush} (hf : s.flushing = some f)
    (hbad : ∀ e ∈ written f.batch failAt, ¬ LoggedAs p bad e) :
    s.history.flushed.length + (written f.batch failAt).length ≤ k := by
  by_contra hgt
  have hflushed := hb.flushed
  -- otherwise position `k` of the ledger is among the events written
  have hlt : k - s.history.flushed.length < (written f.batch failAt).length := by omega
  have hwritten := getElem?_eq_getElem hlt
  have hget := hs.written_at hf failAt hwritten
  rw [Nat.add_sub_cancel' hflushed] at hget
  obtain ⟨entry, hentry, hlog⟩ := hs.logged_at hget
  rw [hidx entry hentry] at hlog
  exact hbad _ (getElem_mem hlt) hlog

theorem Behind.step_of_unstorable (hb : Behind r k s) (hs : InOrder p h s)
    (hidx : AtIndex k bad s) (ha : Local a) (hbad : Unstorable p bad s a)
    (hstep : AuditService.step p s a = some t) : Behind r k t := by
  refine hb.step hs ha (fun failAt f heq hf ↦ ?_) hstep
  subst heq
  exact written_le_of_unstorable hs hb hidx hf (hbad f hf)

/-! ### An entry that cannot be hashed -/

/-- An entry that has just begun has no hash. -/
theorem Begun.not_signing {lastHash : String} {tick : Tick} {x : Option Processing}
    (hx : Begun lastHash tick x) {entry : LogEntry JsTree} {rest : List (LogEntry JsTree)}
    {id : String} {timestamp : Timestamp} {prevHash hash : String} :
    x ≠ some ⟨entry, rest, .signing id timestamp prevHash hash⟩ := by
  intro heq
  rcases hx _ _ _ heq with h | h <;> exact nomatch h

/-- The entry whose event a local step appends is being hashed or has its hash. -/
theorem processing_of_appended (ha : Local a) (he : appended p s a = some e) :
    (∃ entry rest id timestamp prevHash tick, a = .queue .hashed tick ∧
        s.processing = some ⟨entry, rest, .hashing id timestamp prevHash⟩) ∨
      ∃ entry rest id timestamp prevHash hash,
        s.processing = some ⟨entry, rest, .signing id timestamp prevHash hash⟩ := by
  unfold appended at he
  split at he
  · split at he
    · rename_i hx _
      exact .inl ⟨_, _, _, _, _, _, rfl, hx⟩
    · exact nomatch he
  · split at he
    · rename_i hx
      exact .inr ⟨_, _, _, _, _, _, hx⟩
    · exact nomatch he
  · exact ha.elim
  · exact nomatch he

section

variable (hb : Blocked k bad s)
include hb

/-- The bad entry is never appended, so the ledger does not get past it. -/
theorem Blocked.ledger_step (hs : InOrder p h s) (hidx : AtIndex k bad s)
    (ha : Local a) (hbad : Unhashable bad s a) (hstep : step p s a = some t) :
    t.history.ledger.length ≤ k := by
  obtain ⟨hledger, -⟩ := step_ledger hstep
  rw [hledger, length_append]
  cases he : appended p s a with
  | none => exact hb.ledger
  | some e =>
    -- an event appended at position `k` would be that of the bad entry
    have hne : s.history.ledger.length ≠ k := by
      rintro rfl
      rcases processing_of_appended ha he with
        ⟨entry, rest, id, timestamp, prevHash, tick, rfl, hx⟩ |
        ⟨entry, rest, id, timestamp, prevHash, hash, hx⟩
      · exact hbad _ hx (hidx _ (hs.next_entry hx rfl))
      · exact hb.signing _ _ _ _ _ _ hx (hidx _ (hs.next_entry hx rfl))
    exact Nat.lt_of_le_of_ne hb.ledger hne

theorem Blocked.signing_step (ha : Local a) (hbad : Unhashable bad s a)
    (hstep : step p s a = some t) :
    ∀ entry rest id timestamp prevHash hash,
      t.processing = some ⟨entry, rest, .signing id timestamp prevHash hash⟩ → entry ≠ bad := by
  intro entry rest id timestamp prevHash hash hx
  cases localStep_of_step ha hstep with
  | beside h =>
    rcases h.begun with heq | ⟨-, tick, hbegun⟩
    · exact hb.signing _ _ _ _ _ _ (heq ▸ hx)
    · exact absurd hx hbegun.not_signing
  | queue _ hold hq =>
    cases hq with
    | sign =>
      cases hx
      exact hbad _ hold
    | appendUnsigned _ goes | appendSigned _ goes | leafAdded _ goes | mirrored goes
    | flushed _ goes => exact absurd hx goes.begun.not_signing
    | hashRejected | signRejected | leafRejected => exact nomatch hx
  | flush _ =>
    obtain ⟨-, -, hproc, -⟩ := flushSettled_ledger (p := p) s _ _
    exact hb.signing _ _ _ _ _ _ (hproc ▸ hx)

/-- The bad entry stays in the way. -/
theorem Blocked.step (hs : InOrder p h s) (hidx : AtIndex k bad s)
    (ha : Local a) (hbad : Unhashable bad s a) (hstep : step p s a = some t) :
    Blocked k bad t :=
  ⟨hb.ledger_step hs hidx ha hbad hstep, hb.signing_step ha hbad hstep⟩

/-- What is not in the ledger cannot be written. -/
theorem written_le_of_blocked (hs : InOrder p h s) {f : Flush}
    (hf : s.flushing = some f) (failAt : Option ℕ) :
    s.history.flushed.length + (written f.batch failAt).length ≤ k := by
  obtain ⟨rest, hrest⟩ := written_append f.batch failAt
  have hbatch : (written f.batch failAt).length ≤ f.batch.length := by
    rw [hrest, length_append, ← hrest]
    exact Nat.le_add_right _ _
  have hledger : s.history.ledger.length =
      s.history.flushed.length + (f.batch.length + s.auditBuffer.length) := by
    rw [hs.ledger, buffered, hf, length_append, length_append]
    rfl
  have hblk := hb.ledger
  omega

end

/-! ### Executions -/

variable (p) in
/-- Whatever does not concern `bad` succeeds in this step. -/
def OthersSucceed (bad : LogEntry JsTree) (s : AuditService) : Action → Prop
  | .queue .hashRejected _ => ∀ x, s.processing = some x → x.entry = bad
  | .queue .signRejected _ => False
  | .flushSettled (some _) => ∃ f, s.flushing = some f ∧ ∃ e ∈ f.batch, LoggedAs p bad e
  | _ => True

/-- An execution of local logging in which all goes well apart from accepted entry `k`, which is
`bad`: it can never be hashed, or its event can never be stored. -/
structure OneBadEvent (x : Machine.Execution (AuditService.step p) (.start h r))
    (bad : LogEntry JsTree) (k : ℕ) : Prop where
  occurs : ∃ n, (x.state n).history.accepted[k]? = some bad
  isLocal : ∀ n, Local (x.label n)
  fault : (∀ n, Unhashable bad (x.state n) (x.label n)) ∨
    ∀ n, Unstorable p bad (x.state n) (x.label n)
  others : ∀ n, OthersSucceed p bad (x.state n) (x.label n)
  queueSettles : ∀ n, ∃ m ≥ n, (x.state m).processing = none ∨
    ∃ reply tick, x.label m = .queue reply tick
  flushSettles : ∀ n, ∃ m ≥ n, (x.state m).flushing = none ∨
    ∃ failAt, x.label m = .flushSettled failAt
  logs : ∀ n, ∃ m ≥ n, ∃ entry tick, x.label m = .logEvent entry tick
  flushes : ∀ n, ∃ m ≥ n, x.label m = .flushBuffer

section Execution

variable (x : Machine.Execution (AuditService.step p) (.start h r))

/-- An accepted entry keeps its position. -/
theorem accepted_forever {m n i : ℕ} {entry : LogEntry JsTree} (hmn : m ≤ n)
    (hm : (x.state m).history.accepted[i]? = some entry) :
    (x.state n).history.accepted[i]? = some entry := by
  refine x.forever (P := fun s ↦ s.history.accepted[i]? = some entry) ?_ hmn hm
  intro n hs
  obtain ⟨new, hnew, -⟩ := step_accepted (x.next n)
  obtain ⟨hlt, -⟩ := List.getElem?_eq_some_iff.1 hs
  show (x.state (n + 1)).history.accepted[i]? = some entry
  rw [hnew, getElem?_append_left hlt]
  exact hs

/-- Two entries that have one position, at whatever times, are the same. -/
theorem accepted_unique {m n i : ℕ} {entry entry' : LogEntry JsTree}
    (hm : (x.state m).history.accepted[i]? = some entry)
    (hn : (x.state n).history.accepted[i]? = some entry') : entry = entry' := by
  have hm' := accepted_forever x (Nat.le_max_left m n) hm
  have hn' := accepted_forever x (Nat.le_max_right m n) hn
  exact some.inj (hm'.symm.trans hn')

theorem inOrder_execution (hlocal : ∀ n, Local (x.label n)) (n : ℕ) : InOrder p h (x.state n) :=
  x.invariant (inOrder_start h r) (fun m hs ↦ hs.step (hlocal m) (x.next m)) n

section Faults

variable (hlocal : ∀ n, Local (x.label n)) (hidx : ∀ n, AtIndex k bad (x.state n))
include hlocal hidx

/-- Nothing behind an entry that cannot be hashed gets to the repository. -/
theorem behind_of_unhashable (hbad : ∀ n, Unhashable bad (x.state n) (x.label n)) (n : ℕ) :
    Behind r k (x.state n) := by
  have hinv : ∀ n, Blocked k bad (x.state n) ∧ Behind r k (x.state n) := by
    refine x.invariant (P := fun s ↦ Blocked k bad s ∧ Behind r k s)
      ⟨blocked_start h r k bad, behind_start h r k⟩ fun m ⟨hblk, hb⟩ ↦ ?_
    have hs := inOrder_execution x hlocal m
    refine ⟨hblk.step hs (hidx m) (hlocal m) (hbad m) (x.next m), ?_⟩
    exact hb.step hs (hlocal m) (fun failAt f _ hf ↦ written_le_of_blocked hblk hs hf failAt)
      (x.next m)
  exact (hinv n).2

/-- Nothing behind an event that cannot be stored gets to the repository. -/
theorem behind_of_unstorable (hbad : ∀ n, Unstorable p bad (x.state n) (x.label n)) (n : ℕ) :
    Behind r k (x.state n) :=
  x.invariant (behind_start h r k) (fun m hb ↦
    hb.step_of_unstorable (inOrder_execution x hlocal m) (hidx m) (hlocal m) (hbad m)
      (x.next m)) n

theorem behind_of_fault (hfault : (∀ n, Unhashable bad (x.state n) (x.label n)) ∨
    ∀ n, Unstorable p bad (x.state n) (x.label n)) (n : ℕ) : Behind r k (x.state n) :=
  hfault.elim (behind_of_unhashable x hlocal hidx · n) (behind_of_unstorable x hlocal hidx · n)

end Faults

variable {x}

theorem OneBadEvent.behind (hx : OneBadEvent x bad k) (n : ℕ) : Behind r k (x.state n) := by
  obtain ⟨m, hm⟩ := hx.occurs
  exact behind_of_fault x hx.isLocal (fun _ _ hentry ↦ accepted_unique x hentry hm) hx.fault n

/-- An event with this payload is in the repository. -/
def Stored (s : AuditService) (payload : Payload JsTree) : Prop :=
  ∃ kv ∈ s.repo.items.entries, kv.2.toPayload = payload

/-- In every execution with one bad event: an entry that is accepted after it, and that can be told
from what was accepted or stored before, is never stored. -/
theorem bad_event_stops_ledger (hx : OneBadEvent x bad k) {n j : ℕ} {other : LogEntry JsTree}
    (hj : k < j) (hother : (x.state n).history.accepted[j]? = some other)
    (hnew : ∀ i < k, ∀ entry, (x.state n).history.accepted[i]? = some entry →
      entry.toPayload ≠ other.toPayload)
    (hfresh : ∀ kv ∈ r.items.entries, kv.2.toPayload ≠ other.toPayload) (m : ℕ) :
    ¬ Stored (x.state m) other.toPayload := by
  rintro ⟨kv, hkv, hpayload⟩
  rcases (hx.behind m).stored kv hkv with hold | ⟨i, hi, hledger⟩
  · exact hfresh kv hold hpayload
  · obtain ⟨entry, hentry, id, timestamp, prevHash, signature, hevent⟩ :=
      (inOrder_execution x hx.isLocal m).logged_at hledger
    -- position `i` is filled at time `n` too, since position `j` is
    obtain ⟨hlt, -⟩ := List.getElem?_eq_some_iff.1 hother
    have hget := getElem?_eq_getElem (Nat.lt_trans (Nat.lt_trans hi hj) hlt)
    refine hnew i hi entry ?_ ?_
    · rw [hget, accepted_unique x hentry hget]
    · rw [← hpayload, hevent]
      rfl

end Execution

/-! ### A client that logs and flushes in turns -/

/-- The client logs an event. -/
def logNext (n : ℕ) : Action := .logEvent (.plain (toString n)) ⟨toString n, n⟩

/-- The answer to what `processQueue` awaits. -/
def answer (n : ℕ) (s : AuditService) : Action :=
  match s.processing with
  | none => logNext n
  | some ⟨entry, _, stage⟩ =>
    match stage with
    | .hashing .. => .queue (if entry.hashable then .hashed else .hashRejected) ⟨toString n, n⟩
    | .signing .. => .queue (.signed "") ⟨toString n, n⟩
    | .addingLeaf _ => .queue .leafAdded ⟨toString n, n⟩
    | .mirroring => .queue .mirrored ⟨toString n, n⟩
    | .flushing =>
      if s.flushing.any (·.byQueue) then logNext n else .queue .flushed ⟨toString n, n⟩

/-- Log an event, flush, answer the write, answer `processQueue`, and again. The first event is
`first`, and `settle` says how a write ends. -/
def inTurns (first : LogEntry RawData) (settle : Flush → Option ℕ) (n : ℕ) (s : AuditService) :
    Action :=
  match n % 4 with
  | 0 => if n = 0 then .logEvent first ⟨"0", 0⟩ else logNext n
  | 1 => .flushBuffer
  | 2 =>
    match s.flushing with
    | some f => .flushSettled (settle f)
    | none => logNext n
  | _ => answer n s

theorem isSome_step_answer (n : ℕ) (s : AuditService) : (step p s (answer n s)).isSome = true := by
  unfold answer
  split
  · rfl
  · rename_i entry rest stage hx
    cases stage with
    | hashing =>
      dsimp only
      split
      · simp only [step, resumeQueue, hx]
        rcases p.tpm <;> rfl
      · simp only [step, resumeQueue, hx]
        rfl
    | signing | addingLeaf | mirroring =>
      simp only [step, resumeQueue, hx]
      rfl
    | flushing =>
      dsimp only
      split
      · rfl
      · rename_i hany
        simp only [step, resumeQueue, hx, if_neg hany]
        rfl

section InTurns

variable {first : LogEntry RawData} {settle : Flush → Option ℕ} {n : ℕ}

theorem isSome_step_inTurns (n : ℕ) (s : AuditService) :
    (step p s (inTurns first settle n s)).isSome = true := by
  unfold inTurns
  split
  · split <;> rfl
  · rfl
  · split
    · rename_i f hf
      simp [step, hf]
    · rfl
  · exact isSome_step_answer n s

variable (p first settle) in
/-- The execution, from an empty repository. -/
def loggingInTurns : Machine.Execution (AuditService.step p) (.start "GENESIS" .empty) :=
  .ofPolicy (inTurns first settle) isSome_step_inTurns _

variable (first settle) in
/-- What the labels can be. -/
inductive Move (s : AuditService) : Action → Prop
  | log {entry tick} (h : entry = first ∨ entry.actor = none) : Move s (.logEvent entry tick)
  | flush : Move s .flushBuffer
  | settle {f} (h : s.flushing = some f) : Move s (.flushSettled (settle f))
  | hash {entry rest id timestamp prevHash tick}
      (h : s.processing = some ⟨entry, rest, .hashing id timestamp prevHash⟩) :
      Move s (.queue (if entry.hashable then .hashed else .hashRejected) tick)
  | goOn {reply tick} (h : reply = .signed "" ∨ reply = .leafAdded ∨ reply = .mirrored ∨
      reply = .flushed) : Move s (.queue reply tick)

theorem move_logNext (n : ℕ) (s : AuditService) : Move first settle s (logNext n) := .log (.inr rfl)

theorem move_answer (n : ℕ) (s : AuditService) : Move first settle s (answer n s) := by
  unfold answer
  split
  · exact move_logNext n s
  · rename_i entry rest stage hx
    cases stage with
    | hashing => exact .hash hx
    | signing => exact .goOn (.inl rfl)
    | addingLeaf => exact .goOn (.inr (.inl rfl))
    | mirroring => exact .goOn (.inr (.inr (.inl rfl)))
    | flushing =>
      dsimp only
      split
      · exact move_logNext n s
      · exact .goOn (.inr (.inr (.inr rfl)))

theorem move_inTurns (n : ℕ) (s : AuditService) :
    Move first settle s (inTurns first settle n s) := by
  unfold inTurns
  split
  · split
    · exact .log (.inl rfl)
    · exact move_logNext n s
  · exact .flush
  · split
    · rename_i hf
      exact .settle hf
    · exact move_logNext n s
  · exact move_answer n s

theorem Move.isLocal (ha : Move first settle s a) : Local a := by
  cases ha with
  | log | flush | settle => trivial
  | @hash entry => cases entry.hashable <;> trivial
  | goOn h => rcases h with rfl | rfl | rfl | rfl <;> trivial

/-- Only what is hashable is hashed. -/
theorem Move.unhashable (ha : Move first settle s a) (hfirst : first.sanitized.hashable = false) :
    Unhashable first.sanitized s a := by
  cases ha with
  | log | flush | settle => trivial
  | @hash entry rest id timestamp prevHash tick hx =>
    cases hhash : entry.hashable with
    | false => trivial
    | true =>
      intro x hx' hbad
      obtain rfl := some.inj (hx.symm.trans hx')
      have hdeep : entry = first.sanitized := hbad
      rw [hdeep, hfirst] at hhash
      exact nomatch hhash
  | goOn h => rcases h with rfl | rfl | rfl | rfl <;> trivial

/-- When writes store nothing, the bad event is not stored. -/
theorem Move.unstorable (ha : Move first settle s a)
    (hsettle : ∀ f, written f.batch (settle f) = []) : Unstorable p first.sanitized s a := by
  cases ha with
  | log | flush => trivial
  | @settle f hf =>
    intro f' hf' e he
    obtain rfl := some.inj (hf.symm.trans hf')
    rw [hsettle] at he
    exact nomatch he
  | @hash entry => cases entry.hashable <;> trivial
  | goOn h => rcases h with rfl | rfl | rfl | rfl <;> trivial

variable (first) in
/-- Every accepted entry but the first is hashable. -/
def Hashable (s : AuditService) : Prop :=
  ∀ x ∈ s.history.accepted, x.hashable = true ∨ x = first.sanitized

/-- Other entries stay hashable. -/
theorem Hashable.step (hs : Hashable first s) (ha : Move first settle s a)
    (hstep : step p s a = some t) : Hashable first t := by
  cases ha with
  | @log entry tick horig =>
    obtain rfl := some.inj hstep
    obtain ⟨new, hnew, hbeside⟩ := s.beside_logEvent entry tick
    intro x hx
    rw [hbeside.accepted] at hx
    rcases mem_append.1 hx with hx | hx
    · exact hs x hx
    · rw [mem_singleton.1 (hnew hx), LogEntry.hashable_sanitized]
      rcases horig with rfl | hactor
      · exact .inr rfl
      · exact .inl (by rw [hactor]; rfl)
  | flush =>
    obtain rfl := some.inj hstep
    rw [(s.flushBuffer_eq false).1]
    exact hs
  | settle =>
    obtain ⟨f, -, rfl⟩ := map_eq_some_iff.1 hstep
    rw [Hashable, (flushSettled_queue s f _).2.2]
    exact hs
  | hash | goOn =>
    obtain ⟨x, -, hq⟩ := queueStep_of_resumeQueue hstep
    rw [Hashable, hq.accepted]
    exact hs

theorem Move.othersSucceed (ha : Move first settle s a) (hs : InOrder p h s)
    (hhash : Hashable first s)
    (hsettle : ∀ f i, s.flushing = some f → settle f = some i →
      ∃ e ∈ f.batch, LoggedAs p first.sanitized e) : OthersSucceed p first.sanitized s a := by
  cases ha with
  | log | flush => trivial
  | @settle f hf =>
    cases hi : settle f with
    | none => trivial
    | some i => exact ⟨f, hf, hsettle f i hf hi⟩
  | @hash entry rest id timestamp prevHash tick hx =>
    cases hentry : entry.hashable with
    | true => trivial
    | false =>
      intro x hx'
      obtain rfl := some.inj (hx.symm.trans hx')
      have hacc : entry ∈ s.history.accepted := mem_of_getElem? (hs.next_entry hx rfl)
      rcases hhash entry hacc with hyes | heq
      · rw [hentry] at hyes
        exact nomatch hyes
      · exact heq
  | goOn h => rcases h with rfl | rfl | rfl | rfl <;> trivial

variable {x : Execution (step p) (.start h r)}
  (hx : ∀ n, x.label n = inTurns first settle n (x.state n))
include hx

/-- When it is the turn of `processQueue`, no write is in progress. -/
theorem flushing_inTurns (n : ℕ) : (x.state (4 * n + 3)).flushing = none := by
  have hnext := x.next (4 * n + 2)
  simp only [hx, inTurns, show (4 * n + 2) % 4 = 2 by omega] at hnext
  generalize x.state (4 * n + 2) = s at hnext
  rcases hf : s.flushing with - | f <;> rw [hf] at hnext
  · rw [← some.inj hnext]
    rcases s.logEvent_cases (.plain (toString (4 * n + 2))) ⟨toString (4 * n + 2), (4 * n + 2 : ℕ)⟩
      with ⟨-, heq⟩ | ⟨-, heq, -, -⟩
    · rw [heq, hf]
    · rw [heq]
      exact hf
  · have hsettled : s.flushSettled p f (settle f) = x.state (4 * n + 3) := by
      simpa [step, hf] using hnext
    rw [← hsettled]
    exact (flushSettled_queue s f _).1

theorem queue_inTurns (n : ℕ) : (x.state (4 * n + 3)).processing = none ∨
    ∃ reply tick, x.label (4 * n + 3) = .queue reply tick := by
  have hflushing := flushing_inTurns hx n
  simp only [hx, inTurns, show (4 * n + 3) % 4 = 3 by omega, answer]
  generalize x.state (4 * n + 3) = s at hflushing
  rcases hx : s.processing with - | ⟨entry, rest, stage⟩
  · exact .inl rfl
  · right
    cases stage with
    | hashing | signing | addingLeaf | mirroring => exact ⟨_, _, rfl⟩
    | flushing =>
      rw [hflushing]
      exact ⟨_, _, rfl⟩

theorem flush_inTurns (n : ℕ) : (x.state (4 * n + 2)).flushing = none ∨
    ∃ failAt, x.label (4 * n + 2) = .flushSettled failAt := by
  simp only [hx, inTurns, show (4 * n + 2) % 4 = 2 by omega]
  rcases (x.state (4 * n + 2)).flushing with - | f
  · exact .inl rfl
  · exact .inr ⟨_, rfl⟩

/-- The turns are fair. What remains is the fault itself. -/
theorem oneBadEvent_inTurns (hoccurs : (x.state 1).history.accepted[0]? = some first.sanitized)
    (hfault : first.sanitized.hashable = false ∨ ∀ f, written f.batch (settle f) = [])
    (hsettle : ∀ s f i, InOrder p h s → Behind r 0 s → AtIndex 0 first.sanitized s →
      s.flushing = some f → settle f = some i → ∃ e ∈ f.batch, LoggedAs p first.sanitized e) :
    OneBadEvent x first.sanitized 0 := by
  have hmove (n : ℕ) : Move first settle (x.state n) (x.label n) := hx n ▸ move_inTurns n _
  have hlocal (n : ℕ) := (hmove n).isLocal
  have hhash : ∀ n, Hashable first (x.state n) :=
    x.invariant (fun _ hx ↦ nomatch hx) fun n hs ↦ hs.step (hmove n) (x.next n)
  have hidx (n : ℕ) : AtIndex 0 first.sanitized (x.state n) :=
    fun _ hentry ↦ accepted_unique x hentry hoccurs
  have hbad := hfault.imp (fun hfirst n ↦ (hmove n).unhashable hfirst)
    fun hwritten n ↦ (hmove n).unstorable (p := p) hwritten
  refine ⟨⟨1, hoccurs⟩, hlocal, hbad, fun n ↦ ?_, fun n ↦ ?_, fun n ↦ ?_, fun n ↦ ?_, fun n ↦ ?_⟩
  · have hs := inOrder_execution x hlocal n
    have hbehind := behind_of_fault x hlocal hidx hbad n
    exact (hmove n).othersSucceed hs (hhash n) fun f i ↦ hsettle _ f i hs hbehind (hidx n)
  · exact ⟨4 * n + 3, by omega, queue_inTurns hx n⟩
  · exact ⟨4 * n + 2, by omega, flush_inTurns hx n⟩
  · have hlabel : x.label (4 * n + 4) = logNext (4 * n + 4) := by
      simp [hx, inTurns]
    exact ⟨4 * n + 4, by omega, _, _, hlabel⟩
  · refine ⟨4 * n + 1, by omega, ?_⟩
    simp only [hx, inTurns, show (4 * n + 1) % 4 = 1 by omega]

end InTurns

/-! ### An actor that is nested too deeply -/

/-- A value with `n` levels of objects. -/
def nested : ℕ → JsTree
  | 0 => .null
  | n + 1 => .obj [("of", nested n)]

/-- An event whose actor cannot be hashed. -/
def deepEntry : LogEntry RawData := { LogEntry.plain "login" with actor := some (nested 10) }

theorem hashable_deepEntry : deepEntry.sanitized.hashable = false := by
  decide

theorem oneBadEvent_deepEntry :
    OneBadEvent (loggingInTurns p deepEntry fun _ ↦ none) deepEntry.sanitized 0 :=
  oneBadEvent_inTurns (fun _ ↦ rfl) rfl (.inl hashable_deepEntry) fun _ _ _ _ _ _ _ hi ↦ nomatch hi

/-! ### An event that is refused by the store -/

/-- A write of anything is refused as a whole. -/
def refuse (f : Flush) : Option ℕ := if f.batch = [] then none else some 0

theorem written_refuse (f : Flush) : written f.batch (refuse f) = [] := by
  unfold refuse
  split
  · rename_i hempty
    rw [hempty]
    rfl
  · exact written_zero f.batch

/-- As long as the first event is not stored, every batch begins with it. -/
theorem exists_first_mem_batch (hs : InOrder p h s) (hb : Behind r 0 s) (hidx : AtIndex 0 bad s)
    {f : Flush} (hf : s.flushing = some f) (hne : f.batch ≠ []) :
    ∃ e ∈ f.batch, LoggedAs p bad e := by
  obtain ⟨e, es, hbatch⟩ := exists_cons_of_ne_nil hne
  have hflushed : s.history.flushed = [] := length_eq_zero_iff.1 (Nat.le_zero.1 hb.flushed)
  have hledger : s.history.ledger[0]? = some e := by
    rw [hs.ledger, hflushed, buffered, hf, batch, hbatch]
    rfl
  obtain ⟨entry, hentry, hlog⟩ := hs.logged_at hledger
  rw [hidx entry hentry] at hlog
  exact ⟨e, hbatch ▸ mem_cons_self, hlog⟩

theorem oneBadEvent_refused : OneBadEvent (loggingInTurns p (.plain "login") refuse)
    (LogEntry.plain "login" : LogEntry RawData).sanitized 0 := by
  refine oneBadEvent_inTurns (fun _ ↦ rfl) rfl (.inr written_refuse)
    fun s f i hs hb hidx hf hi ↦ exists_first_mem_batch hs hb hidx hf fun hempty ↦ ?_
  rw [refuse, if_pos hempty] at hi
  exact nomatch hi

/-- The event logged next is accepted and never stored. -/
theorem bad_event_stops_ledger_deepActor :
    ∃ x : Machine.Execution (AuditService.step (.sample HashInput.id none))
        (.start "GENESIS" .empty),
      OneBadEvent x deepEntry.sanitized 0 ∧
      ∀ m, ¬ Stored (x.state m) (LogEntry.plain "2").toPayload :=
  ⟨loggingInTurns _ deepEntry fun _ ↦ none, oneBadEvent_deepEntry, fun m ↦
    have haccepted : ((loggingInTurns (.sample HashInput.id none) deepEntry fun _ ↦ none).state
        3).history.accepted[1]? = some (.plain "2") := rfl
    bad_event_stops_ledger oneBadEvent_deepEntry Nat.zero_lt_one haccepted
      (fun _ hi ↦ nomatch hi) (fun _ hkv ↦ nomatch hkv) m⟩

theorem OneBadEvent.entries_eq_nil
    {x : Execution (step p) (.start h .empty)} (hx : OneBadEvent x bad 0)
    (n : ℕ) : (x.state n).repo.items.entries = [] := by
  refine eq_nil_iff_forall_not_mem.2 fun kv hkv ↦ ?_
  rcases (hx.behind n).stored kv hkv with hold | ⟨i, hi, -⟩
  · exact nomatch hold
  · exact nomatch hi

/-- The first event has an actor with ten levels of objects, or is refused by the store. All else
goes well, another event is accepted, and the repository stays empty for ever. -/
theorem first_event_stops_ledger :
    (∃ x : Machine.Execution (AuditService.step (.sample HashInput.id none))
        (.start "GENESIS" .empty), OneBadEvent x deepEntry.sanitized 0 ∧
      (x.state 3).history.accepted.map (fun entry ↦ entry.message) = ["login", "2"] ∧
      ∀ n, (x.state n).repo.items.entries = []) ∧
    ∃ x : Machine.Execution (AuditService.step (.sample HashInput.id none))
        (.start "GENESIS" .empty),
      OneBadEvent x (LogEntry.plain "login" : LogEntry RawData).sanitized 0 ∧
      (x.state 3).history.accepted.map (fun entry ↦ entry.message) = ["login", "2"] ∧
      ∀ n, (x.state n).repo.items.entries = [] :=
  ⟨⟨_, oneBadEvent_deepEntry, rfl, oneBadEvent_deepEntry.entries_eq_nil⟩,
    ⟨_, oneBadEvent_refused, rfl, oneBadEvent_refused.entries_eq_nil⟩⟩

/-! ### A queue that is too long -/

/-- `processQueue` is not running and the queue is over its bound. -/
structure Saturated (s : AuditService) : Prop where
  processing : s.processing = none
  logQueue : maxQueueDepth < s.logQueue.length

section

variable (hs : Saturated s)
include hs

theorem Saturated.accepts (entry : LogEntry RawData) : s.accepts entry = false := by
  simp [AuditService.accepts, hs.logQueue]

/-- Nobody calls `processQueue` any more, whatever happens. -/
theorem Saturated.step (hstep : step p s a = some t) :
    t.processing = s.processing ∧ t.logQueue = s.logQueue := by
  cases a with
  | logEvent entry tick =>
    obtain rfl := some.inj hstep
    rw [logEvent, hs.accepts]
    exact ⟨rfl, rfl⟩
  | queue reply tick =>
    obtain ⟨x, hx, -⟩ := queueStep_of_resumeQueue hstep
    rw [hs.processing] at hx
    exact nomatch hx
  | flushBuffer =>
    obtain rfl := some.inj hstep
    rw [(s.flushBuffer_eq false).1]
    exact ⟨rfl, rfl⟩
  | flushSettled failAt =>
    obtain ⟨f, -, rfl⟩ := map_eq_some_iff.1 hstep
    obtain ⟨-, hqueue, -⟩ := flushSettled_queue (p := p) s f failAt
    obtain ⟨-, -, hproc, -⟩ := flushSettled_ledger (p := p) s f failAt
    exact ⟨hproc, hqueue⟩
  | commitMerkleRoot =>
    obtain rfl := some.inj hstep
    exact ⟨s.sameQueue_commitMerkleRoot.processing, s.sameQueue_commitMerkleRoot.logQueue⟩
  | commit i reply tick =>
    obtain ⟨c, -, hc⟩ := commitStep_of_resumeCommit hstep
    cases hc with
    | logUnsigned | logSigned =>
      rw [logCommit_of_full hs.logQueue]
      exact ⟨rfl, rfl⟩
    | swap | blocked | sign | rootRejected | signRejected | logged => exact ⟨rfl, rfl⟩
  | syncEvents events =>
    rw [step] at hstep
    split at hstep <;> obtain rfl := some.inj hstep <;> exact ⟨rfl, rfl⟩
  | sync i reply =>
    rcases resumeSync_cases hstep with ⟨e, rest, -, -, rfl⟩ | ⟨-, heq, -⟩
    · rw [advance_eq]
      exact ⟨rfl, rfl⟩
    · rw [heq]
      exact ⟨rfl, rfl⟩

/-- A saturated queue stays as it is in every run, even if all its entries could be hashed now. -/
theorem saturated_run {as : List Action} (hrun : run (step p) s as = some t) :
    t.processing = none ∧ t.logQueue = s.logQueue := by
  refine run_invariant' (P := fun t ↦ t.processing = none ∧ t.logQueue = s.logQueue) ?_
    ⟨hs.processing, rfl⟩ hrun
  rintro u a v ⟨hproc, hqueue⟩ hstep
  have hsaturated : Saturated u := ⟨hproc, hqueue ▸ hs.logQueue⟩
  obtain ⟨hproc', hqueue'⟩ := hsaturated.step hstep
  exact ⟨hproc'.trans hproc, hqueue'.trans hqueue⟩

end

/-- A queue with one entry too many. -/
def fullQueue : AuditService :=
  { start "GENESIS" .empty with logQueue := .replicate 5001 (LogEntry.plain "login") }

/-- Another event, and a flush. -/
theorem saturated_run_fullQueue : ∃ t,
    run (step (.sample HashInput.message none)) fullQueue
      [.logEvent (LogEntry.plain "logout") ⟨"u", 0⟩, .flushBuffer] = some t ∧
    t.processing = none ∧ t.logQueue = fullQueue.logQueue := by
  have hs : Saturated fullQueue := ⟨rfl, by rw [fullQueue, List.length_replicate]; decide⟩
  have hrun : run (step (.sample HashInput.message none)) fullQueue
      [.logEvent (LogEntry.plain "logout") ⟨"u", 0⟩, .flushBuffer] = some _ := rfl
  exact ⟨_, hrun, saturated_run hs hrun⟩

end AuditService

end Audit
