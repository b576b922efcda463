import CounterTerrorist.Audit.Steps

/-!
# No entry is lost, repeated or reordered

Between `logEvent` and the repository an entry passes through three buffers that are swapped out and
filled again when a promise is rejected. `Conserved` says where it can be: the accepted entries are
those in the ledger and then the pending ones, in the order of acceptance, and the ledger is what
has been stored and then what is buffered.

This holds for every interleaving of `logEvent`, `processQueue`, `flushBuffer` and
`commitMerkleRoot`, with any pattern of rejected hashes, signatures and writes, as long as a write
stores its whole batch or nothing. `Retrying` excludes two cases: remote events, which move the
chain head under an entry that is being hashed, and a rejected update of `merkleTree`, after which
an entry in the ledger is queued a second time.
-/

namespace Audit

open Core HashChain List Machine AuditService

namespace AuditService

variable (p : Ports)

/-- `e` is the ledger event of `entry`. -/
def LoggedAs (entry : LogEntry JsTree) (e : AuditEvent) : Prop :=
  ∃ id timestamp prevHash signature, e = makeEvent p entry id timestamp prevHash
    (p.computeHash (entryInput entry id timestamp prevHash)) signature

/-- What an entry under way holds: the chain head it was begun with and, once computed, its hash. -/
def Prepared (lastHash : String) (x : Option Processing) : Prop :=
  ∀ entry rest stage, x = some ⟨entry, rest, stage⟩ →
    match stage with
    | .hashing _ _ prevHash => prevHash = lastHash
    | .signing id timestamp prevHash hash =>
      prevHash = lastHash ∧ hash = p.computeHash (entryInput entry id timestamp prevHash)
    | _ => True

/-- The invariant without the repository, for a service that started with chain head `h`. -/
structure InOrder (h : String) (s : AuditService) : Prop where
  syncs : s.syncs = []
  ledger : s.history.ledger = s.history.flushed ++ s.buffered
  accepted : ∃ done, s.history.accepted = done ++ s.pending ∧
    List.Forall₂ (LoggedAs p) done s.history.ledger
  linked : Linked AuditEvent.prevHash AuditEvent.hash (fun _ ↦ False) h s.history.ledger
  head : s.lastHash = headOf AuditEvent.hash h s.history.ledger
  prepared : Prepared p s.lastHash s.processing

/-- The invariant, for a service that started on repository `r`. -/
structure Conserved (h : String) (r : KvAuditRepository) (s : AuditService) : Prop
    extends InOrder p h s where
  store : s.repo.items = r.items.setAll (p.keyed s.history.flushed)

/-- The steps of local logging. -/
def Local : Action → Prop
  | .queue .leafRejected _ => False
  | .syncEvents _ | .sync .. => False
  | _ => True

/-- The steps of local logging, where a write stores its batch or nothing. -/
def Retrying : Action → Prop
  | .queue .leafRejected _ => False
  | .flushSettled failAt => failAt = none ∨ failAt = some 0
  | .syncEvents _ | .sync .. => False
  | _ => True

variable {p} {h : String} {r : KvAuditRepository} {s t : AuditService}

theorem inOrder_start (h : String) (r : KvAuditRepository) : InOrder p h (.start h r) :=
  ⟨rfl, rfl, ⟨[], rfl, .nil⟩, linked_nil, rfl, fun _ _ _ hx ↦ nomatch hx⟩

theorem conserved_start (h : String) (r : KvAuditRepository) : Conserved p h r (.start h r) :=
  ⟨inOrder_start h r, rfl⟩

variable {a : Action} {tick : Tick}

theorem Retrying.isLocal (ha : Retrying a) : Local a := by
  cases a with
  | queue reply _ => cases reply <;> exact ha
  | syncEvents | sync => exact ha
  | _ => trivial

theorem Begun.prepared {lastHash : String} {x : Option Processing} (hx : Begun lastHash tick x) :
    Prepared p lastHash x := by
  intro entry rest stage heq
  rcases hx entry rest stage heq with rfl | hlog
  · rfl
  · cases stage with
    | hashing | signing => exact nomatch hlog
    | addingLeaf | mirroring | flushing => trivial

/-! ### The parts of a step -/

/-- A step that leaves the ledger alone keeps the invariant when it keeps the entries. -/
theorem InOrder.of_sameLedger (hs : InOrder p h s) (same : SameLedger s t)
    (queued : ∃ new, t.history.accepted = s.history.accepted ++ new ∧ t.pending = s.pending ++ new)
    (prepared : Prepared p t.lastHash t.processing) : InOrder p h t := by
  obtain ⟨done, hdone, hlog⟩ := hs.accepted
  obtain ⟨new, hacc, hpend⟩ := queued
  refine ⟨?_, ?_, ⟨done, ?_, ?_⟩, ?_, ?_, prepared⟩
  · rw [same.syncs, hs.syncs]
  · rw [same.ledger, same.flushed, same.buffered, hs.ledger]
  · rw [hacc, hpend, hdone, append_assoc]
  · rwa [same.ledger]
  · rw [same.ledger]
    exact hs.linked
  · rw [same.lastHash, same.ledger, hs.head]

theorem InOrder.beside (hs : InOrder p h s) {new : List (LogEntry JsTree)}
    (hb : Beside s new t) : InOrder p h t := by
  refine hs.of_sameLedger hb.same ⟨new, hb.accepted, hb.pending⟩ ?_
  rw [hb.same.lastHash]
  rcases hb.begun with heq | ⟨-, tick, hbegun⟩
  · rw [heq]
    exact hs.prepared
  · exact hbegun.prepared

variable {entry : LogEntry JsTree} {rest : List (LogEntry JsTree)} {stage : Stage}

/-- Going on after an entry that is in the ledger. -/
theorem InOrder.goesOn (hs : InOrder p h s) {u : AuditService}
    (hx : s.processing = some ⟨entry, rest, stage⟩) (hlog : logged stage = true)
    (hu : SameQueue s u) (hgoes : GoesOn u rest tick t) : InOrder p h t := by
  refine hs.of_sameLedger (hu.same.trans hgoes.sameLedger) ⟨[], ?_, ?_⟩ ?_
  · rw [hgoes.accepted, hu.accepted, append_nil]
  · rw [hgoes.pending, hu.logQueue, append_nil, pending, hx, unlogged, if_pos hlog]
  · rw [hgoes.sameLedger.lastHash]
    exact hgoes.begun.prepared

/-- Appending the event of the entry under way. -/
theorem InOrder.append (hs : InOrder p h s) {entry : LogEntry JsTree}
    {rest : List (LogEntry JsTree)} {stage : Stage} {tick : Tick} {id : String}
    {timestamp : Timestamp} {prevHash : String} {signature : Option String}
    (hx : s.processing = some ⟨entry, rest, stage⟩) (hlog : logged stage = false)
    (hprev : prevHash = s.lastHash)
    (hgoes : GoesOn (s.withEvent (makeEvent p entry id timestamp prevHash
      (p.computeHash (entryInput entry id timestamp prevHash)) signature)) rest tick t) :
    InOrder p h t := by
  obtain ⟨done, hdone, hforall⟩ := hs.accepted
  have same := hgoes.sameLedger
  refine ⟨?_, ?_, ⟨done ++ [entry], ?_, ?_⟩, ?_, ?_, ?_⟩
  · rw [same.syncs]
    exact hs.syncs
  · rw [same.ledger, same.flushed, same.buffered]
    simp [withEvent, hs.ledger, buffered]
  · rw [hgoes.accepted, hgoes.pending]
    simp [withEvent, hdone, pending, hx, unlogged, hlog]
  · rw [same.ledger]
    exact rel_append hforall (.cons ⟨id, timestamp, prevHash, signature, rfl⟩ .nil)
  · rw [same.ledger]
    exact linked_concat.2 ⟨hs.linked, .inl (hprev.trans hs.head)⟩
  · rw [same.lastHash, same.ledger]
    simp [withEvent]
  · rw [same.lastHash]
    exact hgoes.begun.prepared

/-- Putting the entry under way back. -/
theorem InOrder.requeue (hs : InOrder p h s) (hx : s.processing = some ⟨entry, rest, stage⟩)
    (hlog : logged stage = false) : InOrder p h (s.requeue entry rest) := by
  refine hs.of_sameLedger ⟨rfl, rfl, rfl, rfl, rfl, rfl⟩ ⟨[], ?_, ?_⟩ fun _ _ _ hx ↦ nomatch hx
  · exact (append_nil _).symm
  · simp [pending, AuditService.requeue, hx, unlogged, hlog]

/-- The queue loop keeps the order. -/
theorem InOrder.queueStep (hs : InOrder p h s) {x : Processing} {reply : QueueReply}
    (hreply : reply ≠ .leafRejected) (hx : s.processing = some x)
    (hq : QueueStep p s tick x reply t) : InOrder p h t := by
  cases hq with
  | sign tpm =>
    refine hs.of_sameLedger ⟨rfl, rfl, rfl, rfl, rfl, rfl⟩ ⟨[], ?_, ?_⟩ ?_
    · exact (append_nil _).symm
    · simp [pending, hx, unlogged, logged]
    · rintro entry rest stage heq
      cases heq
      exact ⟨hs.prepared _ _ _ hx, rfl⟩
  | appendUnsigned _ goes => exact hs.append hx rfl (hs.prepared _ _ _ hx) goes
  | appendSigned signature goes =>
    obtain ⟨hprev, rfl⟩ := hs.prepared _ _ _ hx
    exact hs.append hx rfl hprev goes
  | hashRejected | signRejected => exact hs.requeue hx rfl
  | leafAdded record goes => exact hs.goesOn hx rfl record goes
  | leafRejected => exact absurd rfl hreply
  | mirrored goes | flushed _ goes => exact hs.goesOn hx rfl (.refl s) goes

/-- Settling a write moves the whole batch to the stored events, or leaves it at the front of the
buffer. What is written is a first part of the batch, all of it in the first case. -/
theorem flushSettled_cases (s : AuditService) (f : Flush) (failAt : Option ℕ) :
    ∃ repo, repo.items = s.repo.items.setAll (p.keyed (written f.batch failAt)) ∧
      ((written f.batch failAt = f.batch ∧ s.flushSettled p f failAt = { s with
          repo := repo, flushing := none
          history := { s.history with flushed := s.history.flushed ++ f.batch } }) ∨
        ((p.saveMany s.repo f.batch failAt).1 = false ∧ s.flushSettled p f failAt = { s with
          repo := repo, flushing := none, auditBuffer := f.batch ++ s.auditBuffer })) := by
  refine ⟨(p.saveMany s.repo f.batch failAt).2, p.saveMany_items s.repo f.batch failAt, ?_⟩
  rcases hsave : p.saveMany s.repo f.batch failAt with ⟨ok, repo⟩
  rw [flushSettled, hsave]
  cases ok with
  | true => exact .inl ⟨Ports.written_of_saveMany (congrArg Prod.fst hsave), rfl⟩
  | false => exact .inr ⟨rfl, rfl⟩

theorem InOrder.flushSettled (hs : InOrder p h s) {f : Flush} (hf : s.flushing = some f)
    (failAt : Option ℕ) : InOrder p h (s.flushSettled p f failAt) := by
  obtain ⟨repo, -, ⟨-, heq⟩ | ⟨-, heq⟩⟩ := flushSettled_cases (p := p) s f failAt
  all_goals
    rw [heq]
    refine ⟨hs.syncs, ?_, hs.accepted, hs.linked, hs.head, hs.prepared⟩
    simp [hs.ledger, buffered, hf, batch]

/-! ### Steps and runs -/

variable (p) in
/-- The kinds of local step. -/
inductive LocalStep (s : AuditService) : Action → AuditService → Prop
  | beside {a new t} (h : Beside s new t) : LocalStep s a t
  | queue {reply tick x t} (added : reply ≠ .leafRejected) (processing : s.processing = some x)
      (h : QueueStep p s tick x reply t) : LocalStep s (.queue reply tick) t
  | flush {failAt f} (flushing : s.flushing = some f) :
      LocalStep s (.flushSettled failAt) (s.flushSettled p f failAt)

theorem localStep_of_step (ha : Local a) (hstep : step p s a = some t) : LocalStep p s a t := by
  cases stepKind_of_step hstep with
  | beside _ _ hb => exact .beside hb
  | queue hx hq =>
    refine .queue ?_ hx hq
    rintro rfl
    exact ha
  | flush hf => exact .flush hf
  | sync _ label _ _ =>
    rcases label with ⟨events, rfl⟩ | ⟨i, reply, rfl⟩
    · exact ha.elim
    · exact ha.elim
  | remote _ => exact ha.elim

/-- Every local step keeps the order. -/
theorem InOrder.step (hs : InOrder p h s) (ha : Local a) (hstep : step p s a = some t) :
    InOrder p h t := by
  cases localStep_of_step ha hstep with
  | beside hb => exact hs.beside hb
  | queue added hx hq => exact hs.queueStep added hx hq
  | flush hf => exact hs.flushSettled hf _

/-- Every retrying step keeps all entries. -/
theorem Conserved.step (hs : Conserved p h r s) (ha : Retrying a) (hstep : step p s a = some t) :
    Conserved p h r t := by
  refine ⟨hs.toInOrder.step ha.isLocal hstep, ?_⟩
  cases localStep_of_step ha.isLocal hstep with
  | beside hb => rw [hb.same.repo, hb.same.flushed, hs.store]
  | queue _ _ hq => rw [hq.stored.1, hq.stored.2, hs.store]
  | flush hf =>
    rename_i failAt f
    obtain ⟨repo, hrepo, ⟨hall, heq⟩ | ⟨hfailed, heq⟩⟩ := flushSettled_cases (p := p) s f failAt
    · rw [heq]
      show repo.items = r.items.setAll (p.keyed (s.history.flushed ++ f.batch))
      rw [hrepo, hall, hs.store, ← OrderedStore.setAll_append, Ports.keyed, Ports.keyed,
        Ports.keyed, map_append]
    · rw [heq]
      show repo.items = r.items.setAll (p.keyed s.history.flushed)
      -- a write that failed has stored nothing
      rcases ha with rfl | rfl
      · rw [p.saveMany_none] at hfailed
        cases hfailed
      · rw [hrepo]
        exact hs.store

theorem conserved_run {as : List Action} (has : ∀ a ∈ as, Retrying a)
    (hrun : run (step p) (.start h r) as = some t) : Conserved p h r t :=
  run_invariant (fun hs ha hstep ↦ hs.step ha hstep) (conserved_start h r)
    (guarded_of_forall has) hrun

/-- Events with different keys all stay in the store. -/
theorem mem_setAll_keyed {es : List AuditEvent} (hkeys : (es.map p.key).Nodup) {e : AuditEvent}
    (he : e ∈ es) : (p.key e, e) ∈ (r.items.setAll (p.keyed es)).entries := by
  refine OrderedStore.mem_setAll.2 (.inl ?_)
  induction es using List.reverseRecOn with
  | nil => exact nomatch he
  | append_singleton es f ih =>
    rw [Ports.keyed, map_append, map_singleton, OrderedStore.lastWrite_concat]
    rw [map_append, nodup_append] at hkeys
    rcases mem_append.1 he with hmem | hmem
    · have hne : p.key f ≠ p.key e :=
        fun heq ↦ hkeys.2.2 _ (List.mem_map_of_mem hmem) _ (by simp) heq.symm
      rw [if_neg hne]
      exact ih hkeys.1 hmem
    · obtain rfl := mem_singleton.1 hmem
      rw [if_pos rfl]

/-- In every run of local logging, whenever neither `processQueue` nor `flushBuffer` is running:
the accepted entries are, in this order and each once, those of the stored events, of the buffered
events and those in the queue; the events are linked from the first chain head on; and the
repository holds what it held at first, overwritten by the stored events in the order of storing,
all of them when their keys differ. -/
theorem logging_exactly_once {as : List Action} (has : ∀ a ∈ as, Retrying a)
    (hrun : Machine.run (AuditService.step p) (.start h r) as = some t)
    (hqueue : t.processing = none) (hflush : t.flushing = none) :
    ∃ stored, (∃ done, t.history.accepted = done ++ t.logQueue ∧
        List.Forall₂ (LoggedAs p) done (stored ++ t.auditBuffer)) ∧
      Linked AuditEvent.prevHash AuditEvent.hash (fun _ ↦ False) h (stored ++ t.auditBuffer) ∧
      t.repo.items = r.items.setAll (p.keyed stored) ∧
      ((stored.map p.key).Nodup → ∀ e ∈ stored, (p.key e, e) ∈ t.repo.items.entries) := by
  have hs := conserved_run has hrun
  have hledger : t.history.ledger = t.history.flushed ++ t.auditBuffer := by
    rw [hs.ledger, buffered, hflush]
    rfl
  have hpending : t.pending = t.logQueue := by
    rw [pending, hqueue]
    rfl
  refine ⟨t.history.flushed, ?_, ?_, hs.store, fun hkeys e he ↦ ?_⟩
  · rw [← hledger, ← hpending]
    exact hs.accepted
  · rw [← hledger]
    exact hs.linked
  · rw [hs.store]
    exact mem_setAll_keyed hkeys he

/-- Two entries; the first hash is rejected once, and so is the first write. -/
def retriedRun : List Action :=
  [.logEvent (.plain "one") ⟨"a", 1⟩, .queue .hashRejected ⟨"-", 1⟩,
    .logEvent (.plain "two") ⟨"b", 2⟩, .queue .hashed ⟨"-", 2⟩, .queue .leafAdded ⟨"c", 3⟩,
    .flushBuffer, .flushSettled (some 0), .queue .hashed ⟨"-", 3⟩, .queue .leafAdded ⟨"-", 3⟩,
    .flushBuffer, .flushSettled none]

theorem logging_exactly_once_retried :
    ∃ t stored, Machine.run (AuditService.step (.sample HashInput.id none))
        (.start "GENESIS" .empty) retriedRun = some t ∧
      t.repo.items.values.map (fun e ↦ e.message) = ["one", "two"] ∧
      Linked AuditEvent.prevHash AuditEvent.hash (fun _ ↦ False) "GENESIS"
        (stored ++ t.auditBuffer) := by
  have hrun : (run (step (.sample HashInput.id none))
      (.start "GENESIS" .empty) retriedRun).map (fun t ↦ (t.processing.isNone, t.flushing.isNone,
        t.repo.items.values.map fun e ↦ e.message)) = some (true, true, ["one", "two"]) := by
    decide
  obtain ⟨t, ht, hend⟩ := Option.map_eq_some_iff.1 hrun
  simp only [Prod.mk.injEq, Option.isNone_iff_eq_none] at hend
  obtain ⟨hqueue, hflush, hmessages⟩ := hend
  have has : ∀ a ∈ retriedRun, Retrying a := by simp [retriedRun, Retrying]
  obtain ⟨stored, -, hlinked, -⟩ := logging_exactly_once has ht hqueue hflush
  exact ⟨t, stored, ht, hmessages, hlinked⟩

end AuditService

end Audit
