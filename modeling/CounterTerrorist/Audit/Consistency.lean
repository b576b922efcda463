import CounterTerrorist.Audit.Conservation
import CounterTerrorist.Audit.Verifier

/-!
# When the node's own log verifies

The chain is linked in the order of processing, but the repository is read in the order of its keys,
a millisecond timestamp and a random id. The two agree when every event is appended with a key above
all keys in use (`KeyAbove`): read from the newest event to the oldest, the repository is then the
chain itself, and a service that logs ordinary events passes its own verification.

The condition is not met by itself: two events of one millisecond are stored in the order of their
random ids (`sameMillisecond`).
-/

namespace Audit

open Core HashChain List Machine Option AuditService

namespace AuditService

variable (p : Ports)

/-- A step appends only above every key that is stored or on its way. -/
def KeyAbove (s : AuditService) (a : Action) : Prop :=
  ∀ e ∈ appended p s a,
    (∀ kv ∈ s.repo.items.entries, kv.1 < p.key e) ∧ ∀ x ∈ s.buffered, p.key x < p.key e

instance (s : AuditService) (a : Action) : Decidable (KeyAbove p s a) :=
  inferInstanceAs (Decidable (∀ e ∈ appended p s a, _ ∧ _))

/-- The label logs no checkpoint. -/
def Ordinary : Action → Prop
  | .logEvent entry _ => entry.type ≠ "CHECKPOINT"
  | _ => True

/-- The invariant: nothing is lost, and keys grow along the ledger. -/
structure Ordered (h : String) (r : KvAuditRepository) (s : AuditService) : Prop where
  conserved : Conserved p h r s
  keys : (r.items.entries ++ p.keyed s.history.ledger).Pairwise fun a b ↦ a.1 < b.1

variable {p} {h : String} {r : KvAuditRepository} {s t : AuditService}

theorem ordered_start (h : String) (r : KvAuditRepository) : Ordered p h r (.start h r) := by
  refine ⟨conserved_start h r, ?_⟩
  simpa [start, Ports.keyed] using r.items.sorted

theorem keyed_append (es fs : List AuditEvent) :
    p.keyed (es ++ fs) = p.keyed es ++ p.keyed fs := map_append

/-- What is stored: the old entries, then the flushed events in order. -/
theorem Ordered.entries (hs : Ordered p h r s) :
    s.repo.items.entries = r.items.entries ++ p.keyed s.history.flushed := by
  have hkeys := hs.keys
  rw [hs.conserved.ledger, keyed_append, ← append_assoc] at hkeys
  obtain ⟨hold, hgrow, habove⟩ := pairwise_append.1 (pairwise_append.1 hkeys).1
  rw [hs.conserved.store]
  exact OrderedStore.entries_setAll hgrow habove

/-- Growing keys keep the order. -/
theorem Ordered.step (hs : Ordered p h r s) {a : Action} (ha : Retrying a)
    (habove : KeyAbove p s a) (hstep : step p s a = some t) : Ordered p h r t := by
  refine ⟨hs.conserved.step ha hstep, ?_⟩
  rw [(step_ledger hstep).1]
  rcases happ : appended p s a with - | e
  · simpa using hs.keys
  · obtain ⟨hstored, hbuf⟩ := habove e happ
    rw [keyed_append, ← append_assoc]
    refine pairwise_append.2 ⟨hs.keys, pairwise_singleton _ _, fun kv hkv f hf ↦ ?_⟩
    obtain rfl := mem_singleton.1 hf
    -- an older entry is stored already, or on its way
    rw [hs.conserved.ledger, keyed_append, ← append_assoc, ← hs.entries] at hkv
    rcases mem_append.1 hkv with hmem | hmem
    · exact hstored kv hmem
    · obtain ⟨x, hx, rfl⟩ := List.mem_map.1 hmem
      exact hbuf x hx

variable {e : AuditEvent} {entry : LogEntry JsTree}

/-- Every ledger event comes from an accepted entry. -/
theorem Conserved.exists_accepted (hs : Conserved p h r s) (he : e ∈ s.history.ledger) :
    ∃ x ∈ s.history.accepted, LoggedAs p x e := by
  obtain ⟨done, hdone, hlog⟩ := hs.accepted
  obtain ⟨i, hi, rfl⟩ := getElem_of_mem he
  have hi' : i < done.length := hlog.length_eq ▸ hi
  refine ⟨done[i], ?_, hlog.get hi' hi⟩
  rw [hdone]
  exact mem_append_left _ (getElem_mem hi')

theorem LoggedAs.hashOk (he : LoggedAs p entry e) : p.HashOk e := by
  obtain ⟨id, timestamp, prevHash, signature, rfl⟩ := he
  rfl

theorem LoggedAs.type_eq (he : LoggedAs p entry e) : e.type = entry.type := by
  obtain ⟨id, timestamp, prevHash, signature, rfl⟩ := he
  rfl

/-- No checkpoint is queued by ordinary steps. -/
theorem ordinary_step {a : Action} (ha : Ordinary a) (hstep : step p s a = some t)
    (hs : ∀ x ∈ s.history.accepted, x.type ≠ "CHECKPOINT") :
    ∀ x ∈ t.history.accepted, x.type ≠ "CHECKPOINT" := by
  obtain ⟨new, hnew, horig⟩ := step_accepted hstep
  intro x hx
  rw [hnew] at hx
  rcases mem_append.1 hx with hx | hx
  · exact hs x hx
  · rcases horig x hx with hcom | ⟨entry, tick, rfl, rfl⟩
    · rw [hcom]
      decide
    · exact ha

/-- The steps of the runs considered here. -/
def Disciplined (p : Ports) (s : AuditService) (a : Action) : Prop :=
  Retrying a ∧ Ordinary a ∧ KeyAbove p s a

instance : DecidablePred Retrying := fun a ↦ by
  cases a with
  | queue reply _ => cases reply <;> unfold Retrying <;> infer_instance
  | _ =>
    unfold Retrying
    infer_instance

instance : DecidablePred Ordinary := fun a ↦ by
  cases a <;> unfold Ordinary <;> infer_instance

instance (s : AuditService) (a : Action) : Decidable (Disciplined p s a) :=
  inferInstanceAs (Decidable (_ ∧ _ ∧ _))

theorem disciplined_run {as : List Action}
    (hguard : Guarded (step p) (Disciplined p) (.start h r) as)
    (hrun : run (step p) (.start h r) as = some t) :
    Ordered p h r t ∧ ∀ x ∈ t.history.accepted, x.type ≠ "CHECKPOINT" :=
  run_invariant (P := fun s ↦ Ordered p h r s ∧ ∀ x ∈ s.history.accepted, x.type ≠ "CHECKPOINT")
    (fun hs ha hstep ↦ ⟨hs.1.step ha.1 ha.2.2 hstep, ordinary_step ha.2.1 hstep hs.2⟩)
    ⟨ordered_start h r, fun _ hx ↦ nomatch hx⟩ hguard hrun

/-- In every run on an empty repository in which ordinary events are appended with growing keys, the
repository verifies at every moment, and so when everything is flushed. -/
theorem own_log_verifies {as : List Action}
    (hguard : Machine.Guarded (AuditService.step p) (Disciplined p) (.start h .empty) as)
    (hrun : Machine.run (AuditService.step p) (.start h .empty) as = some t) :
    (p.verifyFullChain t.repo).valid = true := by
  obtain ⟨hs, htypes⟩ := disciplined_run hguard hrun
  have hvalues : t.repo.items.values = t.history.flushed := by
    rw [OrderedStore.values, hs.entries]
    simp [TimelineRepository.empty, Ports.keyed, Function.comp_def]
  have hmem {e : AuditEvent} (he : e ∈ t.repo.items.values) :
      ∃ x ∈ t.history.accepted, LoggedAs p x e := by
    apply hs.conserved.exists_accepted
    rw [hs.conserved.ledger]
    exact mem_append_left _ (hvalues ▸ he)
  refine Ports.verifyChain_valid_of_isChain none (fun e he ↦ ?_) (fun e he ↦ ?_) ?_
  · obtain ⟨x, hx, hlogged⟩ := hmem he
    rw [hlogged.type_eq]
    exact htypes x hx
  · obtain ⟨x, -, hlogged⟩ := hmem he
    exact hlogged.hashOk
  · have hlinked := hs.conserved.linked
    rw [hs.conserved.ledger] at hlinked
    rw [hvalues]
    exact (linked_append.1 hlinked).1.isChain_reverse

/-- Two events of one millisecond, stored at the end; `first` and `second` are their random ids. -/
def sameMillisecond (first second : String) : List Action :=
  [.logEvent (.plain "one") ⟨first, 1⟩, .queue .hashed ⟨"-", 1⟩, .queue .leafAdded ⟨"-", 1⟩,
    .logEvent (.plain "two") ⟨second, 1⟩, .queue .hashed ⟨"-", 1⟩, .queue .leafAdded ⟨"-", 1⟩,
    .flushBuffer, .flushSettled none]

theorem own_log_verifies_growing_ids :
    ∃ t, Machine.run (AuditService.step (.sample HashInput.id none)) (.start "GENESIS" .empty)
        (sameMillisecond "a" "b") = some t ∧
      ((Ports.sample HashInput.id none).verifyFullChain t.repo).valid = true := by
  have hrun : (run (step (.sample HashInput.id none))
      (.start "GENESIS" .empty) (sameMillisecond "a" "b")).isSome = true := by decide
  obtain ⟨t, ht⟩ := isSome_iff_exists.1 hrun
  exact ⟨t, ht, own_log_verifies (by decide) ht⟩

/-- With the ids the other way round the untouched ledger is reported as broken. -/
theorem own_log_chain_break :
    ∃ t, Machine.run (AuditService.step (.sample HashInput.id none)) (.start "GENESIS" .empty)
        (sameMillisecond "b" "a") = some t ∧
      (∀ a ∈ sameMillisecond "b" "a", Retrying a ∧ Ordinary a) ∧
      t.pending = [] ∧ t.buffered = [] ∧
      (Ports.sample HashInput.id none).verifyFullChain t.repo =
        ⟨false, 2, some ⟨"b", "a", "GENESIS", "CHAIN_BREAK"⟩⟩ := by
  have hrun : (run (step (.sample HashInput.id none))
      (.start "GENESIS" .empty) (sameMillisecond "b" "a")).map (fun t ↦
        (t.pending.isEmpty, t.buffered.isEmpty,
          (Ports.sample HashInput.id none).verifyFullChain t.repo)) =
      some (true, true, ⟨false, 2, some ⟨"b", "a", "GENESIS", "CHAIN_BREAK"⟩⟩) := by decide
  obtain ⟨t, ht, hend⟩ := map_eq_some_iff.1 hrun
  simp only [Prod.mk.injEq, List.isEmpty_iff] at hend
  exact ⟨t, ht, by decide, hend⟩

end AuditService

end Audit
