import CounterTerrorist.Audit.Consistency

/-!
# Restarting on the same repository

A new service takes its chain head from the event with the greatest key and verifies the fifty
newest events. When these do not verify it goes into restricted mode with that head or, in
development mode, writes a checkpoint of its own and makes that the head.

`Settled h r` says that a service restarted on `r` gets the head `h` without an alarm. A service
that starts settled, appends with growing keys and logs no checkpoint that the verifier rejects is
settled again whenever everything is flushed, so the next instance goes on where it stopped.

Without growing keys the greatest key need not be the last link, and then the chain forks.
-/

namespace Audit

open Core HashChain List Machine Option AuditService TimelineRepository

namespace AuditService

variable (p : Ports)

/-- The checkpoint of `healDevChainBoundary`, with a place for its hash and signature. -/
def healCheckpoint (tick : Tick) (hash : String) (signature : Option String) : AuditEvent where
  type := "CHECKPOINT"
  severity := some "info"
  caller := some "AUDIT:DEV_HEAL"
  message := "Dev Mode: Audit chain reset checkpoint inserted."
  actor := none
  data := some (.obj [("reason", .str "DEV_MODE_AUTO_HEAL")])
  correlationId := none
  merkleRoot := none
  id := tick.uuid
  timestamp := .iso tick.now
  hash := hash
  prevHash := "TRUNCATED"
  hwSignature := signature
  formatted := some
    "[CHECKPOINT] [info] [AUDIT:DEV_HEAL] Dev Mode: Audit chain reset checkpoint inserted."

/-- `healDevChainBoundary`, when its promises resolve. -/
def healDevChainBoundary (s : AuditService) (tick : Tick) (signature : Option String) :
    AuditService :=
  let hash := p.computeHash (healCheckpoint tick "" none).hashInput
  { s with repo := p.save s.repo (healCheckpoint tick hash signature), lastHash := hash }

/-- `restoreChainHead`, when its promises resolve; the Boolean says whether it reports success.
`heal` is the outcome of the tests for development mode. -/
def restoreChainHead (s : AuditService) (heal : Bool) (tick : Tick) (signature : Option String) :
    Bool × AuditService :=
  match s.repo.getLatest 1 with
  | [] => (true, s)
  | latest :: _ =>
    if latest.hash = "" then (true, s)
    else
      let s := { s with lastHash := latest.hash }
      if (p.verifyChain s.repo (some 50)).valid then (true, s)
      else if heal then (true, s.healDevChainBoundary p tick signature)
      else (false, { s with state := .forensicRestricted })

/-- A restart on `r` finds the chain head `h` and nothing to complain about. -/
structure Settled (h : String) (r : KvAuditRepository) : Prop where
  head : r.items.values = [] ∧ h = "GENESIS" ∨
    ∃ newest, r.items.values.getLast? = some newest ∧ newest.hash = h ∧ h ≠ ""
  valid : (p.verifyChain r (some 50)).valid = true

/-- A checkpoint that is appended passes the verifier. -/
def Passes (s : AuditService) (a : Action) : Prop :=
  ∀ e ∈ appended p s a, e.type = "CHECKPOINT" → p.inspectCheckpoint e = none

instance (s : AuditService) (a : Action) : Decidable (Passes p s a) :=
  inferInstanceAs (Decidable (∀ e ∈ appended p s a, _ → _))

/-- The steps under which a restart is seamless. -/
def Seamless (s : AuditService) (a : Action) : Prop := Retrying a ∧ KeyAbove p s a ∧ Passes p s a

instance (s : AuditService) (a : Action) : Decidable (Seamless p s a) :=
  inferInstanceAs (Decidable (_ ∧ _ ∧ _))

variable {p} {h : String} {r : KvAuditRepository} {s t : AuditService}

theorem settled_empty : Settled p "GENESIS" .empty := ⟨.inl ⟨rfl, rfl⟩, rfl⟩

/-- A restart on a settled repository takes up its head. -/
theorem Settled.restoreChainHead (hr : Settled p h r) (heal : Bool) (tick : Tick)
    (signature : Option String) :
    restoreChainHead p (.start "GENESIS" r) heal tick signature = (true, .start h r) := by
  rcases hr.head with ⟨hempty, rfl⟩ | ⟨newest, hnew, rfl, hne⟩
  · have hlatest : r.getLatest 1 = [] := by
      simp [getLatest, getStream, hempty]
    simp [restoreChainHead, start, hlatest]
  · have hlatest : r.getLatest 1 = [newest] := by
      rw [← head?_reverse] at hnew
      obtain ⟨older, holder⟩ := head?_eq_some_iff.1 hnew
      simp [getLatest, getStream, holder]
    simp [restoreChainHead, start, hlatest, hne, hr.valid]

/-! ### Along a run -/

theorem seamless_run {as : List Action} (hguard : Guarded (step p) (Seamless p) (.start h r) as)
    (hrun : run (step p) (.start h r) as = some t) :
    Ordered p h r t ∧ ∀ e ∈ t.history.ledger, p.EventOk e := by
  have hinv := run_invariant (P := fun s ↦ Ordered p h r s ∧
      ∀ e ∈ s.history.ledger, e.type = "CHECKPOINT" → p.inspectCheckpoint e = none)
    (fun {s a t} hs ha hstep ↦ ?_) ⟨ordered_start h r, fun _ he ↦ nomatch he⟩ hguard hrun
  · refine ⟨hinv.1, fun e he ↦ ?_⟩
    obtain ⟨x, -, hlog⟩ := hinv.1.conserved.exists_accepted he
    rw [Ports.EventOk]
    split
    · rename_i htype
      exact hinv.2 e he htype
    · exact hlog.hashOk
  · refine ⟨hs.1.step ha.1 ha.2.1 hstep, fun e he ↦ ?_⟩
    rw [(step_ledger hstep).1] at he
    rcases mem_append.1 he with he | he
    · exact hs.2 e he
    · exact ha.2.2 e (mem_toList.1 he)

/-- The flushed events on top of a settled repository verify. -/
theorem Settled.valid_append (hr : Settled p h r) {es : List AuditEvent}
    (hok : ∀ e ∈ es, p.EventOk e)
    (hlinked : Linked AuditEvent.prevHash AuditEvent.hash (fun _ ↦ False) h es) :
    (p.verifyEvents 0 none ((es.reverse ++ r.items.values.reverse).take 50)).valid = true := by
  have htake : (es.reverse ++ r.items.values.reverse).take 50 =
      (es.reverse ++ r.items.values.reverse.take 50).take 50 := by
    rw [take_append, take_append, take_take, Nat.min_eq_left (Nat.sub_le _ _)]
  rw [htake]
  apply Ports.valid_take
  obtain ⟨hold, hchain⟩ := Ports.valid_iff.1 hr.valid
  refine Ports.valid_iff.2 ⟨fun e he ↦ ?_, ?_⟩
  · rcases mem_append.1 he with he | he
    · exact hok e (mem_reverse.1 he)
    · exact hold e he
  · refine isChain_append.2 ⟨?_, hchain, fun oldest holdest newest hnew ↦ ?_⟩
    · exact hlinked.isChain_reverse.imp fun newer older hlink ↦ .inr (.inl hlink)
    · -- the first flushed event names the head the repository was settled with
      rw [getLast?_reverse] at holdest
      obtain ⟨later, rfl⟩ := head?_eq_some_iff.1 holdest
      have hprev : oldest.prevHash = h := hlinked.1.resolve_right id
      rw [head?_take, head?_reverse] at hnew
      rcases hr.head with ⟨hempty, -⟩ | ⟨newest', hnewest', hhash, -⟩
      · rw [hempty] at hnew
        exact nomatch hnew
      · obtain rfl : newest' = newest := some.inj (hnewest'.symm.trans hnew)
        exact .inr (.inl (hprev.trans hhash.symm))

/-- A service that started settled is settled when everything it logged is flushed. -/
theorem settled_of_seamless (hhash : ∀ i, p.computeHash i ≠ "") (hr : Settled p h r)
    (hs : Ordered p h r t) (hok : ∀ e ∈ t.history.ledger, p.EventOk e)
    (hflushed : t.buffered = []) : Settled p t.lastHash t.repo := by
  have hledger : t.history.ledger = t.history.flushed := by
    rw [hs.conserved.ledger, hflushed, append_nil]
  have hvals : t.repo.items.values = r.items.values ++ t.history.ledger := by
    rw [OrderedStore.values, hs.entries, hledger]
    simp [Ports.keyed, OrderedStore.values, Function.comp_def]
  constructor
  · rcases eq_nil_or_concat t.history.ledger with hnil | ⟨older, last, hlast⟩
    · rw [hvals, hs.conserved.head, hnil, append_nil]
      exact hr.head
    · refine .inr ⟨last, ?_, ?_, ?_⟩
      · rw [hvals, hlast]
        simp
      · rw [hs.conserved.head, hlast]
        simp
      · obtain ⟨x, -, hlog⟩ := hs.conserved.exists_accepted (e := last) (by simp [hlast])
        rw [hs.conserved.head, hlast, concat_eq_append, headOf_concat, hlog.hashOk]
        exact hhash _
  · have hvalid := hr.valid_append hok hs.conserved.linked
    rw [← reverse_append, ← hvals] at hvalid
    exact hvalid

/-- A service starts settled and every step appends with a growing key and no checkpoint the
verifier rejects. Whenever everything is flushed, a new service on the repository gets exactly the
chain head the first one has, in whatever mode it runs. -/
theorem restart_continues_chain (hhash : ∀ i, p.computeHash i ≠ "") (hr : Settled p h r)
    {as : List Action}
    (hguard : Machine.Guarded (AuditService.step p) (Seamless p) (.start h r) as)
    (hrun : Machine.run (AuditService.step p) (.start h r) as = some t)
    (hflushed : t.buffered = []) (heal : Bool) (tick : Tick) (signature : Option String) :
    restoreChainHead p (.start "GENESIS" t.repo) heal tick signature =
      (true, .start t.lastHash t.repo) := by
  obtain ⟨hs, hok⟩ := seamless_run hguard hrun
  exact (settled_of_seamless hhash hr hs hok hflushed).restoreChainHead heal tick signature

/-- Ports whose hash is the id after a mark, so never empty. -/
def markedPorts : Ports := .sample (fun i ↦ "#" ++ i.id) none

theorem markedPorts_hash_ne (i : HashInput) : markedPorts.computeHash i ≠ "" := by
  intro hempty
  have hlen := congrArg String.length hempty
  rw [show markedPorts.computeHash i = "#" ++ i.id from rfl] at hlen
  exact absurd hlen (by simp)

theorem restart_continues_chain_growing_ids :
    ∃ t, Machine.run (AuditService.step markedPorts) (.start "GENESIS" .empty)
        (sameMillisecond "a" "b") = some t ∧ t.lastHash = "#b" ∧
      restoreChainHead markedPorts (.start "GENESIS" t.repo) true ⟨"c", 2⟩ none =
        (true, .start "#b" t.repo) := by
  have hrun : (run (step markedPorts) (.start "GENESIS" .empty)
      (sameMillisecond "a" "b")).map (fun t ↦ (t.lastHash, t.buffered.isEmpty)) =
        some ("#b", true) := by decide
  obtain ⟨t, ht, hend⟩ := map_eq_some_iff.1 hrun
  simp only [Prod.mk.injEq, List.isEmpty_iff] at hend
  obtain ⟨hhead, hflushed⟩ := hend
  refine ⟨t, ht, hhead, ?_⟩
  rw [← hhead]
  exact restart_continues_chain markedPorts_hash_ne settled_empty (by decide) ht hflushed _ _ _

/-- With decreasing ids the new service gets another chain head, with and without healing. -/
theorem restart_forks_chain :
    ∃ t, Machine.run (AuditService.step markedPorts) (.start "GENESIS" .empty)
        (sameMillisecond "b" "a") = some t ∧ t.pending = [] ∧ t.buffered = [] ∧
      t.lastHash = "#a" ∧
      (restoreChainHead markedPorts (.start "GENESIS" t.repo) false ⟨"c", 2⟩ none).2.lastHash =
        "#b" ∧
      (restoreChainHead markedPorts (.start "GENESIS" t.repo) true ⟨"c", 2⟩ none).2.lastHash =
        "#c" := by
  have hrun : (run (step markedPorts) (.start "GENESIS" .empty)
      (sameMillisecond "b" "a")).map (fun t ↦ (t.pending.isEmpty, t.buffered.isEmpty, t.lastHash,
        (restoreChainHead markedPorts (.start "GENESIS" t.repo) false ⟨"c", 2⟩ none).2.lastHash,
        (restoreChainHead markedPorts (.start "GENESIS" t.repo) true ⟨"c", 2⟩ none).2.lastHash)) =
      some (true, true, "#a", "#b", "#c") := by decide
  obtain ⟨t, ht, hend⟩ := map_eq_some_iff.1 hrun
  simp only [Prod.mk.injEq, List.isEmpty_iff] at hend
  exact ⟨t, ht, hend⟩

end AuditService

end Audit
