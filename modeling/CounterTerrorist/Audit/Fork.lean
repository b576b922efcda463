import CounterTerrorist.Audit.Conservation

/-!
# Forks of the chain

Two methods read the chain head, wait, and write it: `processQueue` reads it when it begins an entry
and writes it when it appends the event, and `syncEvents` tests an event against it before it saves
the event and writes it afterwards. Nothing keeps one out while another is in between, so two events
can be put on the same head.

## When there are none

At most one call at a time is between its read and its write (`OneAtATime`). And no event brings
back a hash that has been the chain head before (`FreshHash`). Under both, the ledger is one chain,
up to truncation marks.
-/

namespace Audit

open Core HashChain List Machine Option

namespace AuditService

variable (p : Ports)

/-- Whether `processQueue` is between reading the chain head and writing it. -/
def appending : Option Processing → Bool
  | none => false
  | some x => !logged x.stage

/-- The number of calls that are between reading the chain head and writing it. -/
def critical (s : AuditService) : ℕ :=
  (appending s.processing).toNat + s.syncs.countP fun x ↦ x.stage == .saving

/-- After the step at most one call is between its read and its write. -/
def OneAtATime (s : AuditService) (a : Action) : Prop := ∀ t ∈ step p s a, critical t ≤ 1

/-- The step brings back no hash that has been the chain head, `h` being the first one. -/
def FreshHash (h : String) (s : AuditService) (a : Action) : Prop :=
  ∀ e ∈ appended p s a, e.hash ∉ h :: s.history.ledger.map AuditEvent.hash

/-- A step with both. -/
def Serial (h : String) (s : AuditService) (a : Action) : Prop :=
  OneAtATime p s a ∧ FreshHash p h s a

instance (h : String) (s : AuditService) (a : Action) : Decidable (Serial p h s a) :=
  have : Decidable (OneAtATime p s a) :=
    inferInstanceAs (Decidable (∀ t ∈ step p s a, critical t ≤ 1))
  have : Decidable (FreshHash p h s a) :=
    inferInstanceAs (Decidable (∀ e ∈ appended p s a, e.hash ∉ h :: _))
  inferInstanceAs (Decidable (_ ∧ _))

/-- The event carries a truncation mark. -/
def Truncates (e : AuditEvent) : Prop := e.prevHash = "TRUNCATED"

/-- What an entry under way names as its predecessor. -/
def Reads (lastHash : String) (x : Option Processing) : Prop :=
  ∀ entry rest stage, x = some ⟨entry, rest, stage⟩ →
    match stage with
    | .hashing _ _ prevHash => prevHash = lastHash
    | .signing _ _ prevHash _ => prevHash = lastHash
    | _ => True

/-- The invariant: one chain without a repeated head, and whoever is about to extend it has read
the head it has now. -/
structure OneChain (h : String) (s : AuditService) : Prop where
  linked : Linked AuditEvent.prevHash AuditEvent.hash Truncates h s.history.ledger
  head : s.lastHash = headOf AuditEvent.hash h s.history.ledger
  nodup : (h :: s.history.ledger.map AuditEvent.hash).Nodup
  reads : Reads s.lastHash s.processing
  tested : ∀ x ∈ s.syncs, x.stage = .saving → x.event.prevHash = s.lastHash ∨ Truncates x.event
  alone : critical s ≤ 1

variable {p} {h : String} {s t : AuditService} {a : Action}

theorem oneChain_start (h : String) (r : KvAuditRepository) : OneChain h (.start h r) :=
  ⟨linked_nil, rfl, nodup_singleton h, (fun _ _ _ hx ↦ nomatch hx),
    (fun _ hx ↦ nomatch hx), Nat.zero_le 1⟩

variable {lastHash : String} {tick : Tick} {x : Option Processing} {e : AuditEvent}

theorem Begun.reads (hx : Begun lastHash tick x) : Reads lastHash x := by
  intro entry rest stage heq
  rcases hx entry rest stage heq with rfl | hlog
  · rfl
  · cases stage with
    | hashing | signing => exact nomatch hlog
    | addingLeaf | mirroring | flushing => trivial

/-- While `processQueue` is in between, no `syncEvents` is. -/
theorem not_saving_of_appending (halone : critical s ≤ 1) (happ : appending s.processing = true) :
    ∀ x ∈ s.syncs, x.stage ≠ .saving := by
  rw [critical, happ, Bool.toNat_true] at halone
  have hzero : (s.syncs.countP fun x ↦ x.stage == .saving) = 0 := by omega
  intro x hx hsaving
  exact countP_eq_zero.1 hzero x hx (by simp [hsaving])

/-- While one `syncEvents` is in between, neither `processQueue` nor another one is; so nobody is
once it has gone on. -/
theorem not_saving_advance (halone : critical s ≤ 1) {i : ℕ} {rest : List AuditEvent}
    (hi : s.syncs[i]? = some ⟨e, rest, .saving⟩) :
    appending s.processing = false ∧
      ∀ x ∈ ((withRemote p s e).advance i rest).syncs, x.stage ≠ .saving := by
  obtain ⟨hlt, hget⟩ := List.getElem?_eq_some_iff.1 hi
  have hsplit : s.syncs = s.syncs.take i ++ ⟨e, rest, .saving⟩ :: s.syncs.drop (i + 1) := by
    rw [← hget, getElem_cons_drop, take_append_drop]
  have hcnt : (s.syncs.countP fun x ↦ x.stage == .saving) =
      ((s.syncs.take i).countP fun x ↦ x.stage == .saving) +
        (((s.syncs.drop (i + 1)).countP fun x ↦ x.stage == .saving) + 1) := by
    rw [hsplit, countP_append, countP_cons_of_pos (by rfl), ← hsplit]
  have hbefore : ((s.syncs.take i).countP fun x ↦ x.stage == .saving) = 0 := by
    rw [critical] at halone
    omega
  have hafter : ((s.syncs.drop (i + 1)).countP fun x ↦ x.stage == .saving) = 0 := by
    rw [critical] at halone
    omega
  have hothers : ∀ x ∈ s.syncs.take i ++ s.syncs.drop (i + 1), x.stage ≠ .saving := by
    intro x hx hsaving
    rcases mem_append.1 hx with hx | hx
    · exact countP_eq_zero.1 hbefore x hx (by simp [hsaving])
    · exact countP_eq_zero.1 hafter x hx (by simp [hsaving])
  constructor
  · cases happ : appending s.processing with
    | false => rfl
    | true => exact absurd rfl (not_saving_of_appending halone happ _ (mem_of_getElem? hi))
  · intro x hx
    unfold advance at hx
    split at hx
    · rename_i sync hsync
      rw [show (withRemote p s e).syncs = s.syncs from rfl,
        set_eq_take_append_cons_drop, if_pos hlt] at hx
      rcases mem_append.1 hx with hx | hx
      · exact hothers x (mem_append_left _ hx)
      · rcases mem_cons.1 hx with rfl | hx
        · rw [syncNext_stage hsync]
          exact fun heq ↦ nomatch heq
        · exact hothers x (mem_append_right _ hx)
    · rw [eraseIdx_eq_take_drop_succ] at hx
      exact hothers x hx

/-! ### One step -/

/-- The event a step appends names the chain head or carries a truncation mark. -/
theorem OneChain.appended_links (hs : OneChain h s) (he : appended p s a = some e) :
    e.prevHash = s.lastHash ∨ Truncates e := by
  unfold appended at he
  split at he
  · split at he
    · rename_i hx _
      obtain rfl := some.inj he
      exact .inl (hs.reads _ _ _ hx)
    · exact nomatch he
  · split at he
    · rename_i hx
      obtain rfl := some.inj he
      exact .inl (hs.reads _ _ _ hx)
    · exact nomatch he
  · split at he
    · rename_i hi
      obtain rfl := some.inj he
      exact hs.tested _ (mem_of_getElem? hi) rfl
    · exact nomatch he
  · exact nomatch he

/-- An entry that is in the ledger reads nothing any more. -/
theorem reads_of_not_appending (hx : appending x = false) : Reads lastHash x := by
  rintro entry rest stage rfl
  cases stage with
  | hashing | signing => exact nomatch hx
  | addingLeaf | mirroring | flushing => trivial

section

variable (hs : OneChain h s)
include hs

/-- A step that moves neither the head nor a call of `syncEvents`. -/
theorem OneChain.tested_of_eq (hhead : t.lastHash = s.lastHash) (hsyncs : t.syncs = s.syncs) :
    ∀ x ∈ t.syncs, x.stage = .saving → x.event.prevHash = t.lastHash ∨ Truncates x.event := by
  rw [hhead, hsyncs]
  exact hs.tested

/-- After an append by `processQueue` nobody is about to save. -/
theorem OneChain.tested_of_append (happ : appending s.processing = true)
    (hsyncs : t.syncs = s.syncs) :
    ∀ x ∈ t.syncs, x.stage = .saving → x.event.prevHash = t.lastHash ∨ Truncates x.event := by
  rw [hsyncs]
  exact fun x hx hsaving ↦ absurd hsaving (not_saving_of_appending hs.alone happ x hx)

/-- Whoever is about to extend the chain after a step of the queue loop has read the head. -/
theorem OneChain.reads_queueStep {x : Processing} {reply : QueueReply}
    (hx : s.processing = some x) (hq : QueueStep p s tick x reply t) :
    Reads t.lastHash t.processing ∧
      ∀ x ∈ t.syncs, x.stage = .saving → x.event.prevHash = t.lastHash ∨ Truncates x.event := by
  cases hq with
  | sign _ =>
    refine ⟨?_, hs.tested_of_eq rfl rfl⟩
    rintro entry rest stage heq
    cases heq
    exact hs.reads _ _ _ hx
  | appendUnsigned _ goes | appendSigned _ goes =>
    refine ⟨?_, hs.tested_of_append (by rw [hx]; rfl) goes.sameLedger.syncs⟩
    rw [goes.sameLedger.lastHash]
    exact goes.begun.reads
  | hashRejected | signRejected | leafRejected =>
    exact ⟨(fun _ _ _ heq ↦ nomatch heq), hs.tested_of_eq rfl rfl⟩
  | leafAdded record goes =>
    refine ⟨?_, hs.tested_of_eq ?_ ?_⟩
    · rw [goes.sameLedger.lastHash]
      exact goes.begun.reads
    · rw [goes.sameLedger.lastHash, record.same.lastHash]
    · rw [goes.sameLedger.syncs, record.same.syncs]
  | mirrored goes | flushed _ goes =>
    refine ⟨?_, hs.tested_of_eq goes.sameLedger.lastHash goes.sameLedger.syncs⟩
    rw [goes.sameLedger.lastHash]
    exact goes.begun.reads

theorem OneChain.reads_step (hstep : AuditService.step p s a = some t) :
    Reads t.lastHash t.processing ∧
      ∀ x ∈ t.syncs, x.stage = .saving → x.event.prevHash = t.lastHash ∨ Truncates x.event := by
  cases stepKind_of_step hstep with
  | beside _ _ hb =>
    refine ⟨?_, hs.tested_of_eq hb.same.lastHash hb.same.syncs⟩
    rw [hb.same.lastHash]
    rcases hb.begun with heq | ⟨-, tick, hbegun⟩
    · rw [heq]
      exact hs.reads
    · exact hbegun.reads
  | queue hx hq => exact hs.reads_queueStep hx hq
  | flush _ =>
    obtain ⟨-, hhead, hproc, hsyncs⟩ := flushSettled_ledger (p := p) s _ _
    refine ⟨?_, hs.tested_of_eq hhead hsyncs⟩
    rw [hhead, hproc]
    exact hs.reads
  | sync _ _ heq htested =>
    have hhead : t.lastHash = s.lastHash := by rw [heq]
    have hproc : t.processing = s.processing := by rw [heq]
    rw [hhead, hproc]
    refine ⟨hs.reads, fun x hx hsaving ↦ ?_⟩
    rcases htested x hx hsaving with hold | hlink
    · exact hs.tested x hold hsaving
    · exact hlink
  | remote saving =>
    obtain ⟨happ, hnone⟩ := not_saving_advance (p := p) hs.alone saving
    refine ⟨?_, fun x hx hsaving ↦ absurd hsaving (hnone x hx)⟩
    rw [advance_eq]
    exact reads_of_not_appending happ

/-- Every serial step keeps one chain. -/
theorem OneChain.step (ha : Serial p h s a)
    (hstep : AuditService.step p s a = some t) : OneChain h t := by
  obtain ⟨hreads, htested⟩ := hs.reads_step hstep
  obtain ⟨hledger, hhead⟩ := step_ledger hstep
  rcases happ : appended p s a with - | e
  · rw [happ, toList_none, append_nil] at hledger
    rw [happ, toList_none, headOf_nil] at hhead
    refine ⟨?_, ?_, ?_, hreads, htested, ha.1 t hstep⟩
    · rw [hledger]
      exact hs.linked
    · rw [hhead, hledger, hs.head]
    · rw [hledger]
      exact hs.nodup
  · rw [happ, toList_some] at hledger hhead
    refine ⟨?_, ?_, ?_, hreads, htested, ha.1 t hstep⟩
    · rw [hledger]
      exact linked_concat.2 ⟨hs.linked, (hs.appended_links happ).imp_left fun hlink ↦ by
        rw [hlink, hs.head]⟩
    · rw [hhead, hledger, headOf_concat]
      rfl
    · rw [hledger, map_append]
      exact nodup_append.2 ⟨hs.nodup, nodup_singleton _, fun x hx y hy heq ↦
        ha.2 e happ (by rwa [← mem_singleton.1 hy, ← heq])⟩

end

/-! ### Runs -/

/-- In every run in which at most one call at a time is between reading the chain head and writing
it, and no hash becomes the chain head twice, no two events of the ledger name the same predecessor,
truncation marks apart. -/
theorem serial_run_never_forks {r : KvAuditRepository} {as : List Action}
    (hguard : Machine.Guarded (AuditService.step p) (Serial p h) (.start h r) as)
    (hrun : Machine.run (AuditService.step p) (.start h r) as = some t) :
    t.history.ledger.Pairwise fun a b ↦
      a.prevHash ≠ "TRUNCATED" → b.prevHash ≠ "TRUNCATED" → a.prevHash ≠ b.prevHash := by
  have hchain : OneChain h t := run_invariant
    (fun hs ha hstep ↦ hs.step ha hstep) (oneChain_start h r) hguard hrun
  exact hchain.linked.prev_ne_of_nodup hchain.nodup

/-- A remote event on the first head. -/
def rivalEvent : AuditEvent where
  toPayload := (LogEntry.plain "remote").toPayload
  id := "r"
  timestamp := .iso 1
  hash := "r"
  prevHash := "GENESIS"
  hwSignature := none
  formatted := none

/-- The remote event arrives and is saved before the local one is begun. -/
def inTurn : List Action :=
  [.syncEvents [rivalEvent], .sync 0 .hashed, .sync 0 .saved,
    .logEvent (.plain "local") ⟨"l", 2⟩, .queue .hashed ⟨"-", 2⟩]

theorem serial_run_never_forks_inTurn :
    ∃ t, Machine.run (AuditService.step (.sample HashInput.id none)) (.start "GENESIS" .empty)
        inTurn = some t ∧ t.history.ledger.map AuditEvent.prevHash = ["GENESIS", "r"] ∧
      t.history.ledger.Pairwise fun a b ↦
        a.prevHash ≠ "TRUNCATED" → b.prevHash ≠ "TRUNCATED" → a.prevHash ≠ b.prevHash := by
  have hrun : (run (AuditService.step (.sample HashInput.id none))
      (.start "GENESIS" .empty) inTurn).map (fun t ↦ t.history.ledger.map AuditEvent.prevHash) =
        some ["GENESIS", "r"] := by decide
  obtain ⟨t, ht, hprev⟩ := map_eq_some_iff.1 hrun
  exact ⟨t, ht, hprev, serial_run_never_forks (by decide) ht⟩

/-- The remote event is tested and saved while the local one is being hashed. -/
def crossing : List Action :=
  [.logEvent (.plain "local") ⟨"l", 1⟩, .syncEvents [rivalEvent], .sync 0 .hashed,
    .sync 0 .saved, .queue .hashed ⟨"-", 1⟩]

/-- Two different events are put on the same head. -/
theorem crossing_forks :
    ∃ t, Machine.run (AuditService.step (.sample HashInput.id none)) (.start "GENESIS" .empty)
        crossing = some t ∧ t.history.ledger.map AuditEvent.hash = ["r", "l"] ∧
      t.history.ledger.map AuditEvent.prevHash = ["GENESIS", "GENESIS"] := by
  have hrun : (run (AuditService.step (.sample HashInput.id none))
      (.start "GENESIS" .empty) crossing).map (fun t ↦
        (t.history.ledger.map AuditEvent.hash, t.history.ledger.map AuditEvent.prevHash)) =
      some (["r", "l"], ["GENESIS", "GENESIS"]) := by decide
  obtain ⟨t, ht, hend⟩ := map_eq_some_iff.1 hrun
  exact ⟨t, ht, Prod.mk.inj hend⟩

end AuditService

end Audit
