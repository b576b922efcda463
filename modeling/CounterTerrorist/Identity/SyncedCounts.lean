import CounterTerrorist.Identity.RateLimit
import Mathlib.Algebra.Order.BigOperators.Group.List
import Mathlib.Algebra.GroupWithZero.Nat
import Mathlib.Algebra.Order.Group.Nat

/-!
# What the rate limiter has pushed

`synced` says how much of a count has been pushed to the store. It is raised before the write and
should be lowered again if the write fails for good, so that it is the sum of what was committed
whenever no write is in flight.

It is never lowered: `retry` does not throw, so the handler that gives the counts back does not run.
A write whose three attempts fail leaves its counts behind as pushed (`failed_push_kept`), and it is
the only way to get the sum wrong (`synced_eq_committed_iff`).

## The invariant

`synced` is the sum of the deltas of all writes started for the object, failed or not, and a write
that has not settled is the one in flight for its object (`Accounted`).
-/

namespace Identity

open List Option Write

/-! ### Sums -/

/-- What a write has pushed for an object. -/
def Write.pushed (a : ℕ) (w : Write) : ℕ := if w.addr = a then w.delta else 0

/-- Whether the commit of a write has succeeded. -/
def Write.committed (w : Write) : Bool :=
  match w.stage with
  | .returned (.ok _) | .settled (.ok _) => true
  | _ => false

namespace RateLimitService

/-- The deltas of all writes started for an object. -/
def pushed (s : RateLimitService) (a : ℕ) : ℕ := (s.writes.map (Write.pushed a)).sum

/-- The deltas that were committed to the store for an object. -/
def committed (s : RateLimitService) (a : ℕ) : ℕ :=
  ((s.writes.filter Write.committed).map (Write.pushed a)).sum

end RateLimitService

/-! ### Writes -/

/-- A write pushes something, and returns an error exactly when its attempts are used up. -/
structure Write.Sound (w : Write) : Prop where
  delta : 0 < w.delta
  failures : w.failures ≤ maxAttempts
  error : w.failures = maxAttempts ↔
    ∃ e, w.stage = .returned (.error e) ∨ w.stage = .settled (.error e)

variable {w w' : Write}

theorem Write.Moves.addr (h : w.Moves w') : w'.addr = w.addr := by
  cases h <;> rfl

theorem Write.Moves.delta (h : w.Moves w') : w'.delta = w.delta := by
  cases h <;> rfl

theorem Write.fail_stage (w : Write) (e : String) :
    w.failures + 1 < maxAttempts ∧ (w.fail e).stage = .pause ∨
      ¬w.failures + 1 < maxAttempts ∧ (w.fail e).stage = .returned (.error e) := by
  by_cases h : w.failures + 1 < maxAttempts
  · exact .inl ⟨h, if_pos h⟩
  · exact .inr ⟨h, if_neg h⟩

/-- A write that has returned does not move any more. -/
theorem Write.Moves.running (h : w.Moves w') : w.done = false ∧ w'.done = false ∧
      ¬∃ e, w.stage = .returned (.error e) ∨ w.stage = .settled (.error e) := by
  cases h with
  | read new expireIn hst | committed new expireIn hst | woken hst => simp [done, hst]
  | failed e hst =>
    have hdone : (w.fail e).done = false := by
      rcases w.fail_stage e with ⟨-, hfail⟩ | ⟨-, hfail⟩ <;> simp [done, hfail]
    refine ⟨?_, hdone, ?_⟩ <;>
      rcases hst with hst | ⟨new, expireIn, hst⟩ <;> simp [done, hst]

theorem Write.Sound.moves (h : w.Sound) (hmoves : w.Moves w') : w'.Sound := by
  have hrunning : w.failures < maxAttempts :=
    lt_of_le_of_ne h.failures fun heq ↦ hmoves.running.2.2 (h.error.1 heq)
  cases hmoves with
  | read | committed | woken =>
    exact ⟨h.delta, h.failures, iff_of_false hrunning.ne (by simp)⟩
  | failed e =>
    refine ⟨h.delta, hrunning, ?_⟩
    rcases w.fail_stage e with ⟨hless, hfail⟩ | ⟨hlast, hfail⟩
    · exact iff_of_false (ne_of_lt hless) (by simp [hfail])
    · refine iff_of_true ?_ ⟨e, .inl hfail⟩
      exact le_antisymm hrunning (Nat.le_of_not_lt hlast)

theorem Write.Sound.settled {result : Except String ℕ} (h : w.Sound)
    (hst : w.stage = .returned result) : { w with stage := .settled result }.Sound := by
  refine ⟨h.delta, h.failures, h.error.trans ?_⟩
  simp [hst]

theorem Write.done_iff : w.done = true ↔ ∃ result, w.stage = .settled result := by
  rw [done]
  cases w.stage <;> simp

/-- A write that has settled was committed, or has used up its attempts. -/
theorem Write.Sound.committed_iff (h : w.Sound) (hdone : w.done = true) :
    w.committed = true ↔ w.failures < maxAttempts := by
  have herror : w.failures < maxAttempts ↔
      ¬∃ e, w.stage = .returned (.error e) ∨ w.stage = .settled (.error e) := by
    rw [← h.error]
    exact ⟨ne_of_lt, lt_of_le_of_ne h.failures⟩
  obtain ⟨result, hst⟩ := done_iff.1 hdone
  rw [herror, committed, hst]
  cases result <;> simp

/-- Among writes that push something, the committed ones sum up to all of them exactly if all are
committed. -/
theorem sum_committed_eq_iff {a : ℕ} {ws : List Write} (h : ∀ w ∈ ws, 0 < w.delta) :
    ((ws.filter committed).map (pushed a)).sum = (ws.map (pushed a)).sum ↔
      ∀ w ∈ ws, w.addr = a → w.committed = true := by
  have hle : ∀ vs : List Write, ((vs.filter committed).map (pushed a)).sum ≤
      (vs.map (pushed a)).sum := fun vs ↦
    (filter_sublist.map _).sum_le_sum fun _ _ ↦ Nat.zero_le _
  induction ws with
  | nil => simp
  | cons w ws ih =>
    obtain ⟨hw, hws⟩ := forall_mem_cons.1 h
    have hrest := hle ws
    rw [forall_mem_cons, filter_cons, map_cons, sum_cons]
    refine Iff.trans ?_ (and_congr_right fun _ ↦ ih hws)
    by_cases hcomm : w.committed = true
    · simp [hcomm]
    · by_cases haddr : w.addr = a
      · simp only [hcomm, Bool.false_eq_true, if_false, haddr, true_imp_iff, false_and,
          iff_false, pushed, if_true]
        omega
      · simp [hcomm, haddr, pushed]

/-! ### The invariant -/

namespace RateLimitService

/-- All that was ever pushed for an object is accounted for. -/
structure Accounted (s : RateLimitService) : Prop where
  tier : ∀ {key addr}, s.memoryTier.get key = some addr → addr < s.allocated
  tasks : ∀ task ∈ s.tasks, task.addr < s.allocated
  writes : ∀ w ∈ s.writes, w.addr < s.allocated ∧ w.Sound
  fresh : ∀ a, s.allocated ≤ a → s.objects a = ⟨0, 0, 0, none⟩
  synced : ∀ a, (s.objects a).synced = s.pushed a
  inflight : ∀ {i w}, s.writes[i]? = some w → w.done = false →
    (s.objects w.addr).inflight = some i

theorem accounted_init (now : ℚ) : Accounted (init now) where
  tier := nofun
  tasks := nofun
  writes := nofun
  fresh _ _ := rfl
  synced _ := rfl
  inflight := nofun

variable {s t : RateLimitService} {key : String} {addr : ℕ} {windowMs now : ℚ}

/-- Steps that neither write nor touch what was pushed. -/
theorem Accounted.of_same (h : Accounted s) (hwrites : t.writes = s.writes)
    (halloc : s.allocated ≤ t.allocated)
    (hfresh : ∀ a, t.allocated ≤ a → t.objects a = s.objects a)
    (hobj : ∀ a, (t.objects a).synced = (s.objects a).synced ∧
      (t.objects a).inflight = (s.objects a).inflight)
    (htier : ∀ {key addr}, t.memoryTier.get key = some addr → addr < t.allocated)
    (htasks : ∀ task ∈ t.tasks, task.addr < t.allocated) : Accounted t where
  tier := htier
  tasks := htasks
  writes w hw := by
    obtain ⟨hlt, hsound⟩ := h.writes w (hwrites ▸ hw)
    exact ⟨hlt.trans_le halloc, hsound⟩
  fresh a ha := (hfresh a ha).trans (h.fresh a (halloc.trans ha))
  synced a := by rw [(hobj a).1, h.synced, pushed, pushed, hwrites]
  inflight hw hdone := (hobj _).2.trans (h.inflight (hwrites ▸ hw) hdone)

/-- The state of a request. -/
theorem Accounted.locate (h : Accounted s) (key : String) (windowMs now : ℚ) :
    Accounted (s.locate key windowMs now).2 ∧
      (s.locate key windowMs now).1 < (s.locate key windowMs now).2.allocated := by
  have halloc : Accounted (s.alloc windowMs now).2 := by
    have hobj : ∀ a, (s.alloc windowMs now).2.objects a =
        if a = s.allocated then ⟨0, now + windowMs, 0, none⟩ else s.objects a :=
      modify_objects s s.allocated fun _ ↦ ⟨0, now + windowMs, 0, none⟩
    refine h.of_same rfl (Nat.le_succ _) (fun a ha ↦ ?_) (fun a ↦ ?_)
      (fun hget ↦ (h.tier hget).trans (Nat.lt_succ_self _))
      fun task htask ↦ (h.tasks task htask).trans (Nat.lt_succ_self _)
    · rw [hobj, if_neg (Nat.ne_of_gt ha)]
    · rw [hobj]
      split
      · next heq =>
        rw [h.fresh a heq.ge]
        exact ⟨rfl, rfl⟩
      · exact ⟨rfl, rfl⟩
  obtain ⟨heq, -⟩ | ⟨addr, hget, -, heq⟩ := locate_cases s key windowMs now
  · rw [heq]
    exact ⟨halloc, Nat.lt_succ_self _⟩
  · rw [heq]
    exact ⟨h, h.tier hget⟩

theorem Accounted.increment (h : Accounted s) (key : String) (haddr : addr < s.allocated) :
    Accounted (s.increment key addr) := by
  have hobj : ∀ a, (s.increment key addr).objects a =
      if a = addr then { s.objects a with count := (s.objects a).count + 1 } else s.objects a :=
    modify_objects s addr fun state ↦ { state with count := state.count + 1 }
  refine h.of_same rfl le_rfl (fun a ha ↦ ?_) (fun a ↦ ?_) (fun {key' a} hget ↦ ?_) h.tasks
  · rw [hobj, if_neg (haddr.trans_le ha).ne']
  · rw [hobj]
    split <;> exact ⟨rfl, rfl⟩
  · rw [RateLimitService.increment, InsertionMap.get_set] at hget
    split at hget
    · exact some.inj hget ▸ haddr
    · exact h.tier hget

/-- A push raises `synced` by its delta, and is in flight. -/
theorem Accounted.push (h : Accounted s) (key : String) (haddr : addr < s.allocated)
    (hidle : (s.objects addr).inflight = none)
    (hcnt : (s.objects addr).synced < (s.objects addr).count) :
    Accounted (s.push key addr) := by
  have hobj : ∀ a, (s.push key addr).objects a =
      if a = addr then
        { s.objects a with synced := (s.objects a).count, inflight := some s.writes.length }
      else s.objects a :=
    modify_objects s addr fun state ↦
      { state with synced := state.count, inflight := some s.writes.length }
  refine ⟨h.tier, h.tasks, fun w hw ↦ ?_, fun a ha ↦ ?_, fun a ↦ ?_, fun {i w} hw hdone ↦ ?_⟩
  · rcases mem_append.1 hw with hw | hw
    · exact h.writes w hw
    · obtain rfl := mem_singleton.1 hw
      exact ⟨haddr, Nat.sub_pos_of_lt hcnt, Nat.zero_le _,
        iff_of_false (Nat.zero_ne_add_one 2) (by simp)⟩
  · rw [hobj, if_neg (haddr.trans_le ha).ne', h.fresh a ha]
  · have hpush : (s.push key addr).pushed a = s.pushed a +
        if addr = a then (s.objects addr).count - (s.objects addr).synced else 0 := by
      simp [RateLimitService.pushed, RateLimitService.push, Write.pushed]
    rw [hpush, ← h.synced, hobj]
    by_cases ha : a = addr
    · subst ha
      simp only [if_true]
      omega
    · rw [if_neg ha, if_neg (Ne.symm ha), Nat.add_zero]
  · rcases Nat.lt_or_ge i s.writes.length with hi | hi
    · -- an older write that has not settled belongs to another object
      have hold := h.inflight ((getElem?_append_left hi).symm.trans hw) hdone
      rw [hobj, if_neg, hold]
      rintro heq
      rw [heq, hidle] at hold
      cases hold
    · obtain ⟨hlt, heq⟩ := List.getElem?_eq_some_iff.1 hw
      have hlast : i = s.writes.length := by
        rw [RateLimitService.push, length_append, length_singleton] at hlt
        omega
      subst hlast
      obtain rfl := some.inj (hw.symm.trans getElem?_concat_length)
      exact (congrArg RateLimitState.inflight (hobj addr)).trans
        (congrArg RateLimitState.inflight (if_pos rfl))

/-- A push that starts is accounted for. -/
theorem Accounted.syncKey (h : Accounted s) (key : String) (haddr : addr < s.allocated) :
    Accounted (s.syncKey key addr) := by
  obtain heq | ⟨hidle, hcnt, heq⟩ := syncKey_cases s key addr
  · rw [heq]
    exact h
  · rw [heq]
    exact h.push key haddr hidle hcnt

theorem syncKey_tasks (s : RateLimitService) (key : String) (addr : ℕ) :
    (s.syncKey key addr).tasks = s.tasks := by
  obtain heq | ⟨-, -, heq⟩ := syncKey_cases s key addr
  · rw [heq]
  · rw [heq]
    rfl

variable {i : ℕ} {w : Write}

/-- A write that moves on, or settles, pushes what it pushed. -/
theorem pushed_set (w' : Write) (hw : s.writes[i]? = some w) (haddr : w'.addr = w.addr)
    (hdelta : w'.delta = w.delta) (a : ℕ) :
    ((s.writes.set i w').map (Write.pushed a)).sum = s.pushed a := by
  have hsame : Write.pushed a w' = Write.pushed a w := by
    rw [Write.pushed, Write.pushed, haddr, hdelta]
  obtain ⟨hi, rfl⟩ := List.getElem?_eq_some_iff.1 hw
  have hmap : i < (s.writes.map (Write.pushed a)).length := by rwa [length_map]
  rw [map_set, hsame, ← getElem_map (Write.pushed a) (h := hmap), set_getElem_self, pushed]

theorem Accounted.advance (h : Accounted s) {w' : Write} (hw : s.writes[i]? = some w)
    (hmoves : w.Moves w') : Accounted (s.advance i w') := by
  obtain ⟨hrunning, -, -⟩ := hmoves.running
  obtain ⟨hlt, hsound⟩ := h.writes w (mem_of_getElem? hw)
  refine ⟨h.tier, h.tasks, fun v hv ↦ ?_, h.fresh, fun a ↦ ?_, fun {j v} hv hdone ↦ ?_⟩
  · rcases mem_or_eq_of_mem_set hv with hv | rfl
    · exact h.writes v hv
    · exact ⟨hmoves.addr ▸ hlt, hsound.moves hmoves⟩
  · exact (h.synced a).trans (pushed_set w' hw hmoves.addr hmoves.delta a).symm
  · show (s.objects v.addr).inflight = some j
    rw [RateLimitService.advance, getElem?_set] at hv
    split at hv
    · next heq =>
      subst heq
      obtain ⟨-, hv⟩ := ite_none_right_eq_some.1 hv
      obtain rfl := some.inj hv
      rw [hmoves.addr]
      exact h.inflight hw hrunning
    · exact h.inflight hv hdone

theorem Accounted.settle (h : Accounted s) {result : Except String ℕ} (hw : s.writes[i]? = some w)
    (hst : w.stage = .returned result) : Accounted (s.settle i w result) := by
  obtain ⟨hlt, hsound⟩ := h.writes w (mem_of_getElem? hw)
  have hobj : ∀ a, (s.settle i w result).objects a =
      if a = w.addr then
        { s.objects a with
          inflight := if (s.objects a).inflight = some i then none else (s.objects a).inflight }
      else s.objects a := modify_objects s w.addr fun state ↦
    { state with inflight := if state.inflight = some i then none else state.inflight }
  refine ⟨h.tier, h.tasks, fun v hv ↦ ?_, fun a ha ↦ ?_, fun a ↦ ?_, fun {j v} hv hdone ↦ ?_⟩
  · rcases mem_or_eq_of_mem_set hv with hv | rfl
    · exact h.writes v hv
    · exact ⟨hlt, hsound.settled hst⟩
  · rw [hobj, if_neg (hlt.trans_le ha).ne', h.fresh a ha]
  · have hsync : ((s.settle i w result).objects a).synced = (s.objects a).synced := by
      rw [hobj]
      split <;> rfl
    have hpush : (s.settle i w result).pushed a = s.pushed a :=
      pushed_set { w with stage := .settled result } hw rfl rfl a
    rw [hsync, h.synced, hpush]
  · have hne : i ≠ j := by
      rintro rfl
      obtain ⟨hi, -⟩ := List.getElem?_eq_some_iff.1 hw
      obtain rfl := some.inj (hv.symm.trans (getElem?_set_self hi))
      cases hdone
    have hold := h.inflight ((getElem?_set_ne hne).symm.trans hv) hdone
    rw [hobj]
    split
    · simp [hold, Ne.symm hne]
    · exact hold

/-- Every step keeps the account. -/
theorem Accounted.step {l : Label} (h : Accounted s) (hstep : s.step l = some t) : Accounted t := by
  cases Step.of_step hstep with
  | check key limit windowMs now =>
    obtain ⟨hloc, hlt⟩ := h.locate key windowMs now
    have hcnt := hloc.increment key hlt
    have hchk : Accounted (s.checkLimit key limit windowMs now).2 := by
      rw [checkLimit]
      split
      · exact hcnt.syncKey key hlt
      · exact hcnt
    exact ⟨hchk.tier, hchk.tasks, hchk.writes, hchk.fresh, hchk.synced,
      hchk.inflight⟩
  | flush now =>
    have htier : ∀ {key addr}, (s.flushMemoryTier now).memoryTier.get key = some addr →
        addr < s.allocated := fun {key addr} hget ↦
      h.tier (filter_eq_some_iff.1 ((InsertionMap.get_filter _ _ key).symm.trans hget)).1
    refine h.of_same rfl le_rfl (fun _ _ ↦ rfl) (fun _ ↦ ⟨rfl, rfl⟩) htier fun task htask ↦ ?_
    rcases mem_append.1 htask with htask | htask
    · exact h.tasks task htask
    · obtain ⟨⟨key, addr⟩, hentry, rfl⟩ := List.mem_map.1 htask
      exact htier (InsertionMap.get_eq_some_iff.2 hentry)
  | resume i task htask =>
    have hsync := h.syncKey task.key (h.tasks task (mem_of_getElem? htask))
    refine ⟨hsync.tier, fun task' htask' ↦ hsync.tasks task' ?_, hsync.writes, hsync.fresh,
      hsync.synced, hsync.inflight⟩
    rw [syncKey_tasks]
    exact mem_of_mem_eraseIdx htask'
  | advance l i w w' hw hmoves => exact h.advance hw hmoves
  | settle i w result hw hst => exact h.settle hw hst

/-! ### When no write is in flight -/

/-- Without a write in flight, the writes of an object have settled. -/
theorem Accounted.settled (h : Accounted s) {a : ℕ} (hidle : (s.objects a).inflight = none)
    (hw : w ∈ s.writes) (haddr : w.addr = a) : w.done = true := by
  obtain ⟨i, hi⟩ := mem_iff_getElem?.1 hw
  by_contra hdone
  have hinflight := h.inflight hi (Bool.eq_false_iff.2 hdone)
  rw [haddr, hidle] at hinflight
  cases hinflight

/-- **What is lost.** In every run, for every object that has no write in flight, `synced` is the
sum of what was committed to the store for it exactly if no write for it has failed in all its
attempts. -/
theorem synced_eq_committed_iff (now : ℚ) (as : List Label)
    (hrun : Machine.run step (init now) as = some s) {a : ℕ}
    (hidle : (s.objects a).inflight = none) :
    (s.objects a).synced = s.committed a ↔
      ∀ w ∈ s.writes, w.addr = a → w.failures < maxAttempts := by
  have h : Accounted s :=
    Machine.run_invariant' (fun h hstep ↦ h.step hstep) (accounted_init now) hrun
  have hall : s.committed a = s.pushed a ↔ ∀ w ∈ s.writes, w.addr = a → w.committed = true :=
    sum_committed_eq_iff fun w hw ↦ (h.writes w hw).2.delta
  rw [h.synced, eq_comm, hall]
  refine forall₂_congr fun w hw ↦ forall_congr' fun haddr ↦ ?_
  exact (h.writes w hw).2.committed_iff (h.settled hidle hw haddr)

/-- A push whose second attempt succeeds. -/
def retriedPush : List Label :=
  [.check "10.0.0.1" 2 60000 0, .read 0 (.error "timeout") 1, .wake 0, .read 0 (.ok none) 30,
    .commit 0 (.ok ()), .settle 0]

/-- What is asked for after a run on one key. -/
def summary (as : List Label) : Option (Option ℕ × Option ℕ × ℕ × ℕ × List ℕ) :=
  (Machine.run step (init 0) as).map fun s ↦ (s.memoryTier.get "10.0.0.1", (s.objects 0).inflight,
    (s.objects 0).synced, s.committed 0, s.writes.map Write.failures)

theorem summary_retriedPush : summary retriedPush = some (some 0, none, 1, 1, [1]) := by
  decide +kernel

theorem synced_eq_committed_iff_retried :
    ∃ s, Machine.run step (init 0) retriedPush = some s ∧ (s.objects 0).synced = s.committed 0 := by
  obtain ⟨s, hs, hsummary⟩ := map_eq_some_iff.1 summary_retriedPush
  simp only [Prod.mk.injEq] at hsummary
  obtain ⟨-, hidle, -, -, hfailures⟩ := hsummary
  refine ⟨s, hs, (synced_eq_committed_iff 0 retriedPush hs hidle).2 fun w hw _ ↦ ?_⟩
  have hmem : w.failures ∈ s.writes.map failures := List.mem_map_of_mem hw
  rw [hfailures, mem_singleton] at hmem
  rw [hmem]
  decide

/-- A push whose three attempts fail. -/
def failedPush : List Label :=
  [.check "10.0.0.1" 2 60000 0, .read 0 (.error "timeout") 1, .wake 0,
    .read 0 (.error "timeout") 30, .wake 0, .read 0 (.error "timeout") 80, .settle 0]

theorem summary_failedPush : summary failedPush = some (some 0, none, 1, 0, [3]) := by
  decide +kernel

/-- The request is counted as pushed, and nothing is in the store. -/
theorem failed_push_kept : ∃ s, Machine.run step (init 0) failedPush = some s ∧
    s.memoryTier.get "10.0.0.1" = some 0 ∧ (s.objects 0).inflight = none ∧
      (s.objects 0).synced ≠ s.committed 0 := by
  obtain ⟨s, hs, hsummary⟩ := map_eq_some_iff.1 summary_failedPush
  simp only [Prod.mk.injEq] at hsummary
  obtain ⟨hkey, hidle, hsynced, hcommitted, -⟩ := hsummary
  exact ⟨s, hs, hkey, hidle, by rw [hsynced, hcommitted]; decide⟩

end RateLimitService

end Identity
