import CounterTerrorist.Foundations.ChainLock
import CounterTerrorist.Sidecar.Manager
import Mathlib.Tactic.IntervalCases

/-!
# Writes to one sidecar

`rawSendCommand` replaces the lock of its sidecar by one of its own and waits for the one that it
found. Between `getWriter` and the release of its lock it writes the command and waits for the
response. The locks of one sidecar are a chain in the sense of `ChainLock`: `chain` reads it off the
manager, and every step of the manager is a run of the chain (`chain_step`). What is known about
chains is then known about the manager.

## Waking up

That a promise has settled does not mean that whoever waits for it goes on: the runtime has to run
the continuation. `Settles` says that it does, beside what it says about writes and races.

## Timers

The timer of a call starts before the call queues, and when it fires the call goes on queueing. So a
command may be written after the call has timed out. `OnTime` rules this out.
-/

namespace Sidecar

open List Machine Option ChainLock

open ChainLock (Phase Op Chain)

/-! ### The chain of a sidecar -/

/-- Where a call is, for the lock. A call that ended without having queued never touched it. -/
def Stage.phase : Stage → Phase ℕ
  | spawning => .absent
  | queued _ prevLock => .waiting prevLock
  | writing _ | racing _ _ => .inside
  | returned q _ _ | done q _ _ => if q.isSome then .gone else .absent

@[simp] theorem Stage.phase_modify (f : Request → Request) (stage : Stage) :
    (stage.modify f).phase = stage.phase := by
  cases stage <;> simp [modify, phase]

@[simp] theorem Stage.phase_settle (r : CommandResult) (stage : Stage) :
    (stage.settle r).phase = stage.phase := by
  cases stage <;> rfl

/-- Where a call is in the chain of sidecar `name`. -/
def Call.phase (name : String) (c : Call) : Phase ℕ :=
  if c.name = name then c.stage.phase else .absent

theorem Call.phase_respond (name : String) (c : Call) (r : Response) :
    (c.respond r).phase name = c.phase name := by
  rw [respond]
  split
  · rfl
  · simp [phase]

theorem Call.phase_expire (env : Env) (name : String) (c : Call) (q : Request) :
    (c.expire env q).phase name = c.phase name := by
  simp [phase, expire]

namespace SidecarManager

variable {env : Env} {name : String} {s t : SidecarManager} {i j : ℕ} {c c' : Call}

/-- Where call `i` is in the chain of sidecar `name`. -/
def phase (name : String) (s : SidecarManager) (i : ℕ) : Phase ℕ :=
  (s.calls[i]?.map (Call.phase name)).getD .absent

/-- The chain of sidecar `name`. -/
def chain (name : String) (s : SidecarManager) : Chain ℕ := ⟨s.stdinLocks name, s.phase name⟩

/-- What a step does to the chain. -/
def lockOps (env : Env) (name : String) (s : SidecarManager) : Action → List (Op ℕ)
  | .resume i reply =>
    match s.calls[i]? with
    | none => []
    | some c =>
      if c.name = name then
        match reply with
        | .sidecar id =>
          if env.validateRequest c.name (c.cmd.withId id) then [.arrive i] else []
        | .locked exception _ => .enter i :: if exception.isSome then [.leave i] else []
        | .writeFailed _ | .settled => [.leave i]
        | _ => []
      else []
  | _ => []

/-- The call that replaces the lock of the sidecar in a step. -/
def replacing (env : Env) (name : String) (s : SidecarManager) (a : Action) : List ℕ :=
  (lockOps env name s a).filterMap Op.arriving

/-- The call that comes to `getWriter` in a step. -/
def entering (env : Env) (name : String) (s : SidecarManager) (a : Action) : List ℕ :=
  (lockOps env name s a).filterMap Op.entering

/-- Call `i` is between `getWriter` and the release of its lock. -/
def InSection (name : String) (s : SidecarManager) (i : ℕ) : Prop :=
  ∃ c, s.calls[i]? = some c ∧ c.name = name ∧
    ∃ q, c.stage = .writing q ∨ ∃ race, c.stage = .racing q race

/-! ### Steps of the chain -/

/-- A call that has queued, as far as phases are concerned. -/
theorem phase_enqueue (s : SidecarManager) (name : String) (i : ℕ) (c : Call) (id : String) :
    ∃ q, (s.enqueue i c id).phase name =
      (s.put i { c with stage := .queued q (s.stdinLocks c.name) }).phase name :=
  ⟨_, rfl⟩

section

variable {stage : Stage} (hc : s.calls[i]? = some c)
include hc

theorem phase_eq : s.phase name i = c.phase name := by
  rw [phase, hc]
  rfl

/-- The chain after a call has changed. -/
theorem chain_put : (s.put i c').chain name = (s.chain name).put i (c'.phase name) := by
  have hlt : i < s.calls.length := (List.getElem?_eq_some_iff.1 hc).1
  have hph : (s.put i c').phase name = Function.update (s.phase name) i (c'.phase name) := by
    funext j
    rw [phase, put, getElem?_set, Function.update_apply]
    by_cases heq : j = i
    · subst heq
      simp [hlt]
    · rw [if_neg (Ne.symm heq), if_neg heq]
      rfl
  rw [chain, hph]
  rfl

/-- A change that the chain does not see. -/
theorem chain_put_of_eq (hph : c'.phase name = c.phase name) :
    (s.put i c').chain name = s.chain name := by
  rw [chain_put hc, hph, ← phase_eq hc]
  exact congrArg (Chain.mk _) (Function.update_eq_self i _)

/-- A call that stays where it is in the chain. -/
theorem chain_stay {stage' : Stage} (hst : c.stage = stage)
    (hph : stage'.phase = stage.phase) :
    some (s.chain name) = some ((s.put i { c with stage := stage' }).chain name) := by
  refine congrArg some (chain_put_of_eq hc ?_).symm
  rw [Call.phase, Call.phase, hst, hph]

/-- Calls to other sidecars are not in the chain. -/
theorem lockOps_resume_of_ne (hname : c.name ≠ name) (reply : Reply) :
    lockOps env name s (.resume i reply) = [] := by
  rw [lockOps, hc]
  exact if_neg hname

variable (hname : c.name = name)
include hname

theorem lockOps_resume (reply : Reply) : lockOps env name s (.resume i reply) = match reply with
      | .sidecar id => if env.validateRequest c.name (c.cmd.withId id) then [.arrive i] else []
      | .locked exception _ => .enter i :: if exception.isSome then [.leave i] else []
      | .writeFailed _ | .settled => [.leave i]
      | _ => [] := by
  rw [lockOps, hc]
  exact if_pos hname

theorem phase_eq_stage : s.phase name i = c.stage.phase := by
  rw [phase_eq hc, Call.phase, if_pos hname]

theorem chain_enqueue (id : String) : (s.enqueue i c id).chain name =
      { (s.chain name).put i (.waiting (s.chain name).tail) with tail := some i } := by
  subst hname
  obtain ⟨q, hq⟩ := s.phase_enqueue c.name i c id
  have hput : (s.put i { c with stage := .queued q (s.stdinLocks c.name) }).chain c.name =
      (s.chain c.name).put i (.waiting (s.chain c.name).tail) := by
    rw [chain_put hc, Call.phase, if_pos rfl]
    rfl
  rw [chain, hq, show (s.enqueue i c id).stdinLocks c.name = some i from Function.update_self ..]
  exact congrArg (Chain.mk (some i)) (congrArg Chain.phase hput)

variable (q : Request) (written : Bool) (outcome : Outcome)

theorem chain_leave : (s.leave i c q written outcome).chain name = (s.chain name).put i .gone := by
  show (s.put i (c.leave q written outcome)).chain name = _
  rw [chain_put hc, Call.phase, if_pos (show (c.leave q written outcome).name = name from hname)]
  rfl

/-- A call that releases its lock. -/
theorem run_leave (hst : c.stage = stage) (hin : stage.phase = .inside) :
    run Chain.step (s.chain name) [.leave i] =
      some ((s.leave i c q written outcome).chain name) := by
  rw [chain_leave hc hname]
  refine run_cons.2 ⟨_, Chain.step_leave ?_, rfl⟩
  exact (phase_eq_stage hc hname).trans (hst ▸ hin)

end

theorem chain_sendCommand (s : SidecarManager) (name' : String) (cmd : Command) (now : ℤ) :
    (s.sendCommand name' cmd now).chain name = s.chain name := by
  obtain ⟨breakers, stage, heq, hst⟩ := s.sendCommand_eq name' cmd now
  have hnew : (⟨name', cmd, stage⟩ : Call).phase name = .absent := by
    obtain rfl | ⟨r, rfl⟩ := hst <;> exact ite_self _
  rw [heq]
  refine congrArg (Chain.mk _) (funext fun j ↦ ?_)
  show (((s.calls ++ [⟨name', cmd, stage⟩])[j]?).map (Call.phase name)).getD .absent =
    s.phase name j
  rw [getElem?_append]
  split
  · rfl
  · rename_i hge
    rw [phase, getElem?_eq_none (Nat.le_of_not_lt hge), getElem?_singleton]
    split
    · exact hnew
    · rfl

theorem chain_fire (hstep : s.fire env i = some t) : t.chain name = s.chain name := by
  obtain ⟨c, q, hc, -, rfl⟩ := exists_of_fire hstep
  exact chain_put_of_eq hc (Call.phase_expire env name c q)

theorem chain_handleIpcLine (s : SidecarManager) (sender text : String) :
    (s.handleIpcLine env sender text).chain name = s.chain name := by
  obtain ⟨calls, waiters, heq, rfl | ⟨i, data, -, rfl⟩⟩ := handleIpcLine_eq env s sender text
  · rw [heq]
    rfl
  · rw [heq]
    refine congrArg (Chain.mk _) (funext fun j ↦ ?_)
    rw [phase, getElem?_modify, Option.map_eq_map, Option.map_map]
    congr 2
    funext c
    by_cases hij : i = j
    · simp [hij, Call.phase_respond]
    · simp [hij]

/-! ### Calls that go on -/

/-- A call whose lock is released has left the chain, if it was there. -/
theorem phase_of_released (h : s.released i = true) :
    s.phase name i = .absent ∨ s.phase name i = .gone := by
  rw [released] at h
  rcases hc : s.calls[i]? with - | c
  · rw [hc] at h
    cases h
  · rw [hc] at h
    rw [phase_eq hc, Call.phase]
    by_cases hname : c.name = name
    · rw [if_pos hname]
      rw [any_some] at h
      cases hst : c.stage with
      | returned q written outcome | done q written r =>
        rw [Stage.phase]
        split
        · exact .inr rfl
        · exact .inl rfl
      | _ =>
        rw [hst] at h
        cases h
    · exact .inl (if_neg hname)

variable {l : ChainLock.Line ℕ} {prevLock : Option ℕ} {a : Action}

/-- Whoever waits may go on when the lock that it found has been released: this call had queued for
the same sidecar. -/
theorem free_of_released (h : Implements (s.chain name) l)
    (hi : s.phase name i = .waiting prevLock) (hreleased : prevLock.all s.released = true) :
    (s.chain name).free prevLock = true := by
  obtain ⟨front, back, hsplit, rfl⟩ := h.split_of_waiting hi
  rcases hlast : (l.entered ++ front).getLast? with - | j
  · rfl
  · rw [hlast] at hreleased
    have hmem : j ∈ l.entered ++ l.queue := by
      rw [hsplit, ← append_assoc]
      exact mem_append_left _ (mem_of_getLast? hlast)
    refine decide_eq_true ((phase_of_released hreleased).resolve_left fun habs ↦ ?_)
    exact (h.absent j).1 habs hmem

variable {reply : Reply}

/-- A call that goes on moves in its chain as `lockOps` says. -/
theorem chain_resume_self (h : Implements (s.chain name) l) (hc : s.calls[i]? = some c)
    (hname : c.name = name) (hstep : s.resume env i reply = some t) :
    run Chain.step (s.chain name) (lockOps env name s (.resume i reply)) = some (t.chain name) := by
  have hph := phase_eq_stage hc hname
  have hput (stage : Stage) : (s.put i { c with stage := stage }).chain name =
      (s.chain name).put i stage.phase := by
    rw [chain_put hc, Call.phase, if_pos (show (Call.mk ..).name = name from hname)]
  obtain ⟨c', hc', hres⟩ := bind_eq_some_iff.1 hstep
  obtain rfl : c = c' := some.inj (hc.symm.trans hc')
  rw [lockOps_resume hc hname]
  split at hres
  · -- `getPersistentSidecar` found a sidecar
    rename_i id hst
    split at hres <;> rename_i hvalid <;> cases hres
    · simp only [if_pos hvalid]
      rw [hst] at hph
      rw [chain_enqueue hc hname]
      exact run_cons.2 ⟨_, if_pos hph, rfl⟩
    · simp only [if_neg hvalid]
      exact chain_stay hc hst rfl
  case h_2 hst | h_3 hst | h_5 hst | h_8 hst =>
    cases hres
    exact chain_stay hc hst rfl
  · -- the lock is free
    rename_i q prevLock exception slot hst
    obtain ⟨hreleased, hres⟩ := ite_none_right_eq_some.1 hres
    rw [hst] at hph
    have henter := Chain.step_enter (c := s.chain name) hph (free_of_released h hph hreleased)
    refine run_cons.2 ⟨_, henter, ?_⟩
    split at hres
    · cases hres
      rw [chain_leave hc hname]
      refine run_cons.2 ⟨_, Chain.step_leave Chain.phase_put_self, ?_⟩
      rw [Chain.put_put]
      rfl
    · split at hres <;> cases hres
      · exact congrArg some (hput (.racing q _)).symm
      · exact congrArg some (hput (.writing q)).symm
  case h_6 q _ hst | h_7 q _ hst =>
    cases hres
    exact run_leave hc hname q _ _ hst rfl
  · cases hres

/-- A call to another sidecar does not touch the chain. -/
theorem chain_resume_of_ne (hc : s.calls[i]? = some c) (hname : c.name ≠ name)
    (hstep : s.resume env i reply = some t) : t.chain name = s.chain name := by
  have hput (c' : Call) (hc' : c'.name = c.name) : (s.put i c').chain name = s.chain name := by
    refine chain_put_of_eq hc ?_
    rw [Call.phase, Call.phase, hc', if_neg hname, if_neg hname]
  obtain ⟨c', hc', hres⟩ := resumed_of_resume hstep
  obtain rfl : c = c' := some.inj (hc.symm.trans hc')
  cases hres with
  | gaveUp | entered | wroteSlot | wrote | threwEarly | threw | settled | reported =>
    exact hput _ rfl
  | enqueued id =>
    have hlock : (s.enqueue i c id).stdinLocks name = s.stdinLocks name :=
      Function.update_of_ne (Ne.symm hname) ..
    obtain ⟨q, hq⟩ := s.phase_enqueue name i c id
    rw [chain, hlock, hq]
    exact hput { c with stage := .queued q (s.stdinLocks c.name) } rfl

/-- Every step of the manager is a run of the chain. -/
theorem chain_step (h : Implements (s.chain name) l) (hstep : s.step env a = some t) :
    run Chain.step (s.chain name) (lockOps env name s a) = some (t.chain name) := by
  cases a with
  | sendCommand name' cmd now =>
    obtain rfl := some.inj hstep
    exact congrArg some (chain_sendCommand s name' cmd now).symm
  | resume i reply =>
    obtain ⟨c, hc, -⟩ := bind_eq_some_iff.1 hstep
    by_cases hname : c.name = name
    · exact chain_resume_self h hc hname hstep
    · rw [lockOps_resume_of_ne hc hname, chain_resume_of_ne hc hname hstep]
      rfl
  | timeout i => exact congrArg some (chain_fire hstep).symm
  | line sender text =>
    obtain rfl := some.inj hstep
    exact congrArg some (chain_handleIpcLine s sender text).symm

/-- The chain of a sidecar is always a line. -/
def Lined (name : String) (s : SidecarManager) : Prop :=
  ∃ l, ChainLock.Implements (s.chain name) l

theorem lined_init (name : String) : Lined name init := ⟨_, Implements.empty⟩

/-- Every step keeps the line. -/
theorem Lined.step (h : Lined name s) (hstep : s.step env a = some t) : Lined name t := by
  obtain ⟨l, hl⟩ := h
  obtain ⟨m, -, hm⟩ := hl.run (chain_step hl hstep)
  exact ⟨m, hm⟩

/-- Every run of the manager is a run of the chain, and of the line. -/
theorem line_run {as : List Action} (name : String) (hrun : run (step env) init as = some t) :
    ∃ l, run Line.step .empty (trace (step env) (lockOps env name) init as) = some l ∧
      Implements (t.chain name) l := by
  have hchain : run Chain.step (init.chain name)
      (trace (step env) (lockOps env name) init as) = some (t.chain name) :=
    run_trace (P := Lined name) Lined.step (fun ⟨_, hl⟩ hstep ↦ chain_step hl hstep)
      (lined_init name) hrun
  exact Implements.empty.run hchain

theorem phase_of_inSection (h : InSection name s i) : s.phase name i = .inside := by
  obtain ⟨c, hc, hname, q, hst⟩ := h
  rw [phase_eq_stage hc hname]
  rcases hst with hst | ⟨race, hst⟩ <;> rw [hst] <;> rfl

/-! ### Whole executions -/

/-- Every write and every race settles, and a call whose turn it is goes on. -/
structure Settles (x : Machine.Execution (step env) init) : Prop where
  writes : ∀ n i c q, (x.state n).calls[i]? = some c → c.stage = .writing q →
    ∃ m, n ≤ m ∧
      (x.label m = .resume i .wrote ∨ ∃ message, x.label m = .resume i (.writeFailed message))
  races : ∀ n i c q race, (x.state n).calls[i]? = some c → c.stage = .racing q race →
    ∃ m, n ≤ m ∧ x.label m = .resume i .settled
  wakes : ∀ n i c q prevLock, (x.state n).calls[i]? = some c → c.stage = .queued q prevLock →
    prevLock.all (x.state n).released = true →
    ∃ m, n ≤ m ∧ ∃ exception slot, x.label m = .resume i (.locked exception slot)

theorem exists_call_of_phase {phase : Phase ℕ} (h : s.phase name i = phase)
    (hpresent : phase ≠ .absent) :
    ∃ c, s.calls[i]? = some c ∧ c.name = name ∧ c.stage.phase = phase := by
  subst h
  rcases hc : s.calls[i]? with - | c
  · exact absurd (by rw [SidecarManager.phase, hc]; rfl) hpresent
  · by_cases hname : c.name = name
    · exact ⟨c, rfl, hname, (phase_eq_stage hc hname).symm⟩
    · exact absurd (by rw [phase_eq hc, Call.phase, if_neg hname]) hpresent

/-- Whoever is gone has released its lock. -/
theorem released_of_free (h : (s.chain name).free prevLock = true) :
    prevLock.all s.released = true := by
  rcases prevLock with - | j
  · rfl
  · obtain ⟨c, hc, -, hph⟩ := exists_call_of_phase (of_decide_eq_true h) nofun
    rw [all_some, released, hc, any_some]
    generalize c.stage = stage at hph
    cases stage with
    | returned | done => rfl
    | _ => cases hph

/-- Only a call that goes on with the lock enters. -/
theorem label_of_enter_mem (h : .enter i ∈ lockOps env name s a) :
    ∃ exception slot, a = .resume i (.locked exception slot) := by
  cases a with
  | sendCommand | timeout | line => cases h
  | resume j reply =>
    rcases hc : s.calls[j]? with - | c
    · rw [lockOps, hc] at h
      cases h
    · by_cases hname : c.name = name
      · rw [lockOps_resume hc hname] at h
        cases reply with
        | locked exception slot =>
          rcases exception with - | message <;> simp at h <;> subst h <;> exact ⟨_, slot, rfl⟩
        | sidecar id =>
          dsimp only at h
          split at h <;> simp at h
        | _ => simp at h
      · rw [lockOps_resume_of_ne hc hname] at h
        cases h

/-- After the write comes the race. -/
theorem racing_of_wrote (hc : s.calls[i]? = some c) (hstep : s.resume env i .wrote = some t) :
    ∃ c' q race, t.calls[i]? = some c' ∧ c'.name = c.name ∧ c'.stage = .racing q race := by
  have hlt : i < s.calls.length := (List.getElem?_eq_some_iff.1 hc).1
  obtain ⟨c', hc', h⟩ := bind_eq_some_iff.1 hstep
  obtain rfl : c = c' := some.inj (hc.symm.trans hc')
  generalize hreply : Reply.wrote = reply at h
  split at h <;> cases hreply
  · rename_i q hst
    obtain rfl := some.inj h
    exact ⟨c.startRace env q, q, _, getElem?_set_self hlt, rfl, rfl⟩
  · cases h

section Execution

variable (x : Machine.Execution (step env) init)

theorem lined_state (name : String) (n : ℕ) : Lined name (x.state n) :=
  x.invariant (lined_init name) (fun n h ↦ h.step (x.next n)) n

theorem chain_run (name : String) (n : ℕ) :
    run Chain.step ((x.state n).chain name) (lockOps env name (x.state n) (x.label n)) =
      some ((x.state (n + 1)).chain name) := by
  obtain ⟨l, hl⟩ := lined_state x name n
  exact chain_step hl (x.next n)

variable {n : ℕ}

/-- A call of the chain is one from then on. -/
theorem exists_call_of_le {m : ℕ} (hnm : n ≤ m) (hc : (x.state n).calls[i]? = some c)
    (hname : c.name = name) (hpresent : c.stage.phase ≠ .absent) :
    ∃ c, (x.state m).calls[i]? = some c ∧ c.name = name := by
  rw [← phase_eq_stage hc hname] at hpresent
  obtain ⟨c, hc, hname, -⟩ := exists_call_of_phase rfl (x.forever
    (P := fun s ↦ s.phase name i ≠ .absent) (fun k ↦ Chain.present_run (chain_run x name k)) hnm
      hpresent)
  exact ⟨c, hc, hname⟩

variable {x} {q : Request} (hx : Settles x)
include hx

/-- Every race ends, and its call releases the lock. -/
theorem leaves_of_racing {race : Option CommandResult}
    (hc : (x.state n).calls[i]? = some c) (hname : c.name = name)
    (hst : c.stage = .racing q race) :
    ∃ m, n ≤ m ∧ .leave i ∈ lockOps env name (x.state m) (x.label m) := by
  obtain ⟨m, hnm, hlabel⟩ := hx.races n i c q race hc hst
  obtain ⟨c', hc', hname'⟩ := exists_call_of_le x hnm hc hname (by rw [hst]; nofun)
  refine ⟨m, hnm, ?_⟩
  rw [hlabel, lockOps_resume hc' hname']
  exact mem_singleton_self _

theorem leaves_of_writing (hc : (x.state n).calls[i]? = some c) (hname : c.name = name)
    (hst : c.stage = .writing q) :
    ∃ m, n ≤ m ∧ .leave i ∈ lockOps env name (x.state m) (x.label m) := by
  obtain ⟨m, hnm, hlabel⟩ := hx.writes n i c q hc hst
  obtain ⟨c', hc', hname'⟩ := exists_call_of_le x hnm hc hname (by rw [hst]; nofun)
  rcases hlabel with hlabel | ⟨message, hlabel⟩
  · -- the race has started
    have hnext := x.next m
    rw [hlabel] at hnext
    obtain ⟨c'', q', race, hc'', hname'', hstage''⟩ := racing_of_wrote hc' hnext
    obtain ⟨k, hmk, hk⟩ := leaves_of_racing hx hc'' (hname''.trans hname') hstage''
    exact ⟨k, Nat.le_trans (Nat.le_succ_of_le hnm) hmk, hk⟩
  · refine ⟨m, hnm, ?_⟩
    rw [hlabel, lockOps_resume hc' hname']
    exact mem_singleton_self _

/-- Every call that has come to `getWriter` releases its lock. -/
theorem eventually_leaves (hi : (x.state n).phase name i = .inside) :
    ∃ m, n ≤ m ∧ .leave i ∈ lockOps env name (x.state m) (x.label m) := by
  obtain ⟨c, hc, hname, hph⟩ := exists_call_of_phase hi nofun
  cases hst : c.stage with
  | writing q => exact leaves_of_writing hx hc hname hst
  | racing q race => exact leaves_of_racing hx hc hname hst
  | spawning | queued =>
    rw [hst] at hph
    cases hph
  | returned q | done q =>
    rw [hst, Stage.phase] at hph
    split at hph <;> cases hph

/-- A call whose turn it is enters. -/
theorem enters_of_free (hi : (x.state n).phase name i = .waiting prevLock)
    (hfree : ((x.state n).chain name).free prevLock = true) :
    ∃ m, n ≤ m ∧ .enter i ∈ lockOps env name (x.state m) (x.label m) := by
  obtain ⟨c, hc, hname, hph⟩ := exists_call_of_phase hi nofun
  have hpresent : c.stage.phase ≠ .absent := by
    rw [hph]
    nofun
  cases hst : c.stage with
  | queued q prev =>
    rw [hst] at hph
    cases hph
    obtain ⟨m, hnm, exception, slot, hlabel⟩ := hx.wakes n i c q prevLock hc hst
      (released_of_free hfree)
    obtain ⟨c', hc', hname'⟩ := exists_call_of_le x hnm hc hname hpresent
    refine ⟨m, hnm, ?_⟩
    rw [hlabel, lockOps_resume hc' hname']
    exact mem_cons_self
  | spawning | writing | racing =>
    rw [hst] at hph
    cases hph
  | returned q | done q =>
    rw [hst, Stage.phase] at hph
    split at hph <;> cases hph

end Execution

/-- For every interleaving of calls, timers and lines: at most one call at a time is between
`getWriter` and the release of its lock, and calls come to `getWriter` in the order in which they
replaced the lock. If writes and races settle, every call that waits gets there. -/
theorem writes_serialised (env : Env) (name : String) :
    (∀ (as : List Action) (t : SidecarManager), Machine.run (step env) init as = some t →
      (∀ i j, InSection name t i → InSection name t j → i = j) ∧
      (Machine.trace (step env) (replacing env name) init as).Nodup ∧
      Machine.trace (step env) (entering env name) init as <+:
        Machine.trace (step env) (replacing env name) init as) ∧
    ∀ x : Machine.Execution (step env) init, Settles x →
      ∀ n i c q prevLock, (x.state n).calls[i]? = some c → c.name = name →
        c.stage = .queued q prevLock →
        ∃ m, n ≤ m ∧ ∃ exception slot, x.label m = .resume i (.locked exception slot) := by
  refine ⟨fun as t hrun ↦ ?_, fun x hx n i c q prevLock hc hname hstage ↦ ?_⟩
  · obtain ⟨l, hl, himpl⟩ := line_run name hrun
    obtain ⟨hentered, harrived⟩ := Line.run_empty hl
    rw [trace_filterMap] at hentered harrived
    refine ⟨fun i j hi hj ↦ ?_, ?_, ?_⟩
    · exact himpl.inside_unique (phase_of_inSection hi) (phase_of_inSection hj)
    · exact harrived ▸ himpl.nodup
    · exact ⟨l.queue, (congrArg (· ++ l.queue) hentered).trans harrived.symm⟩
  · have hwaits : (x.state n).phase name i = .waiting prevLock := by
      rw [phase_eq_stage hc hname, hstage]
      rfl
    obtain ⟨m, hnm, hm⟩ := eventually_enters (c := fun n ↦ (x.state n).chain name)
      (by rw [x.start]; rfl) (chain_run x name) (fun n i prev ↦ enters_of_free hx)
      (fun n i ↦ eventually_leaves hx) hwaits
    exact ⟨m, hnm, label_of_enter_mem hm⟩

/-! ### Two runs -/

/-- A manager whose sidecars print nothing that it understands. -/
def quietEnv : Env where
  secrets := []
  parse _ := none
  validateRequest _ _ := true
  coerceString _ := ""

/-- The command to kill a process. -/
def killProcess : Command := .object [("type", .str "KillProcess"), ("pid", .num 4242)]

/-- A command that is not answered, and a command to kill a process behind it. The second one times
out while it waits. Then the first one ends, and the second one is written. -/
def lateKill : List Action :=
  [.sendCommand "sentinel" (.text "GET_STATUS") 0, .sendCommand "sentinel" killProcess 0,
    .resume 0 (.sidecar "u0"), .resume 1 (.sidecar "u1"), .resume 0 (.locked none false),
    .resume 0 .wrote, .timeout 1, .timeout 0, .resume 0 .settled, .resume 1 (.locked none true)]

/-- After these steps the second command ends, and then nothing happens any more. -/
def lateLabel : ℕ → Action
  | 10 => .resume 1 .settled
  | n => lateKill.getD n (.line "sentinel" "")

/-- The two commands as an execution. -/
def late : Machine.Execution (step quietEnv) init where
  state := Machine.Execution.states (step quietEnv) (fun n _ ↦ lateLabel n) init
  label := lateLabel
  start := rfl
  next
    | 0 | 1 | 2 | 3 | 4 | 5 | 6 | 7 | 8 | 9 | 10 | _ + 11 => rfl

/-- At a time at which a call is not over, not all of these steps have been made. -/
theorem late_cases {n : ℕ} {stage : Stage} (hc : (late.state n).calls[i]? = some c)
    (hst : c.stage = stage) (hopen : stage.phase ≠ .gone) : n < 11 := by
  have hover (n : ℕ) : (late.state (n + 11)).calls = (late.state 11).calls := by
    induction n with
    | zero => rfl
    | succ n ih => exact ih
  subst hst
  by_contra hn
  obtain ⟨n, rfl⟩ := Nat.exists_eq_add_of_le' (Nat.le_of_not_lt hn)
  rw [hover] at hc
  rcases i with - | - | i <;> cases hc <;> exact hopen rfl

/-- Both commands are written, both races are decided, and both calls get their turn. -/
theorem settles_late : Settles late where
  writes n i c q hc hst := by
    have hn := late_cases hc hst (by rintro ⟨⟩)
    rcases i with - | - | i <;> interval_cases n <;> cases hc <;> cases hst
    exact ⟨5, Nat.le_refl 5, .inl rfl⟩
  races n i c q race hc hst := by
    have hn := late_cases hc hst (by rintro ⟨⟩)
    rcases i with - | - | i <;> interval_cases n <;> cases hc <;> cases hst
    iterate 3 exact ⟨8, by decide, rfl⟩
    exact ⟨10, by decide, rfl⟩
  wakes n i c q prevLock hc hst _ := by
    have hn := late_cases hc hst (by rintro ⟨⟩)
    rcases i with - | - | i <;> interval_cases n <;> cases hc <;> cases hst
    iterate 2 exact ⟨4, by decide, _, _, rfl⟩
    all_goals exact ⟨9, by decide, _, _, rfl⟩

/-- The second command writes alone, after the first one, and while it waits behind the first one it
can be sure to get its turn. -/
theorem writes_serialised_sentinel :
    (∃ t, Machine.run (step quietEnv) init lateKill = some t ∧ InSection "sentinel" t 1 ∧
      (∀ j, InSection "sentinel" t j → j = 1) ∧
      Machine.trace (step quietEnv) (entering quietEnv "sentinel") init lateKill <+:
        Machine.trace (step quietEnv) (replacing quietEnv "sentinel") init lateKill) ∧
    ∃ m, 4 ≤ m ∧ ∃ exception slot, late.label m = .resume 1 (.locked exception slot) := by
  obtain ⟨hruns, hexecutions⟩ := writes_serialised quietEnv "sentinel"
  obtain ⟨t, hrun, hsection⟩ :
      ∃ t, run (step quietEnv) init lateKill = some t ∧ InSection "sentinel" t 1 :=
    ⟨_, rfl, _, rfl, rfl, _, .inr ⟨_, rfl⟩⟩
  obtain ⟨hone, -, hinit⟩ := hruns lateKill t hrun
  exact ⟨⟨t, hrun, hsection, fun j hj ↦ hone j 1 hj hsection, hinit⟩,
    hexecutions late settles_late 4 1 _ _ (some 0) rfl rfl rfl⟩

/-! ### Commands that have timed out -/

/-- Whether the command of call `i` was written, once this is decided. -/
def written (s : SidecarManager) (i : ℕ) : Option Bool := s.calls[i]?.bind fun c ↦ c.stage.written

/-- The timer of call `i` does not fire while the call waits for the lock or for its write. -/
def OnTime (i : ℕ) (s : SidecarManager) (a : Action) : Prop :=
  a = .timeout i → ∀ c q, s.calls[i]? = some c →
    c.stage ≠ .writing q ∧ ∀ prevLock, c.stage ≠ .queued q prevLock

/-- Somewhere in the run the timer of call `i` fires, when its command has not been written, and
later on the command has been written. -/
def WrittenLate (env : Env) (i : ℕ) (as : List Action) : Prop :=
  ∃ before between after s t, as = before ++ .timeout i :: between ++ after ∧
    Machine.run (step env) init before = some s ∧ s.written i ≠ some true ∧
    Machine.run (step env) init (before ++ .timeout i :: between) = some t ∧
    t.written i = some true

variable {j : ℕ} {w : Bool}

/-- A change of a call that leaves open or decided what it was. -/
theorem written_put (hc : s.calls[j]? = some c)
    (hc' : ∀ w, c.stage.written = some w → c'.stage.written = some w)
    (h : s.written i = some w) : (s.put j c').written i = some w := by
  show (s.calls.set j c')[i]?.bind _ = some w
  by_cases hij : j = i
  · subst hij
    rw [getElem?_set_self (List.getElem?_eq_some_iff.1 hc).1]
    rw [written, hc] at h
    exact hc' w h
  · rw [getElem?_set_ne hij]
    exact h

/-- What is decided about a write stays so. -/
theorem written_step (h : s.written i = some w) (hstep : s.step env a = some t) :
    t.written i = some w := by
  cases a with
  | sendCommand name' cmd now =>
    obtain rfl := some.inj hstep
    obtain ⟨breakers, stage, heq, -⟩ := s.sendCommand_eq name' cmd now
    obtain ⟨c, hc, -⟩ := bind_eq_some_iff.1 h
    rw [heq, written, getElem?_append_left (List.getElem?_eq_some_iff.1 hc).1]
    exact h
  | resume j reply =>
    obtain ⟨c, hc, hres⟩ := resumed_of_resume hstep
    -- only a call at its race, or after it, has decided about its write
    cases hres with
    | gaveUp _ hstage | enqueued _ hstage | entered hstage | wroteSlot hstage | wrote hstage
    | threwEarly _ hstage | threw _ hstage =>
      exact written_put hc (by simp [hstage, Stage.written]) h
    | settled hstage | reported _ hstage =>
      exact written_put hc (by simp [hstage, Stage.written, Call.leave]) h
  | timeout j =>
    obtain ⟨c, q, hc, -, rfl⟩ := exists_of_fire hstep
    exact written_put hc (fun w hw ↦ by simpa [Call.expire] using hw) h
  | line sender text =>
    obtain rfl := some.inj hstep
    obtain ⟨calls, waiters, heq, rfl | ⟨j, data, -, rfl⟩⟩ := handleIpcLine_eq env s sender text
    · rw [heq]
      exact h
    · obtain ⟨c, hc, hw⟩ := bind_eq_some_iff.1 h
      rw [heq, written, getElem?_modify, hc]
      show (if j = i then _ else c).stage.written = some w
      rw [← hw]
      split <;> simp [Call.respond, apply_ite]

/-- In every run in which the timer of a call does not fire while the call waits for the lock or for
its write, its command is not written after the timeout. -/
theorem no_write_after_timeout {as : List Action}
    (hok : Machine.Guarded (step env) (OnTime i) init as) : ¬ WrittenLate env i as := by
  rintro ⟨before, between, after, s, t, rfl, hbefore, hopen, hrun, hwritten⟩
  obtain ⟨s', u, hbefore', hfire, hbetween⟩ := run_append_cons.1 hrun
  obtain rfl : s = s' := some.inj (hbefore.symm.trans hbefore')
  rw [append_assoc] at hok
  obtain ⟨c, q, hc, hq, -⟩ := exists_of_fire hfire
  obtain ⟨hwriting, hqueued⟩ := ((guarded_append.1 hok).2 s hbefore).1 rfl c q hc
  obtain ⟨w, hw⟩ : ∃ w, s.written i = some w := by
    rw [written, hc]
    show ∃ w, c.stage.written = some w
    cases hst : c.stage with
    | spawning =>
      rw [hst] at hq
      cases hq
    | queued q' prevLock | writing q' =>
      rw [hst] at hq
      obtain rfl := some.inj hq
      first | exact absurd hst hwriting | exact absurd hst (hqueued prevLock)
    | racing | returned | done => exact ⟨_, rfl⟩
  have hkept : t.written i = some w :=
    run_invariant' (P := fun s ↦ s.written i = some w) written_step (written_step hw hfire)
      hbetween
  rw [hkept] at hwritten
  exact hopen (hwritten ▸ hw)

/-- The process is killed although its call has timed out, after five seconds, and reports that. -/
theorem expired_kill_written :
    WrittenLate quietEnv 1 lateKill ∧ timeoutMs (.str "KillProcess") = 5000 ∧
      ∃ t c q, Machine.run (step quietEnv) init lateKill = some t ∧ t.calls[1]? = some c ∧
        c.stage = .racing q (some (quietEnv.timeoutResult "sentinel" (.str "KillProcess"))) :=
  ⟨⟨lateKill.take 6, lateKill.drop 7, [], _, _, rfl, rfl, by rintro ⟨⟩, rfl, rfl⟩, rfl, _, _, _,
    rfl, rfl, rfl⟩

/-- The same command without another one before it: the timer fires after the write. -/
def timelyKill : List Action :=
  [.sendCommand "sentinel" killProcess 0, .resume 0 (.sidecar "u0"), .resume 0 (.locked none true),
    .timeout 0, .resume 0 .settled]

theorem no_write_after_timeout_timelyKill :
    (Machine.run (step quietEnv) init timelyKill).isSome = true ∧
      ¬ WrittenLate quietEnv 0 timelyKill := by
  refine ⟨rfl, no_write_after_timeout ?_⟩
  refine ⟨by rintro ⟨⟩, fun t ht ↦ ?_⟩
  obtain rfl := some.inj ht
  refine ⟨by rintro ⟨⟩, fun t ht ↦ ?_⟩
  obtain rfl := some.inj ht
  refine ⟨by rintro ⟨⟩, fun t ht ↦ ?_⟩
  obtain rfl := some.inj ht
  refine ⟨fun _ c q hc ↦ ?_, fun t ht ↦ ?_⟩
  · obtain rfl := some.inj hc
    exact ⟨by rintro ⟨⟩, by rintro _ ⟨⟩⟩
  · obtain rfl := some.inj ht
    exact ⟨by rintro ⟨⟩, fun t ht ↦ trivial⟩

end SidecarManager

end Sidecar
