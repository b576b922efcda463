import CounterTerrorist.Foundations.Run

/-!
# The life of a sidecar

`getPersistentSidecar`, `restartSidecar` and `stopSidecar`, with the callbacks that a child leaves
behind: the handler of its status, the reader of its stdout, the setup of its shared memory, the
removal of its files.

The maps of `SidecarManager`, `SidecarSpawner` and `IpcCoordinator` are keyed by the name of a
sidecar, and nothing touches the entries of two names at once. The machine is that of one sidecar:
its fields are the entries under `env.name`.

## Tasks

Everything that waits for something is a task, known by its number. A promise is known by the task
that settles it. `shmemPaths` holds arrays, and `clearMappings` goes on with the array it has found
while others may append to it, so arrays have numbers, too.

## What is left out

`handleSidecarExit` decides whether and when `getPersistentSidecar` is called again, or the breaker
trips. Both can happen at any time here. Nothing between the start of a process and its registration
throws.

## The lock

A spawn attempt is recorded after it has been started. An attempt that ends before its first await
point takes its record away before it is made (`lookUp`, without a configuration), and the record
stays. `spawn_lock_released` is about runs in which this does not happen.
-/

namespace Sidecar

open List Machine Option

/-- The sidecar. -/
structure SidecarId where
  name : String
  /-- `isAllowedSidecar`. -/
  allowed : Bool

/-- Whether the sidecar has shared memory. -/
def SidecarId.shares (env : SidecarId) : Bool := env.name = "sentinel" ∨ env.name = "netcap"

/-- A process. -/
structure Child where
  pid : ℕ
  exited : Bool
deriving Repr, DecidableEq

/-- `cts_name_pid`, or `cts_cmd_name_pid`. -/
structure ShmemPath where
  cmd : Bool
  pid : ℕ
deriving Repr, DecidableEq

/-- What waits for something. -/
inductive Task
  /-- `getPersistentSidecar`, at `manifestPromise`. -/
  | lookup
  /-- At the promise of a spawn attempt, its own or another one's. -/
  | awaiting (attempt : ℕ)
  | returned (child : Option ℕ)
  | threw
  /-- A spawn attempt, at `findBinary`. -/
  | finding
  /-- At `verifyAndHeal`. -/
  | verifying
  /-- At `getSidecarEnv`. -/
  | preparing
  /-- At `spawn`, before there is a process. -/
  | spawning
  /-- At `spawn`, which has started the process. -/
  | launching (child : ℕ)
  /-- The attempt has ended. -/
  | settled (child : Option ℕ)
  /-- `child.status.then`. -/
  | watching (child : ℕ)
  /-- `setupSharedMemory`. -/
  | mapping (child : ℕ)
  /-- `startResponseReader`. -/
  | reading (child : ℕ)
  /-- `stopSidecar`, at `process.status`. -/
  | stopping (child : ℕ) (restart : Bool)
  /-- `clearMappings`, at the path with the given index. -/
  | clearing (child array index : ℕ) (restart : Bool)
  | finished
deriving Repr, DecidableEq

/-- Whether a task is a spawn attempt that has not ended, and the process that it has started. -/
def Task.attempt : Task → Option (Option ℕ)
  | finding | verifying | preparing | spawning => some none
  | launching child => some (some child)
  | _ => none

/-- The child that `clearMappings` cleans up after. -/
def Task.cleans : Task → Option ℕ
  | clearing child _ _ _ => some child
  | _ => none

/-- What follows on `stopSidecar`: in `restartSidecar`, `getPersistentSidecar`. -/
def Task.afterStop (restart : Bool) : Task := if restart then lookup else finished

/-- The manager, as far as one sidecar is concerned. -/
structure Lifecycle where
  /-- Whether `setConfig` has been called. -/
  config : Bool
  tripped : Bool
  unsupported : Bool
  persistentProcess : Option ℕ
  spawningPromise : Option ℕ
  mappedShmem : Option ℕ
  mappedCmdShmem : Option ℕ
  shmemPaths : Option ℕ
  arrays : List (List ShmemPath)
  /-- The files under `/dev/shm`. -/
  files : List ShmemPath
  children : List Child
  tasks : List Task
deriving Repr, DecidableEq

namespace Lifecycle

/-- A new manager. -/
def init : Lifecycle where
  config := false
  tripped := false
  unsupported := false
  persistentProcess := none
  spawningPromise := none
  mappedShmem := none
  mappedCmdShmem := none
  shmemPaths := none
  arrays := []
  files := []
  children := []
  tasks := []

/-- Task `k` is now `task`. -/
def put (s : Lifecycle) (k : ℕ) (task : Task) : Lifecycle := { s with tasks := s.tasks.set k task }

/-- Whether a process has ended. -/
def exited (s : Lifecycle) (child : ℕ) : Bool := s.children[child]?.any Child.exited

/-- The paths in an array. -/
def paths (s : Lifecycle) (array : ℕ) : List ShmemPath := s.arrays.getD array []

/-- Call `k` starts a spawn attempt and waits for it. Without a configuration the attempt ends at
once; its promise is recorded after that. -/
def start (s : Lifecycle) (k : ℕ) : Lifecycle :=
  let attempt : Task := if s.config then .finding else .settled none
  { s with
    tasks := s.tasks.set k (.awaiting s.tasks.length) ++ [attempt]
    spawningPromise := some s.tasks.length }

/-- `getPersistentSidecar`, from the manifest on. -/
def lookUp (env : SidecarId) (s : Lifecycle) (k : ℕ) : Lifecycle :=
  if env.allowed = false then s.put k .threw
  else if s.unsupported then s.put k (.returned none)
  else if s.tripped then s.put k (.returned none)
  else
    match s.persistentProcess, s.spawningPromise with
    | some child, _ => s.put k (.returned (some child))
    | none, some attempt => s.put k (.awaiting attempt)
    | none, none => s.start k

/-- The end of a spawn attempt. -/
def settle (s : Lifecycle) (k : ℕ) (child : Option ℕ) : Lifecycle :=
  { s.put k (.settled child) with spawningPromise := none }

/-- `setupSharedMemory`, up to its first await point. -/
def setupSharedMemory (s : Lifecycle) (child pid : ℕ) : Lifecycle :=
  let new : List ShmemPath := [⟨false, pid⟩, ⟨true, pid⟩]
  let s' := match s.shmemPaths with
    | some array => { s with arrays := s.arrays.modify array (· ++ new) }
    | none => { s with arrays := s.arrays ++ [new], shmemPaths := some s.arrays.length }
  { s' with tasks := s'.tasks ++ [.mapping child] }

/-- A spawn attempt that has got its process goes on, to its end. -/
def launch (env : SidecarId) (s : Lifecycle) (k child pid : ℕ) : Lifecycle :=
  let s₁ := s.settle k (some child)
  let s₂ := { s₁ with tasks := s₁.tasks ++ [Task.watching child] }
  let s₃ := if env.shares then s₂.setupSharedMemory child pid else s₂
  { s₃ with tasks := s₃.tasks ++ [Task.reading child], persistentProcess := some child }

/-- `clearMappings`, up to its first await point. -/
def clearMappings (s : Lifecycle) (k child : ℕ) (restart : Bool) : Lifecycle :=
  let s' := { s with mappedShmem := none, mappedCmdShmem := none }
  match s.shmemPaths with
  | none => s'.put k (.afterStop restart)
  | some array =>
    if s.paths array = [] then { s'.put k (.afterStop restart) with shmemPaths := none }
    else s'.put k (.clearing child array 0 restart)

/-- The `finally` blocks of `startResponseReader` and `stopSidecar`. -/
def finalise (s : Lifecycle) (k child : ℕ) (restart : Bool) : Lifecycle :=
  { s with persistentProcess := none }.clearMappings k child restart

/-- One round of the loop in `clearMappings`: the file is removed, unless there is none or that
fails. The loop sees what others have appended to the array. -/
def unlink (s : Lifecycle) (k child array index : ℕ) (restart removed : Bool) : Lifecycle :=
  let s' := match (s.paths array)[index]? with
    | some path => if removed then { s with files := s.files.filter (· ≠ path) } else s
    | none => s
  if index + 1 < (s.paths array).length then s'.put k (.clearing child array (index + 1) restart)
  else { s'.put k (.afterStop restart) with shmemPaths := none }

/-- `stopSidecar` and `restartSidecar`, up to the first await point. -/
def stop (s : Lifecycle) (restart killThrows : Bool) : Lifecycle :=
  let k := s.tasks.length
  match s.persistentProcess with
  | none => { s with tasks := s.tasks ++ [.afterStop restart] }
  | some child =>
    let s' := { s with tasks := s.tasks ++ [.stopping child restart] }
    if killThrows then s'.finalise k child restart else s'

/-- What an await point yields. -/
inductive Reply
  /-- The manifest is there. -/
  | ready
  | notFound
  | found (isDev : Bool)
  | integrity (isHealthy : Bool)
  | prepared
  | spawned (pid : ℕ)
  /-- An exception in a spawn attempt, before there is a process. -/
  | failed
  /-- The promise has settled, or the stream has ended. -/
  | settled
  | unlinked (removed : Bool)
  /-- Which of the two segments could be opened. -/
  | mapped (shmem cmdShmem : Bool)

/-- What can happen. -/
inductive Action
  | setConfig
  | markTripped
  | clearTripped
  | markUnsupported
  | getPersistentSidecar
  | stopSidecar (killThrows : Bool)
  | restartSidecar (killThrows : Bool)
  /-- A process ends. -/
  | exit (child : ℕ)
  /-- A process makes one of its files. -/
  | create (child : ℕ) (cmd : Bool)
  | resume (k : ℕ) (reply : Reply)

/-- Task `k` goes on. -/
def resume (env : SidecarId) (s : Lifecycle) (k : ℕ) (reply : Reply) : Option Lifecycle := do
  let task ← s.tasks[k]?
  match task, reply with
  | .lookup, .ready => some (s.lookUp env k)
  | .awaiting attempt, .settled =>
    match s.tasks[attempt]? with
    | some (.settled child) => some (s.put k (.returned child))
    | _ => none
  | .finding, .notFound => some (s.settle k none)
  | .finding, .found isDev => some (s.put k (if isDev then .preparing else .verifying))
  | .verifying, .integrity isHealthy =>
    some (if isHealthy then s.put k .preparing else s.settle k none)
  | .preparing, .prepared => some (s.put k .spawning)
  | .spawning, .spawned pid =>
    some { s.put k (.launching s.children.length) with children := s.children ++ [⟨pid, false⟩] }
  | .finding, .failed | .verifying, .failed | .preparing, .failed | .spawning, .failed =>
    some (s.settle k none)
  | .launching child, .settled => do
    let c ← s.children[child]?
    some (s.launch env k child c.pid)
  | .watching child, .settled =>
    if s.exited child then some { s.put k .finished with persistentProcess := none } else none
  | .mapping child, .mapped shmem cmdShmem =>
    some { s.put k .finished with
      mappedShmem := if shmem then some child else s.mappedShmem
      mappedCmdShmem := if cmdShmem then some child else s.mappedCmdShmem }
  | .reading child, .settled => some (s.finalise k child false)
  | .stopping child restart, .settled =>
    if s.exited child then some (s.finalise k child restart) else none
  | .clearing child array index restart, .unlinked removed =>
    some (s.unlink k child array index restart removed)
  | _, _ => none

/-- One step. -/
def step (env : SidecarId) (s : Lifecycle) : Action → Option Lifecycle
  | .setConfig => some { s with config := true }
  | .markTripped => some { s with tripped := true }
  | .clearTripped => some { s with tripped := false }
  | .markUnsupported => some { s with unsupported := true }
  | .getPersistentSidecar => some { s with tasks := s.tasks ++ [.lookup] }
  | .stopSidecar killThrows => some (s.stop false killThrows)
  | .restartSidecar killThrows => some (s.stop true killThrows)
  | .exit child => do
    let c ← s.children[child]?
    some { s with children := s.children.set child { c with exited := true } }
  | .create child cmd => do
    let c ← s.children[child]?
    if c.exited then none else some { s with files := ⟨cmd, c.pid⟩ :: s.files }
  | .resume k reply => s.resume env k reply

/-! ### What a step does -/

variable {env : SidecarId} {s t : Lifecycle} {k : ℕ} {task : Task}

/-- The call starts a spawn attempt, as far as the manager is concerned. -/
def Starts (env : SidecarId) (s : Lifecycle) : Prop :=
  env.allowed = true ∧ s.unsupported = false ∧ s.tripped = false ∧ s.persistentProcess = none ∧
    s.spawningPromise = none

theorem lookUp_of_starts (h : Starts env s) (k : ℕ) : s.lookUp env k = s.start k := by
  obtain ⟨hallowed, hunsupported, htrip, hreg, hprom⟩ := h
  rw [lookUp, hallowed, if_neg Bool.noConfusion, hunsupported, if_neg Bool.noConfusion, htrip,
    if_neg Bool.noConfusion, hreg, hprom]

/-- A call that has passed the manifest starts an attempt, or it does not and nothing else
changes. -/
theorem lookUp_cases (env : SidecarId) (s : Lifecycle) (k : ℕ) :
    (Starts env s ∧ s.lookUp env k = s.start k) ∨
      ∃ task : Task, task.attempt = none ∧ task.cleans = none ∧ s.lookUp env k = s.put k task := by
  by_cases hstarts : Starts env s
  · exact .inl ⟨hstarts, lookUp_of_starts hstarts k⟩
  · right
    rw [lookUp]
    split_ifs with hallowed hunsupported htrip
    case neg =>
      split
      case h_3 hreg hprom =>
        rw [Bool.not_eq_true] at hunsupported htrip
        rw [Bool.not_eq_false] at hallowed
        exact absurd ⟨hallowed, hunsupported, htrip, hreg, hprom⟩ hstarts
      all_goals exact ⟨_, rfl, rfl, rfl⟩
    all_goals exact ⟨_, rfl, rfl, rfl⟩

/-- What a task comes to when it goes on. -/
inductive Resumed (env : SidecarId) (s : Lifecycle) (k : ℕ) : Task → Lifecycle → Prop
  | lookedUp : Resumed env s k .lookup (s.lookUp env k)
  | answered {attempt : ℕ} (child : Option ℕ) :
      Resumed env s k (.awaiting attempt) (s.put k (.returned child))
  | gaveUp {task : Task} (htask : task.attempt = some none) : Resumed env s k task (s.settle k none)
  | proceeded {task next : Task} (htask : task.attempt = some none)
      (hnext : next.attempt = some none) : Resumed env s k task (s.put k next)
  | spawned (pid : ℕ) :
      Resumed env s k .spawning
        { s.put k (.launching s.children.length) with children := s.children ++ [⟨pid, false⟩] }
  | launched {child : ℕ} {c : Child} (hc : s.children[child]? = some c) :
      Resumed env s k (.launching child) (s.launch env k child c.pid)
  | exitSeen {child : ℕ} (hexited : s.exited child = true) :
      Resumed env s k (.watching child) { s.put k .finished with persistentProcess := none }
  | mapped {child : ℕ} (shmem cmdShmem : Bool) :
      Resumed env s k (.mapping child)
        { s.put k .finished with
          mappedShmem := if shmem then some child else s.mappedShmem
          mappedCmdShmem := if cmdShmem then some child else s.mappedCmdShmem }
  | closed {child : ℕ} : Resumed env s k (.reading child) (s.finalise k child false)
  | stopped {child : ℕ} {restart : Bool} (hexited : s.exited child = true) :
      Resumed env s k (.stopping child restart) (s.finalise k child restart)
  | unlinked {child array index : ℕ} {restart : Bool} (removed : Bool) :
      Resumed env s k (.clearing child array index restart)
        (s.unlink k child array index restart removed)

/-- What a task does when it goes on. -/
theorem resumed_of_resume {reply : Reply} (hres : s.resume env k reply = some t) :
    ∃ task, s.tasks[k]? = some task ∧ Resumed env s k task t := by
  obtain ⟨task, htask, h⟩ := bind_eq_some_iff.1 hres
  refine ⟨task, htask, ?_⟩
  split at h
  · cases h
    exact .lookedUp
  · split at h <;> cases h
    exact .answered _
  · cases h
    exact .gaveUp rfl
  · cases h
    exact .proceeded rfl (by split <;> rfl)
  · split at h <;> cases h
    · exact .proceeded rfl rfl
    · exact .gaveUp rfl
  · cases h
    exact .proceeded rfl rfl
  · cases h
    exact .spawned _
  iterate 4
    · cases h
      exact .gaveUp rfl
  · obtain ⟨c, hc, h⟩ := bind_eq_some_iff.1 h
    cases h
    exact .launched hc
  · obtain ⟨hexited, h⟩ := ite_none_right_eq_some.1 h
    cases h
    exact .exitSeen hexited
  · cases h
    exact .mapped _ _
  · cases h
    exact .closed
  · obtain ⟨hexited, h⟩ := ite_none_right_eq_some.1 h
    cases h
    exact .stopped hexited
  · cases h
    exact .unlinked _
  · cases h

/-- A task that has nothing to do with spawn attempts, and cleans up after `child` if at all. -/
def Cleanup (child : ℕ) (task : Task) : Prop :=
  task.attempt = none ∧ ∀ i, task.cleans = some i → i = child

theorem cleanup_afterStop (child : ℕ) (restart : Bool) : Cleanup child (.afterStop restart) := by
  cases restart <;> exact ⟨rfl, nofun⟩

theorem cleanup_clearing (child array index : ℕ) (restart : Bool) :
    Cleanup child (.clearing child array index restart) :=
  ⟨rfl, fun _ h ↦ (some.inj h).symm⟩

theorem finalise_eq (s : Lifecycle) (k child : ℕ) (restart : Bool) :
    ∃ task paths, Cleanup child task ∧ s.finalise k child restart = { s.put k task with
        persistentProcess := none
        mappedShmem := none
        mappedCmdShmem := none
        shmemPaths := paths } := by
  unfold finalise clearMappings
  split
  · exact ⟨_, _, cleanup_afterStop child restart, rfl⟩
  · split
    · exact ⟨_, _, cleanup_afterStop child restart, rfl⟩
    · exact ⟨_, _, cleanup_clearing child _ 0 restart, rfl⟩

theorem unlink_eq (s : Lifecycle) (k child array index : ℕ) (restart removed : Bool) :
    ∃ task paths files, Cleanup child task ∧ s.unlink k child array index restart removed =
        { s.put k task with
          shmemPaths := paths
          files := files } := by
  have hfiles : ∃ files, (match (s.paths array)[index]? with
      | some path => if removed then { s with files := s.files.filter (· ≠ path) } else s
      | none => s) = { s with files := files } := by
    split
    · split
      · exact ⟨_, rfl⟩
      · exact ⟨s.files, rfl⟩
    · exact ⟨s.files, rfl⟩
  obtain ⟨files, hfiles⟩ := hfiles
  rw [unlink, hfiles]
  split
  · exact ⟨_, _, _, cleanup_clearing child array (index + 1) restart, rfl⟩
  · exact ⟨_, _, _, cleanup_afterStop child restart, rfl⟩

theorem setupSharedMemory_eq (s : Lifecycle) (child pid : ℕ) :
    ∃ paths arrays, s.setupSharedMemory child pid = { s with
        tasks := s.tasks ++ [.mapping child]
        shmemPaths := paths
        arrays := arrays } := by
  unfold setupSharedMemory
  split
  · exact ⟨s.shmemPaths, _, rfl⟩
  · exact ⟨_, _, rfl⟩

theorem launch_eq (env : SidecarId) (s : Lifecycle) (k child pid : ℕ) :
    ∃ new : List Task, ∃ paths arrays,
      (∀ task ∈ new, task.attempt = none ∧ task.cleans = none) ∧ s.launch env k child pid =
      { s with
        tasks := s.tasks.set k (.settled (some child)) ++ new
        spawningPromise := none
        persistentProcess := some child
        shmemPaths := paths
        arrays := arrays } := by
  have hnew : ∀ task ∈ [Task.watching child, .mapping child, .reading child],
      task.attempt = none ∧ task.cleans = none := by
    intro task htask
    simp only [mem_cons, not_mem_nil, or_false] at htask
    obtain rfl | rfl | rfl := htask <;> exact ⟨rfl, rfl⟩
  rw [launch]
  by_cases hshares : env.shares = true
  · obtain ⟨paths, arrays, heq⟩ := setupSharedMemory_eq { s.settle k (some child) with
      tasks := (s.settle k (some child)).tasks ++ [Task.watching child] } child pid
    refine ⟨[.watching child, .mapping child, .reading child], paths, arrays, hnew, ?_⟩
    rw [if_pos hshares, heq]
    simp [settle, put]
  · refine ⟨[.watching child, .reading child], s.shmemPaths, s.arrays, fun task htask ↦ ?_, ?_⟩
    · refine hnew task (Sublist.mem htask ?_)
      exact .cons_cons _ (.cons _ (.refl _))
    · rw [if_neg hshares]
      simp [settle, put]

/-- `stopSidecar` adds a task. If the signal cannot be sent, it goes to its `finally` block at
once. -/
theorem stop_eq (s : Lifecycle) (restart killThrows : Bool) :
    (∃ task : Task, task.attempt = none ∧ task.cleans = none ∧
      s.stop restart killThrows = { s with tasks := s.tasks ++ [task] }) ∨
    ∃ child task paths, killThrows = true ∧ s.persistentProcess = some child ∧
      Cleanup child task ∧ s.stop restart killThrows = { s with
          tasks := s.tasks ++ [task]
          persistentProcess := none
          mappedShmem := none
          mappedCmdShmem := none
          shmemPaths := paths } := by
  unfold stop
  split
  · refine .inl ⟨.afterStop restart, ?_, ?_, rfl⟩ <;> cases restart <;> rfl
  · rename_i child hreg
    split
    · rename_i hthrows
      obtain ⟨task, paths, hclean, heq⟩ := finalise_eq
        { s with tasks := s.tasks ++ [.stopping child restart] } s.tasks.length child restart
      refine .inr ⟨child, task, paths, hthrows, hreg, hclean, heq.trans ?_⟩
      simp [put]
    · exact .inl ⟨.stopping child restart, rfl, rfl, rfl⟩

/-! ### Spawn attempts -/

/-- The spawn attempt in progress that task `k` is, if it is one. -/
def attempt (s : Lifecycle) (k : ℕ) : Option (Option ℕ) := s.tasks[k]?.bind Task.attempt

theorem attempt_eq (hk : s.tasks[k]? = some task) : s.attempt k = task.attempt := by
  rw [attempt, hk, bind_some]

variable {next : Task} {new : List Task} {a : Action}

/-- A task has changed, and there are new ones. -/
theorem attempt_set_append (hk : s.tasks[k]? = some task)
    (htasks : t.tasks = s.tasks.set k next ++ new) (j : ℕ) :
    t.attempt j =
      if j = k then next.attempt
      else if j < s.tasks.length then s.attempt j
      else new[j - s.tasks.length]?.bind Task.attempt := by
  have hlt : k < s.tasks.length := (List.getElem?_eq_some_iff.1 hk).1
  rw [attempt, htasks, getElem?_append, length_set, getElem?_set]
  by_cases heq : j = k
  · subst heq
    simp [hlt]
  · rw [if_neg (Ne.symm heq)]
    split <;> rfl

/-- A task has changed. -/
theorem attempt_set (hk : s.tasks[k]? = some task) (htasks : t.tasks = s.tasks.set k next) (j : ℕ) :
    t.attempt j = if j = k then next.attempt else s.attempt j := by
  rw [attempt_set_append hk (htasks.trans (append_nil _).symm)]
  by_cases hlt : j < s.tasks.length
  · rw [if_pos hlt]
  · rw [if_neg hlt, attempt, getElem?_eq_none (Nat.le_of_not_lt hlt)]
    rfl

/-- A task has changed, but not as a spawn attempt. -/
theorem attempt_set_of_eq (hk : s.tasks[k]? = some task) (htasks : t.tasks = s.tasks.set k next)
    (hnext : next.attempt = task.attempt) : t.attempt = s.attempt := by
  funext j
  rw [attempt_set hk htasks]
  split
  · rename_i heq
    rw [heq, attempt_eq hk, hnext]
  · rfl

/-- There are new tasks. -/
theorem attempt_append (htasks : t.tasks = s.tasks ++ new)
    (hnew : ∀ task ∈ new, task.attempt = none) : t.attempt = s.attempt := by
  funext j
  rw [attempt, htasks, getElem?_append]
  split
  · rfl
  · rename_i hge
    rw [attempt, getElem?_eq_none (Nat.le_of_not_lt hge)]
    rcases hj : new[j - s.tasks.length]? with - | task
    · rfl
    · exact hnew task (mem_of_getElem? hj)

/-! ### The lock is released -/

/-- A recorded promise is that of an attempt in progress. -/
def Recorded (s : Lifecycle) : Prop := ∀ k, s.spawningPromise = some k → (s.attempt k).isSome = true

/-- There is a configuration when an attempt is started. -/
def Configured (env : SidecarId) (s : Lifecycle) (a : Action) : Prop :=
  ∀ k reply, a = .resume k reply → s.tasks[k]? = some .lookup → Starts env s → s.config = true

theorem Recorded.of_eq (h : Recorded s) (hprom : t.spawningPromise = s.spawningPromise)
    (hattempt : t.attempt = s.attempt) : Recorded t := by
  intro k hk
  rw [hattempt]
  exact h k (hprom ▸ hk)

theorem Recorded.of_none (hprom : t.spawningPromise = none) : Recorded t := by
  intro k hk
  rw [hprom] at hk
  cases hk

/-- An attempt goes on. -/
theorem Recorded.of_set (h : Recorded s) (hk : s.tasks[k]? = some task)
    (hprom : t.spawningPromise = s.spawningPromise) (htasks : t.tasks = s.tasks.set k next)
    (hnext : next.attempt.isSome = true) : Recorded t := by
  intro j hj
  rw [attempt_set hk htasks]
  split
  · exact hnext
  · exact h j (hprom ▸ hj)

theorem attempt_start (hk : s.tasks[k]? = some .lookup) (hcfg : s.config = true) :
    (s.start k).attempt s.tasks.length = some none := by
  have hlt : k < s.tasks.length := (List.getElem?_eq_some_iff.1 hk).1
  rw [attempt_set_append (t := s.start k) hk rfl, if_neg (Nat.ne_of_gt hlt),
    if_neg (Nat.lt_irrefl _), Nat.sub_self, hcfg]
  rfl

/-- A task that goes on keeps the record. -/
theorem Recorded.resumed (h : Recorded s) (hk : s.tasks[k]? = some task)
    (hcfg : task = .lookup → Starts env s → s.config = true)
    (hres : Resumed env s k task t) : Recorded t := by
  cases hres with
  | lookedUp =>
    obtain ⟨hstarts, heq⟩ | ⟨next, hnext, -, heq⟩ := lookUp_cases env s k
    · rw [heq]
      intro j hj
      obtain rfl := some.inj hj
      rw [attempt_start hk (hcfg rfl hstarts)]
      rfl
    · rw [heq]
      exact h.of_eq rfl (attempt_set_of_eq hk rfl hnext)
  | answered | exitSeen | mapped => exact h.of_eq rfl (attempt_set_of_eq hk rfl rfl)
  | gaveUp => exact .of_none rfl
  | proceeded _ hnext => exact h.of_set hk rfl rfl (hnext ▸ rfl)
  | spawned => exact h.of_set hk rfl rfl rfl
  | @launched child c hc =>
    obtain ⟨new, paths, arrays, -, heq⟩ := launch_eq env s k child c.pid
    rw [heq]
    exact .of_none rfl
  | @closed child =>
    obtain ⟨next, paths, hnext, heq⟩ := s.finalise_eq k child false
    rw [heq]
    exact h.of_eq rfl (attempt_set_of_eq hk rfl hnext.1)
  | @stopped child restart =>
    obtain ⟨next, paths, hnext, heq⟩ := s.finalise_eq k child restart
    rw [heq]
    exact h.of_eq rfl (attempt_set_of_eq hk rfl hnext.1)
  | @unlinked child array index restart removed =>
    obtain ⟨next, paths, files, hnext, heq⟩ := s.unlink_eq k child array index restart removed
    rw [heq]
    exact h.of_eq rfl (attempt_set_of_eq hk rfl hnext.1)

theorem Recorded.stop (h : Recorded s) (restart killThrows : Bool) :
    Recorded (s.stop restart killThrows) := by
  obtain ⟨task, hattempt, -, heq⟩ | ⟨_, task, paths, -, -, ⟨hattempt, -⟩, heq⟩ :=
    s.stop_eq restart killThrows
  all_goals
    rw [heq]
    exact h.of_eq rfl (attempt_append rfl (forall_mem_singleton.2 hattempt))

/-- Every step keeps the record. -/
theorem Recorded.step (h : Recorded s) (hok : Configured env s a) (hstep : s.step env a = some t) :
    Recorded t := by
  cases a with
  | setConfig | markTripped | clearTripped | markUnsupported =>
    obtain rfl := some.inj hstep
    exact h.of_eq rfl rfl
  | getPersistentSidecar =>
    obtain rfl := some.inj hstep
    exact h.of_eq rfl (attempt_append rfl (forall_mem_singleton.2 rfl))
  | stopSidecar killThrows | restartSidecar killThrows =>
    obtain rfl := some.inj hstep
    exact h.stop _ killThrows
  | exit child =>
    obtain ⟨c, -, hstep⟩ := bind_eq_some_iff.1 hstep
    obtain rfl := some.inj hstep
    exact h.of_eq rfl rfl
  | create child cmd =>
    obtain ⟨c, -, hstep⟩ := bind_eq_some_iff.1 hstep
    obtain ⟨-, hstep⟩ := ite_none_left_eq_some.1 hstep
    obtain rfl := some.inj hstep
    exact h.of_eq rfl rfl
  | resume k reply =>
    obtain ⟨task, hk, hres⟩ := resumed_of_resume hstep
    exact h.resumed hk (fun htask ↦ hok k reply rfl (htask ▸ hk)) hres

/-- In every run in which there is a configuration whenever an attempt is started: while no attempt
is in progress no promise is recorded, and a call that finds the sidecar allowed, supported, not
tripped and not running starts a new attempt. -/
theorem spawn_lock_released {as : List Action}
    (hrun : Machine.run (Lifecycle.step env) init as = some t)
    (hok : Machine.Guarded (Lifecycle.step env) (Configured env) init as)
    (hidle : ∀ k, t.attempt k = none) :
    t.spawningPromise = none ∧
      ∀ k, t.tasks[k]? = some .lookup → env.allowed = true → t.config = true →
        t.unsupported = false → t.tripped = false → t.persistentProcess = none →
        ∃ u, t.step env (.resume k .ready) = some u ∧ ∃ j, u.attempt j = some none := by
  have hrecorded : Recorded t := run_invariant Recorded.step (.of_none rfl) hok hrun
  have hpromise : t.spawningPromise = none := by
    rcases hk : t.spawningPromise with - | k
    · rfl
    · have hsome := hrecorded k hk
      rw [hidle k] at hsome
      cases hsome
  refine ⟨hpromise, fun k hk hallowed hconfig hunsupported htripped hregistered ↦ ?_⟩
  refine ⟨t.lookUp env k, ?_, t.tasks.length, ?_⟩
  · show t.resume env k .ready = _
    rw [resume, hk]
    rfl
  · rw [lookUp_of_starts ⟨hallowed, hunsupported, htripped, hregistered, hpromise⟩]
    exact attempt_start hk hconfig

theorem config_stop (s : Lifecycle) (restart killThrows : Bool) :
    (s.stop restart killThrows).config = s.config := by
  obtain ⟨task, -, -, heq⟩ | ⟨child, task, paths, -, -, -, heq⟩ := s.stop_eq restart killThrows <;>
    rw [heq]

theorem Resumed.config_eq (h : Resumed env s k task t) : t.config = s.config := by
  cases h with
  | lookedUp =>
    obtain ⟨-, heq⟩ | ⟨next, -, -, heq⟩ := lookUp_cases env s k <;>
    · rw [heq]
      rfl
  | answered | gaveUp | proceeded | spawned | exitSeen | mapped => rfl
  | @launched child c =>
    obtain ⟨new, paths, arrays, -, heq⟩ := launch_eq env s k child c.pid
    rw [heq]
  | @closed child =>
    obtain ⟨next, paths, -, heq⟩ := s.finalise_eq k child false
    rw [heq]
    rfl
  | @stopped child restart =>
    obtain ⟨next, paths, -, heq⟩ := s.finalise_eq k child restart
    rw [heq]
    rfl
  | @unlinked child array index restart removed =>
    obtain ⟨next, paths, files, -, heq⟩ := s.unlink_eq k child array index restart removed
    rw [heq]
    rfl

/-- No step takes the configuration away. -/
theorem config_step (h : s.config = true) (hstep : s.step env a = some t) : t.config = true := by
  cases a with
  | setConfig =>
    obtain rfl := some.inj hstep
    rfl
  | markTripped | clearTripped | markUnsupported | getPersistentSidecar =>
    obtain rfl := some.inj hstep
    exact h
  | stopSidecar killThrows | restartSidecar killThrows =>
    obtain rfl := some.inj hstep
    exact (s.config_stop _ killThrows).trans h
  | exit child =>
    obtain ⟨c, -, hstep⟩ := bind_eq_some_iff.1 hstep
    obtain rfl := some.inj hstep
    exact h
  | create child cmd =>
    obtain ⟨c, -, hstep⟩ := bind_eq_some_iff.1 hstep
    obtain ⟨-, hstep⟩ := ite_none_left_eq_some.1 hstep
    obtain rfl := some.inj hstep
    exact h
  | resume k reply =>
    obtain ⟨task, -, hres⟩ := resumed_of_resume hstep
    exact hres.config_eq.trans h

/-- Once there is a configuration, every run meets the condition. -/
theorem guarded_of_config (h : s.config = true) (as : List Action) :
    Guarded (Lifecycle.step env) (Configured env) s as := by
  induction as generalizing s with
  | nil => trivial
  | cons a as ih => exact ⟨fun _ _ _ _ _ ↦ h, fun t ht ↦ ih (config_step h ht)⟩

/-! ### Runs -/

/-- The agent that captures packets. -/
def netcap : SidecarId := ⟨"netcap", true⟩

/-- With a configuration, an attempt that finds no binary, and a second call. -/
def missingBinary : List Action :=
  [.setConfig, .getPersistentSidecar, .resume 0 .ready, .resume 1 .notFound, .resume 0 .settled,
    .getPersistentSidecar]

theorem spawn_lock_released_missingBinary :
    ∃ t u, Machine.run (Lifecycle.step netcap) init missingBinary = some t ∧
      t.step netcap (.resume 2 .ready) = some u ∧ ∃ j, u.attempt j = some none := by
  have hok : Guarded (Lifecycle.step netcap) (Configured netcap) init missingBinary := by
    refine ⟨by rintro k reply ⟨⟩, fun t ht ↦ ?_⟩
    obtain rfl := some.inj ht
    exact guarded_of_config rfl _
  obtain ⟨t, hrun, hidle, hlookup, hconfig, hunsupported, htripped, hregistered⟩ :
      ∃ t, run (Lifecycle.step netcap) init missingBinary = some t ∧
        (∀ k, t.attempt k = none) ∧ t.tasks[2]? = some .lookup ∧ t.config = true ∧
        t.unsupported = false ∧ t.tripped = false ∧ t.persistentProcess = none := by
    refine ⟨_, rfl, ?_, rfl, rfl, rfl, rfl, rfl⟩
    rintro (- | - | - | k) <;> rfl
  obtain ⟨-, hstarts⟩ := spawn_lock_released hrun hok hidle
  obtain ⟨u, hu, hattempt⟩ := hstarts 2 hlookup rfl hconfig hunsupported htripped hregistered
  exact ⟨t, u, hrun, hu, hattempt⟩

/-- A call before `setConfig`, and one after it. -/
def earlyCall : List Action :=
  [.getPersistentSidecar, .resume 0 .ready, .resume 0 .settled, .setConfig, .getPersistentSidecar]

/-- The first call leaves the promise of an attempt that has ended. The second call waits for it and
returns `null`; no attempt has been made, and the promise is still there. -/
theorem early_call_blocks :
    ∃ t u, Machine.run (Lifecycle.step netcap) init earlyCall = some t ∧
      (∀ k, t.attempt k = none) ∧ t.spawningPromise = some 1 ∧ t.config = true ∧
      Machine.run (Lifecycle.step netcap) t [.resume 2 .ready, .resume 2 .settled] = some u ∧
      u.tasks[2]? = some (.returned none) ∧ (∀ k, u.attempt k = none) ∧
      u.spawningPromise = some 1 := by
  refine ⟨_, _, rfl, ?_, rfl, rfl, rfl, rfl, ?_, rfl⟩
  · rintro (- | - | - | k) <;> rfl
  · rintro (- | - | - | k) <;> rfl

end Lifecycle

end Sidecar
