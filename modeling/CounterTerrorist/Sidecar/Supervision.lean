import CounterTerrorist.Sidecar.Lifecycle

/-!
# One process for one sidecar

What the manager is for: a sidecar is idle, or an attempt to start it is under way, or the attempt
has its process but has not registered it, or the process is registered (`Phase`). `Supervised`
relates a state of the manager to its phase, and says that only the newest process can be alive.

## Callbacks of an older child

What a child leaves behind knows the name of the sidecar and nothing else. The end of its stdout
unregisters whatever is registered and takes away whatever is mapped, and so do its exit and the
call that stops it. A process that closes its stdout is not supervised any more, and a callback that
comes late hits the process that has been started in between. `Orderly` rules out both, step by
step; then the phases are kept (`Good.step`), and nothing is taken away from a process that is
alive (`Kept`).
-/

namespace Sidecar

open List Machine Option

/-- The child that a task looks after. -/
def Task.tends : Task → Option ℕ
  | watching child | mapping child | reading child | stopping child _ | clearing child _ _ _ =>
    some child
  | _ => none

/-- The child whose stdout a task reads. -/
def Task.reads : Task → Option ℕ
  | reading child => some child
  | _ => none

namespace Lifecycle

variable {env : SidecarId} {s t u : Lifecycle} {k i : ℕ} {task : Task}

/-- A process that has been started and has not ended. -/
def Alive (s : Lifecycle) (i : ℕ) : Prop := ∃ c, s.children[i]? = some c ∧ c.exited = false

/-- No process has been started after this one. -/
def Newest (s : Lifecycle) (i : ℕ) : Prop := i + 1 = s.children.length

instance (s : Lifecycle) (i : ℕ) : Decidable (s.Newest i) := inferInstanceAs (Decidable (_ = _))

/-- Callbacks come when their child has ended, and before there is another one: stdout does not end
before the process, and only a process that has ended cannot be sent a signal. -/
def Orderly (s : Lifecycle) : Action → Prop
  | .resume k _ =>
    ∀ task ∈ s.tasks[k]?, (∀ i ∈ task.tends, s.Newest i) ∧ ∀ i ∈ task.reads, s.exited i = true
  | .stopSidecar killThrows | .restartSidecar killThrows =>
    killThrows = true → ∀ i ∈ s.persistentProcess, s.exited i = true
  | _ => True

instance (s : Lifecycle) : DecidablePred s.Orderly
  | .resume _ _ => inferInstanceAs (Decidable (∀ task ∈ _, _ ∧ _))
  | .stopSidecar _ => inferInstanceAs (Decidable (_ → ∀ i ∈ _, _))
  | .restartSidecar _ => inferInstanceAs (Decidable (_ → ∀ i ∈ _, _))
  | .setConfig | .markTripped | .clearTripped | .markUnsupported | .getPersistentSidecar
  | .exit _ | .create _ _ => .isTrue trivial

theorem exited_iff : s.exited i = true ↔ ∃ c, s.children[i]? = some c ∧ c.exited = true :=
  Option.any_eq_true ..

theorem not_alive_of_exited (h : s.exited i = true) : ¬ s.Alive i := by
  rintro ⟨c, hc, halive⟩
  obtain ⟨c', hc', hexit⟩ := exited_iff.1 h
  rw [some.inj (hc'.symm.trans hc), halive] at hexit
  cases hexit

/-! ### Phases -/

/-- What the manager is doing about the sidecar. -/
inductive Phase
  | idle
  | starting (attempt : ℕ)
  | launching (attempt child : ℕ)
  | running (child : ℕ)

namespace Phase

def registered : Phase → Option ℕ
  | running child => some child
  | _ => none

def attempt : Phase → Option (ℕ × Option ℕ)
  | starting attempt => some (attempt, none)
  | launching attempt child => some (attempt, some child)
  | _ => none

def newest : Phase → Option ℕ
  | launching _ child | running child => some child
  | _ => none

theorem eq_starting {p : Phase} (h : p.attempt = some (k, none)) : p = starting k := by
  cases p <;> cases h
  rfl

theorem eq_launching {p : Phase} (h : p.attempt = some (k, some i)) : p = launching k i := by
  cases p <;> cases h
  rfl

end Phase

/-- The manager is in phase `p`. -/
structure Supervised (s : Lifecycle) (p : Phase) : Prop where
  registered : s.persistentProcess = p.registered
  attempts : ∀ k child, s.attempt k = some child ↔ p.attempt = some (k, child)
  promise : ∀ k child, p.attempt = some (k, child) → s.spawningPromise = some k
  newest : ∀ i, p.newest = some i → s.Newest i
  live : ∀ i, s.Alive i → p.newest = some i

namespace Supervised

variable {p : Phase}

theorem idle (hreg : s.persistentProcess = none)
    (hattempt : ∀ k child, s.attempt k ≠ some child) (hdead : ∀ i, ¬ s.Alive i) :
    Supervised s .idle where
  registered := hreg
  attempts k child := ⟨fun hk ↦ absurd hk (hattempt k child), nofun⟩
  promise := nofun
  newest := nofun
  live i hi := absurd hi (hdead i)

theorem init : Supervised init .idle := by
  refine idle rfl (fun k child hk ↦ ?_) ?_
  · cases hk
  · rintro i ⟨c, hc, -⟩
    cases hc

variable (h : Supervised s p)
include h

/-- Only the newest process can be alive. -/
theorem newest_of_alive (hi : s.Alive i) : s.Newest i := h.newest i (h.live i hi)

theorem eq_of_newest (hj : s.Alive j) (hnew : s.Newest i) : j = i :=
  Nat.succ.inj ((h.newest_of_alive hj).trans hnew.symm)

/-- If the newest process has ended, all have. -/
theorem not_alive (hnew : s.Newest i) (hexit : s.exited i = true) (j : ℕ) : ¬ s.Alive j := by
  intro hj
  obtain rfl := h.eq_of_newest hj hnew
  exact not_alive_of_exited hexit hj

/-- Only what the phase is about matters. -/
theorem of_eq (hreg : t.persistentProcess = s.persistentProcess)
    (hattempt : t.attempt = s.attempt) (hprom : t.spawningPromise = s.spawningPromise)
    (hchildren : t.children = s.children) : Supervised t p where
  registered := hreg.trans h.registered
  attempts k child := by
    rw [hattempt]
    exact h.attempts k child
  promise k child hk := hprom.trans (h.promise k child hk)
  newest i hi := by
    rw [Newest, hchildren]
    exact h.newest i hi
  live i hi := by
    rw [Alive, hchildren] at hi
    exact h.live i hi

/-- The newest process has ended, and is not registered any more. -/
theorem unregister (hnew : s.Newest i) (hexit : s.exited i = true)
    (hreg : t.persistentProcess = none) (hattempt : t.attempt = s.attempt)
    (hprom : t.spawningPromise = s.spawningPromise) (hchildren : t.children = s.children) :
    ∃ p, Supervised t p := by
  by_cases hnone : p.registered = none
  · exact ⟨p, h.of_eq (by rw [hreg, h.registered, hnone]) hattempt hprom hchildren⟩
  · obtain ⟨j, rfl⟩ : ∃ j, p = .running j := by
      cases p with
      | running j => exact ⟨j, rfl⟩
      | idle | starting | launching => exact absurd rfl hnone
    refine ⟨.idle, idle hreg (fun k child hk ↦ ?_) fun i' hi' ↦ ?_⟩
    · rw [hattempt] at hk
      cases (h.attempts k child).1 hk
    · rw [Alive, hchildren] at hi'
      exact h.not_alive hnew hexit i' hi'

/-- An attempt ends without a process. -/
theorem gaveUp (hk : s.tasks[k]? = some task) (htask : task.attempt = some none) :
    Supervised (s.settle k none) .idle := by
  obtain rfl := Phase.eq_starting ((h.attempts k none).1 ((attempt_eq hk).trans htask))
  refine idle h.registered (fun j child hj ↦ ?_) fun i hi ↦ ?_
  · rw [attempt_set (t := s.settle k none) hk rfl] at hj
    split at hj
    · cases hj
    · rename_i hne
      cases (h.attempts j child).1 hj
      exact absurd rfl hne
  · cases h.live i hi

/-- An attempt has got its process. -/
theorem spawned (hk : s.tasks[k]? = some .spawning) (pid : ℕ) :
    Supervised { s.put k (.launching s.children.length) with
      children := s.children ++ [⟨pid, false⟩] } (.launching k s.children.length) := by
  obtain rfl := Phase.eq_starting ((h.attempts k none).1 ((attempt_eq hk).trans rfl))
  constructor
  case registered => exact h.registered
  case attempts =>
    intro j child
    rw [attempt_set (s := s) hk rfl]
    split
    · rename_i heq
      subst heq
      exact ⟨fun hj ↦ by cases hj; rfl, fun hj ↦ by cases hj; rfl⟩
    · rename_i hne
      refine ⟨fun hj ↦ ?_, fun hj ↦ ?_⟩
      · cases (h.attempts j child).1 hj
        exact absurd rfl hne
      · cases hj
        exact absurd rfl hne
  case promise =>
    intro j child hj
    cases hj
    exact h.promise k none rfl
  case newest =>
    intro i hi
    cases hi
    show s.children.length + 1 = (s.children ++ [_]).length
    rw [length_append, length_singleton]
  case live =>
    rintro i ⟨c, hc, halive⟩
    rw [getElem?_append] at hc
    split at hc
    · cases h.live i ⟨c, hc, halive⟩
    · rw [getElem?_singleton] at hc
      obtain ⟨heq, -⟩ := ite_none_right_eq_some.1 hc
      exact congrArg some (by omega)

/-- The process of an attempt is registered. -/
theorem launched (env : SidecarId) (hk : s.tasks[k]? = some (.launching i)) (pid : ℕ) :
    Supervised (s.launch env k i pid) (.running i) := by
  obtain rfl := Phase.eq_launching ((h.attempts k (some i)).1 ((attempt_eq hk).trans rfl))
  obtain ⟨new, paths, arrays, hnew, heq⟩ := launch_eq env s k i pid
  rw [heq]
  refine ⟨rfl, fun j child ↦ ⟨fun hj ↦ ?_, nofun⟩, nofun, h.newest, h.live⟩
  rw [attempt_set_append (s := s) hk rfl] at hj
  split at hj
  · cases hj
  · rename_i hne
    split at hj
    · cases (h.attempts j child).1 hj
      exact absurd rfl hne
    · obtain ⟨task, htask, hattempt⟩ := bind_eq_some_iff.1 hj
      rw [(hnew task (mem_of_getElem? htask)).1] at hattempt
      cases hattempt

/-- An attempt is started, and ends at once if there is no configuration. -/
theorem start (hk : s.tasks[k]? = some .lookup) (hstarts : Starts env s) :
    ∃ p, Supervised (s.start k) p := by
  obtain ⟨-, -, -, hreg, hprom⟩ := hstarts
  have hidle : p = .idle := by
    cases p with
    | idle => rfl
    | starting j | launching j =>
      rw [h.promise j _ rfl] at hprom
      cases hprom
    | running i =>
      rw [h.registered] at hreg
      cases hreg
  subst hidle
  have hattempt : ∀ j child, (s.start k).attempt j = some child →
      j = s.tasks.length ∧ s.config = true ∧ child = none := by
    intro j child hj
    rw [attempt_set_append (s := s) hk rfl] at hj
    split at hj
    · cases hj
    · split at hj
      · cases (h.attempts j child).1 hj
      · rw [getElem?_singleton] at hj
        split at hj
        · split at hj
          · rename_i hcfg
            exact ⟨by omega, hcfg, (some.inj hj).symm⟩
          · cases hj
        · cases hj
  by_cases hcfg : s.config = true
  · refine ⟨.starting s.tasks.length, h.registered, fun j child ↦ ⟨fun hj ↦ ?_, fun hj ↦ ?_⟩,
      fun j child hj ↦ ?_, nofun, fun i hi ↦ ?_⟩
    · obtain ⟨rfl, -, rfl⟩ := hattempt j child hj
      rfl
    · cases hj
      exact attempt_start hk hcfg
    · cases hj
      rfl
    · cases h.live i hi
  · refine ⟨.idle, idle hreg (fun j child hj ↦ ?_) fun i hi ↦ ?_⟩
    · exact hcfg (hattempt j child hj).2.1
    · cases h.live i hi

end Supervised

variable {p : Phase} {next : Task}

/-! ### What a step keeps -/

/-- What is cleaned up after has ended. -/
def Cleaned (s : Lifecycle) : Prop :=
  ∀ task ∈ s.tasks, ∀ i, task.cleans = some i → s.exited i = true

/-- Nothing is taken away from process `i`: it stays registered, its shared memory stays mapped, and
no files are removed. -/
structure Kept (s t : Lifecycle) (i : ℕ) : Prop where
  registered : s.persistentProcess = some i → t.persistentProcess = some i
  mapped : s.mappedShmem = some i → t.mappedShmem = some i
  mappedCmd : s.mappedCmdShmem = some i → t.mappedCmdShmem = some i
  files : s.files ⊆ t.files

theorem Kept.of_eq (hreg : t.persistentProcess = s.persistentProcess)
    (hmap : t.mappedShmem = s.mappedShmem) (hmappedCmd : t.mappedCmdShmem = s.mappedCmdShmem)
    (hfiles : t.files = s.files) : Kept s t i where
  registered := hreg.trans
  mapped := hmap.trans
  mappedCmd := hmappedCmd.trans
  files := hfiles ▸ Subset.refl _

theorem Kept.refl (s : Lifecycle) (i : ℕ) : Kept s s i := .of_eq rfl rfl rfl rfl

theorem Kept.trans (h : Kept s t i) (h' : Kept t u i) : Kept s u i where
  registered := h'.registered ∘ h.registered
  mapped := h'.mapped ∘ h.mapped
  mappedCmd := h'.mappedCmd ∘ h.mappedCmd
  files := Subset.trans h.files h'.files

/-- The manager between two states. -/
structure Good (s t : Lifecycle) : Prop where
  phase : ∃ p, t.Supervised p
  cleaned : Cleaned t
  grown : s.children.length ≤ t.children.length
  /-- No process comes back. -/
  ended : ∀ i, i < s.children.length → t.Alive i → s.Alive i
  kept : ∀ i, s.Alive i → t.Alive i → Kept s t i

theorem Cleaned.of_mem (h : Cleaned s) (hexit : ∀ i, s.exited i = true → t.exited i = true)
    (htasks : ∀ task ∈ t.tasks, task ∈ s.tasks ∨ ∀ i, task.cleans = some i → s.exited i = true) :
    Cleaned t := by
  intro task htask i hi
  rcases htasks task htask with hold | hnew
  · exact hexit i (h task hold i hi)
  · exact hexit i (hnew i hi)

/-- A step that starts no process and ends none. -/
theorem Good.of_children (hchildren : t.children = s.children) (hph : ∃ p, t.Supervised p)
    (hcleaned : Cleaned s)
    (htasks : ∀ task ∈ t.tasks, task ∈ s.tasks ∨ ∀ i, task.cleans = some i → s.exited i = true)
    (hkept : ∀ i, s.Alive i → Kept s t i) : Good s t where
  phase := hph
  cleaned := hcleaned.of_mem (fun i hi ↦ by rwa [exited, hchildren]) htasks
  grown := Nat.le_of_eq (congrArg List.length hchildren).symm
  ended i _ hi := by
    rw [Alive, hchildren] at hi
    exact hi
  kept i hi _ := hkept i hi

theorem Alive.lt (h : s.Alive i) : i < s.children.length := by
  obtain ⟨c, hc, -⟩ := h
  exact (List.getElem?_eq_some_iff.1 hc).1

theorem Good.trans (h : Good s t) (h' : Good t u) : Good s u where
  phase := h'.phase
  cleaned := h'.cleaned
  grown := Nat.le_trans h.grown h'.grown
  ended i hlt hi := h.ended i hlt (h'.ended i (Nat.lt_of_lt_of_le hlt h.grown) hi)
  kept i hi hi' := by
    have hmid : t.Alive i := h'.ended i (Nat.lt_of_lt_of_le hi.lt h.grown) hi'
    exact (h.kept i hi hmid).trans (h'.kept i hmid hi')

/-- What may replace a task, or come as a new one. -/
theorem mem_set_append {new : List Task} (hnext : ∀ i, next.cleans = some i → s.exited i = true)
    (hnew : ∀ task ∈ new, ∀ i, task.cleans = some i → s.exited i = true) :
    ∀ task ∈ s.tasks.set k next ++ new,
      task ∈ s.tasks ∨ ∀ i, task.cleans = some i → s.exited i = true := by
  intro task htask
  rcases mem_append.1 htask with hset | htask
  · rcases mem_or_eq_of_mem_set hset with hold | rfl
    · exact .inl hold
    · exact .inr hnext
  · exact .inr (hnew task htask)

theorem mem_set (hnext : ∀ i, next.cleans = some i → s.exited i = true) :
    ∀ task ∈ s.tasks.set k next,
      task ∈ s.tasks ∨ ∀ i, task.cleans = some i → s.exited i = true := by
  simpa using mem_set_append hnext (fun _ (h : _ ∈ []) ↦ nomatch h)

theorem eq_launching_of_attempt (h : task.attempt = some (some i)) : task = .launching i := by
  cases task <;> cases h
  rfl

theorem cleans_of_attempt (h : task.attempt.isSome = true) : task.cleans = none := by
  cases task <;> first | rfl | cases h

section

variable (h : Supervised s p) (hcleaned : Cleaned s)
include h hcleaned

/-- The `finally` blocks, when the newest process has ended. -/
theorem Good.finalise (hk : s.tasks[k]? = some task)
    (htask : task.attempt = none) (hnew : s.Newest i) (hexit : s.exited i = true)
    (restart : Bool) : Good s (s.finalise k i restart) := by
  obtain ⟨next, paths, hnext, heq⟩ := s.finalise_eq k i restart
  rw [heq]
  refine .of_children rfl ?_ hcleaned (mem_set fun j hj ↦ ?_) fun j hj ↦ ?_
  · refine h.unregister hnew hexit rfl ?_ rfl rfl
    exact attempt_set_of_eq hk rfl (hnext.1.trans htask.symm)
  · rw [hnext.2 j hj]
    exact hexit
  · exact absurd hj (h.not_alive hnew hexit j)

/-- A step that only changes a task. -/
theorem Good.put (hk : s.tasks[k]? = some task) (hattempt : next.attempt = task.attempt)
    (hcleans : next.cleans = none) : Good s (s.put k next) := by
  refine .of_children rfl ⟨p, h.of_eq rfl (attempt_set_of_eq hk rfl hattempt) rfl rfl⟩ hcleaned
    (mem_set fun i hi ↦ ?_) fun i _ ↦ .of_eq rfl rfl rfl rfl
  rw [hcleans] at hi
  cases hi

/-- A step that only adds tasks. -/
theorem Good.append {new : List Task}
    (hnew : ∀ task ∈ new, task.attempt = none ∧ task.cleans = none) :
    Good s { s with tasks := s.tasks ++ new } := by
  refine .of_children rfl ⟨p, h.of_eq rfl (attempt_append rfl fun task htask ↦ (hnew task htask).1)
    rfl rfl⟩ hcleaned (fun task htask ↦ ?_) fun i _ ↦ .of_eq rfl rfl rfl rfl
  rcases mem_append.1 htask with hold | htask
  · exact .inl hold
  · right
    intro i hi
    rw [(hnew task htask).2] at hi
    cases hi

/-- A process is started while no other one is alive. -/
theorem Good.spawned (hk : s.tasks[k]? = some .spawning) (pid : ℕ) :
    Good s { s.put k (.launching s.children.length) with
      children := s.children ++ [⟨pid, false⟩] } where
  phase := ⟨_, h.spawned hk pid⟩
  cleaned := by
    refine hcleaned.of_mem (fun i hi ↦ ?_) (mem_set nofun)
    obtain ⟨c, hc, hexit⟩ := exited_iff.1 hi
    have hlt : i < s.children.length := (List.getElem?_eq_some_iff.1 hc).1
    exact exited_iff.2 ⟨c, (getElem?_append_left hlt).trans hc, hexit⟩
  grown := by
    rw [length_append]
    exact Nat.le_add_right _ _
  ended i hlt hi := by
    obtain ⟨c, hc, halive⟩ := hi
    rw [getElem?_append_left hlt] at hc
    exact ⟨c, hc, halive⟩
  kept _ _ _ := .of_eq rfl rfl rfl rfl

/-- The process of an attempt is registered; none was before. -/
theorem Good.launched (hk : s.tasks[k]? = some (.launching i)) (pid : ℕ) :
    Good s (s.launch env k i pid) := by
  have hph := h.launched env hk pid
  obtain rfl := Phase.eq_launching ((h.attempts k (some i)).1 ((attempt_eq hk).trans rfl))
  obtain ⟨new, paths, arrays, hnew, heq⟩ := launch_eq env s k i pid
  rw [heq] at hph ⊢
  refine .of_children rfl ⟨_, hph⟩ hcleaned (mem_set_append nofun
    fun task htask j hj ↦ ?_) fun j _ ↦ ⟨fun hj ↦ ?_, id, id, Subset.refl _⟩
  · rw [(hnew task htask).2] at hj
    cases hj
  · rw [h.registered] at hj
    cases hj

/-- Shared memory is mapped, and that of the newest process. -/
theorem Good.mapped (hk : s.tasks[k]? = some (.mapping i)) (hnew : s.Newest i)
    (shmem cmdShmem : Bool) :
    Good s { s.put k .finished with
      mappedShmem := if shmem then some i else s.mappedShmem
      mappedCmdShmem := if cmdShmem then some i else s.mappedCmdShmem } := by
  refine .of_children rfl ⟨p, h.of_eq rfl (attempt_set_of_eq hk rfl rfl) rfl rfl⟩ hcleaned
    (mem_set nofun) fun j hj ↦ ?_
  obtain rfl := h.eq_of_newest hj hnew
  refine ⟨id, fun hmap ↦ ?_, fun hmap ↦ ?_, Subset.refl _⟩
  · show (if shmem then some j else s.mappedShmem) = some j
    rw [hmap, ite_self]
  · show (if cmdShmem then some j else s.mappedCmdShmem) = some j
    rw [hmap, ite_self]

theorem Good.resumed (hk : s.tasks[k]? = some task)
    (hnew : ∀ i, task.tends = some i → s.Newest i)
    (hclosed : ∀ i, task.reads = some i → s.exited i = true) (hres : Resumed env s k task t) :
    Good s t := by
  cases hres with
  | lookedUp =>
    obtain ⟨hstarts, heq⟩ | ⟨next, hattempt, hcleans, heq⟩ := lookUp_cases env s k
    · rw [heq]
      refine .of_children rfl (h.start hk hstarts) hcleaned (mem_set_append nofun
        fun task htask i hi ↦ ?_) fun i _ ↦ .of_eq rfl rfl rfl rfl
      rw [mem_singleton.1 htask] at hi
      split at hi <;> cases hi
    · rw [heq]
      exact .put h hcleaned hk hattempt hcleans
  | answered => exact .put h hcleaned hk rfl rfl
  | gaveUp htask =>
    exact .of_children rfl ⟨_, h.gaveUp hk htask⟩ hcleaned (mem_set nofun)
      fun i _ ↦ .of_eq rfl rfl rfl rfl
  | proceeded htask hnext =>
    exact .put h hcleaned hk (hnext.trans htask.symm) (cleans_of_attempt (hnext ▸ rfl))
  | spawned pid => exact .spawned h hcleaned hk pid
  | @launched child c hc => exact .launched h hcleaned hk c.pid
  | @exitSeen child hexit =>
    refine .of_children rfl ?_ hcleaned (mem_set nofun) fun i hi ↦ ?_
    · exact h.unregister (hnew child rfl) hexit rfl (attempt_set_of_eq hk rfl rfl) rfl rfl
    · exact absurd hi (h.not_alive (hnew child rfl) hexit i)
  | @mapped child shmem cmdShmem => exact .mapped h hcleaned hk (hnew child rfl) shmem cmdShmem
  | @closed child =>
    exact .finalise h hcleaned hk rfl (hnew child rfl) (hclosed child rfl) false
  | @stopped child restart hexit =>
    exact .finalise h hcleaned hk rfl (hnew child rfl) hexit restart
  | @unlinked child array index restart removed =>
    have hexit : s.exited child = true := hcleaned _ (mem_of_getElem? hk) child rfl
    obtain ⟨next, paths, files, hnext, heq⟩ := s.unlink_eq k child array index restart removed
    rw [heq]
    refine .of_children rfl ⟨p, h.of_eq rfl (attempt_set_of_eq hk rfl hnext.1) rfl rfl⟩ hcleaned
      (mem_set fun i hi ↦ ?_) fun i hi ↦ ?_
    · rw [hnext.2 i hi]
      exact hexit
    · exact absurd hi (h.not_alive (hnew child rfl) hexit i)

theorem Good.stop {restart killThrows : Bool}
    (hkilled : ∀ i, killThrows = true → s.persistentProcess = some i → s.exited i = true) :
    Good s (s.stop restart killThrows) := by
  rcases s.stop_eq restart killThrows with
    ⟨task, hattempt, hcleans, heq⟩ | ⟨child, task, paths, hthrows, hreg, hcleanup, heq⟩
  · rw [heq]
    exact .append h hcleaned (forall_mem_singleton.2 ⟨hattempt, hcleans⟩)
  · have hexit := hkilled child hthrows hreg
    have hnewest : s.Newest child := by
      refine h.newest child ?_
      rw [h.registered] at hreg
      cases p <;> cases hreg
      rfl
    rw [heq]
    refine .of_children rfl (h.unregister hnewest hexit rfl
      (attempt_append rfl (forall_mem_singleton.2 hcleanup.1)) rfl rfl) hcleaned
      (fun task' htask' ↦ ?_) fun i hi ↦ ?_
    · rcases mem_append.1 htask' with hold | hnew
      · exact .inl hold
      · right
        intro i hi
        rw [mem_singleton.1 hnew] at hi
        rw [hcleanup.2 i hi]
        exact hexit
    · exact absurd hi (h.not_alive hnewest hexit i)

/-- A process ends. -/
theorem Good.exit {c : Child} (hc : s.children[i]? = some c) :
    Good s { s with children := s.children.set i { c with exited := true } } := by
  have hlt : i < s.children.length := (List.getElem?_eq_some_iff.1 hc).1
  have halive {j : ℕ}
      (hj : Alive { s with children := s.children.set i { c with exited := true } } j) :
      s.Alive j := by
    obtain ⟨c', hc', halive⟩ := hj
    rw [getElem?_set] at hc'
    split at hc'
    · cases hc'
      cases halive
    · exact ⟨c', hc', halive⟩
  constructor
  case phase =>
    refine ⟨p, h.registered, h.attempts, h.promise, fun j hj ↦ ?_, fun j hj ↦ h.live j (halive hj)⟩
    rw [Newest, length_set]
    exact h.newest j hj
  case cleaned =>
    refine hcleaned.of_mem (fun j hj ↦ ?_) fun task htask ↦ .inl htask
    obtain ⟨c', hc', hexit⟩ := exited_iff.1 hj
    by_cases heq : i = j
    · subst heq
      exact exited_iff.2 ⟨_, getElem?_set_self hlt, rfl⟩
    · exact exited_iff.2 ⟨c', (getElem?_set_ne heq).trans hc', hexit⟩
  case grown => exact Nat.le_of_eq length_set.symm
  case ended => exact fun j _ hj ↦ halive hj
  case kept => exact fun j _ _ ↦ .of_eq rfl rfl rfl rfl

/-- Every orderly step is good. -/
theorem Good.step {a : Action} (hok : Orderly s a) (hstep : s.step env a = some t) : Good s t := by
  have hsame {t : Lifecycle} (hreg : t.persistentProcess = s.persistentProcess)
      (htasks : t.tasks = s.tasks) (hprom : t.spawningPromise = s.spawningPromise)
      (hchildren : t.children = s.children) (hkept : ∀ i, Kept s t i) : Good s t := by
    refine .of_children hchildren ⟨p, h.of_eq hreg ?_ hprom hchildren⟩ hcleaned
      (fun task htask ↦ .inl (htasks ▸ htask)) fun i _ ↦ hkept i
    funext j
    rw [attempt, htasks, attempt]
  cases a with
  | setConfig | markTripped | clearTripped | markUnsupported =>
    obtain rfl := some.inj hstep
    exact hsame rfl rfl rfl rfl fun i ↦ .of_eq rfl rfl rfl rfl
  | getPersistentSidecar =>
    obtain rfl := some.inj hstep
    exact .append h hcleaned (forall_mem_singleton.2 ⟨rfl, rfl⟩)
  | stopSidecar killThrows | restartSidecar killThrows =>
    obtain rfl := some.inj hstep
    exact .stop h hcleaned fun i hthrows ↦ hok hthrows i
  | exit child =>
    obtain ⟨c, hc, hstep⟩ := bind_eq_some_iff.1 hstep
    obtain rfl := some.inj hstep
    exact .exit h hcleaned hc
  | create child cmd =>
    obtain ⟨c, -, hstep⟩ := bind_eq_some_iff.1 hstep
    obtain ⟨-, hstep⟩ := ite_none_left_eq_some.1 hstep
    obtain rfl := some.inj hstep
    exact hsame rfl rfl rfl rfl fun i ↦ ⟨id, id, id, subset_cons_self _ _⟩
  | resume k reply =>
    obtain ⟨task, hk, hres⟩ := resumed_of_resume hstep
    obtain ⟨hnew, hclosed⟩ := hok task hk
    exact .resumed h hcleaned hk hnew hclosed hres

end

/-! ### Whole runs -/

/-- So is every orderly run. -/
theorem Good.run {as : List Action} (h : Supervised s p) (hcleaned : Cleaned s)
    (hok : Guarded (Lifecycle.step env) Orderly s as)
    (hrun : run (Lifecycle.step env) s as = some t) : Good s t := by
  induction as generalizing s p with
  | nil =>
    obtain rfl := some.inj hrun
    exact .of_children rfl ⟨p, h⟩ hcleaned (fun task htask ↦ .inl htask) fun i _ ↦ .refl s i
  | cons a as ih =>
    obtain ⟨u, hu, hrun⟩ := run_cons.1 hrun
    have hgood := Good.step h hcleaned hok.1 hu
    obtain ⟨p', hp'⟩ := hgood.phase
    exact hgood.trans (ih hp' hgood.cleaned (hok.2 u hu) hrun)

/-- In every run in which callbacks come when their child has ended and before there is another one:
at most one process is alive, it is registered unless its attempt is just about to do that, and what
it has it keeps as long as it is alive. -/
theorem one_live_child {as bs : List Action}
    (hs : Machine.run (Lifecycle.step env) init as = some s)
    (ht : Machine.run (Lifecycle.step env) s bs = some t)
    (hok : Machine.Guarded (Lifecycle.step env) Orderly init (as ++ bs)) :
    (∀ i j, t.Alive i → t.Alive j → i = j) ∧
    (∀ i, t.Alive i → t.persistentProcess = some i ∨ ∃ k : ℕ, t.tasks[k]? = some (.launching i)) ∧
    ∀ i, s.Alive i → t.Alive i → Kept s t i := by
  obtain ⟨hokas, hokbs⟩ := guarded_append.1 hok
  have hcleaned : Cleaned init := nofun
  have hgood := Good.run .init hcleaned hokas hs
  obtain ⟨p, hp⟩ := hgood.phase
  have hgood' := Good.run hp hgood.cleaned (hokbs s hs) ht
  obtain ⟨q, hq⟩ := hgood'.phase
  refine ⟨fun i j hi hj ↦ ?_, fun i hi ↦ ?_, hgood'.kept⟩
  · exact some.inj ((hq.live i hi).symm.trans (hq.live j hj))
  · have hnewest := hq.live i hi
    cases q with
    | idle | starting => cases hnewest
    | running j =>
      obtain rfl := some.inj hnewest
      exact .inl hq.registered
    | launching k j =>
      obtain rfl := some.inj hnewest
      obtain ⟨task, htask, hattempt⟩ := bind_eq_some_iff.1 ((hq.attempts k (some j)).2 rfl)
      refine .inr ⟨k, ?_⟩
      rw [htask, eq_launching_of_attempt hattempt]

/-! ### Runs -/

/-- `getPersistentSidecar` as call `k` starts a process: attempt `k + 1` finds the binary, in
development mode, and registers the process. -/
def startsProcess (k pid : ℕ) : List Action :=
  [.getPersistentSidecar, .resume k .ready, .resume (k + 1) (.found true),
    .resume (k + 1) .prepared, .resume (k + 1) (.spawned pid), .resume (k + 1) .settled]

/-- A process crashes, everything about it is cleaned up, and another one is started. -/
def crashes : List Action :=
  [.setConfig] ++ startsProcess 0 100 ++
    [.create 0 false, .create 0 true, .resume 3 (.mapped true true), .exit 0, .resume 2 .settled,
      .resume 4 .settled, .resume 4 (.unlinked true), .resume 4 (.unlinked true)] ++
    startsProcess 5 101

/-- Then the other process gets its shared memory, and a call finds it. -/
def recovers : List Action :=
  [.create 1 false, .create 1 true, .resume 8 (.mapped true true), .getPersistentSidecar,
    .resume 10 .ready]

theorem one_live_child_crashes :
    ∃ s t, Machine.run (Lifecycle.step netcap) init crashes = some s ∧
      Machine.run (Lifecycle.step netcap) s recovers = some t ∧ s.Alive 1 ∧ t.Alive 1 ∧
      (∀ j, t.Alive j → j = 1) ∧ Kept s t 1 := by
  obtain ⟨s, t, hs, ht, hsalive, htalive⟩ :
      ∃ s t, run (Lifecycle.step netcap) init crashes = some s ∧
        run (Lifecycle.step netcap) s recovers = some t ∧ s.Alive 1 ∧ t.Alive 1 :=
    ⟨_, _, rfl, rfl, ⟨_, rfl, rfl⟩, _, rfl, rfl⟩
  obtain ⟨hone, -, hkept⟩ := one_live_child hs ht (by decide)
  exact ⟨s, t, hs, ht, hsalive, htalive, fun j hj ↦ hone j 1 hj htalive, hkept 1 hsalive htalive⟩

/-- A process closes its stdout and goes on, and the next call starts another one. -/
def closesStdout : List Action :=
  [.setConfig] ++ startsProcess 0 100 ++ [.resume 4 .settled] ++ startsProcess 5 101

/-- A process ends and its reader with it. Another one is started and gets its shared memory, before
the exit of the first one is seen and its files are removed. -/
def endsEarly : List Action :=
  [.setConfig] ++ startsProcess 0 100 ++ [.exit 0, .resume 4 .settled] ++ startsProcess 5 101 ++
    [.create 1 false, .create 1 true, .resume 8 (.mapped true true)]

/-- The callbacks of the first process: the handler of its status, and the rest of `clearMappings`,
which goes on to the paths of the second one. -/
def comesLate : List Action :=
  [.resume 2 .settled, .resume 4 (.unlinked true), .resume 4 (.unlinked true),
    .resume 4 (.unlinked true), .resume 4 (.unlinked true)]

/-- Two processes are alive; and callbacks of an older process unregister a newer one and remove its
files. -/
theorem second_process_started :
    (∃ t, Machine.run (Lifecycle.step netcap) init closesStdout = some t ∧ t.Alive 0 ∧ t.Alive 1) ∧
    ∃ s t, Machine.run (Lifecycle.step netcap) init endsEarly = some s ∧
      Machine.run (Lifecycle.step netcap) s comesLate = some t ∧
      s.Alive 1 ∧ s.persistentProcess = some 1 ∧ s.files = [⟨true, 101⟩, ⟨false, 101⟩] ∧
      t.Alive 1 ∧ t.persistentProcess = none ∧ t.files = [] :=
  ⟨⟨_, rfl, ⟨_, rfl, rfl⟩, _, rfl, rfl⟩, _, _, rfl, rfl, ⟨_, rfl, rfl⟩, rfl, rfl, ⟨_, rfl, rfl⟩,
    rfl, rfl⟩

end Lifecycle

end Sidecar
