import CounterTerrorist.Foundations.TaskSystem

/-!
# The ports of the decoys

`morph` gives every active module a new port, one after the other. It looks for a port that no
module has, and then it waits: for `ss`, for the sidecar, for the firewall. Only then the module
gets the port. Nothing keeps two calls of `morph` apart (there is a timer, and there are other
callers), so two of them can find the same port free and give it to different modules.

`ports_distinct_iff` says that the ports stay distinct exactly if a port that is assigned is still
free. It is, unless it has gone to another module since it was found free (`stillFree_of_spared`).
That no module gets a port of the orchestrator is always so.

Modules are identified by their position. To begin with a module and to choose a port are steps of
their own here, which only adds schedules.
-/

namespace Protection

open List Option

/-! ### The service -/

/-- `HoneypotModule`. -/
structure HoneypotModule where
  port : ℕ
  active : Bool
deriving DecidableEq, Repr

/-- The ports of the orchestrator. -/
def protectedPorts : List ℕ := [8000, 8001, 8002]

/-- Ports that look like services. -/
def camouflagePorts : List ℕ := [111, 515, 1024, 2049, 4000, 5000, 9000]

/-- A call, by what it waits for. Each state has the modules that are still to come. -/
inductive Task
  | next (todo : List ℕ)
  | choosing (id oldPort attempts : ℕ) (todo : List ℕ)
  | checking (id oldPort newPort attempts : ℕ) (todo : List ℕ)
  | updating (id oldPort newPort : ℕ) (todo : List ℕ)
  | allowing (id oldPort newPort : ℕ) (todo : List ℕ)
  | closing (todo : List ℕ)
deriving DecidableEq, Repr

/-- What a call gets. -/
inductive Answer
  | go
  | random (port : ℕ)
  | ss (free : Bool)
  | result (success : Bool)
  | thrown
deriving DecidableEq, Repr

/-- `morph`, or `toggleModule`. -/
inductive Request
  | morph
  | toggleModule (id : ℕ) (active : Bool)
deriving DecidableEq, Repr

/-- Another attempt, up to fifty of them. -/
def tryAgain (id oldPort attempts : ℕ) (todo : List ℕ) : Task :=
  if 50 ≤ attempts then .next todo else .choosing id oldPort attempts todo

/-- The body of the loop of `morph`. A call that throws is over. -/
def advance (modules : List HoneypotModule) : Task → Answer → Option (List HoneypotModule × Task)
  | .next (id :: todo), .go =>
    modules[id]?.map fun m ↦
      (modules, if m.active then .choosing id m.port 0 todo else .next todo)
  | .choosing id oldPort attempts todo, .random newPort =>
    if newPort ∈ camouflagePorts ∨ 1024 ≤ newPort ∧ newPort ≤ 65535 then
      some (modules,
        if newPort ∉ protectedPorts ∧ ∀ m ∈ modules, m.port ≠ newPort then
          .checking id oldPort newPort (attempts + 1) todo
        else tryAgain id oldPort (attempts + 1) todo)
    else none
  | .checking id oldPort newPort attempts todo, .ss free =>
    -- a free port is taken also at the last attempt
    some (modules,
      if free then .updating id oldPort newPort todo else tryAgain id oldPort attempts todo)
  | .updating id oldPort newPort todo, .result success =>
    some (modules, if success then .allowing id oldPort newPort todo else .next todo)
  | .allowing id _ newPort todo, .result success =>
    some (if success then modules.modify id ({ · with port := newPort }) else modules,
      .closing todo)
  | .closing todo, .result _ => some (modules, .next todo)
  | .checking .., .thrown | .updating .., .thrown | .allowing .., .thrown | .closing .., .thrown =>
    some (modules, .next [])
  | _, _ => none

/-- A call begins. `toggleModule` does no more to the modules than it does now. -/
def start (modules : List HoneypotModule) : Request → List HoneypotModule × Task
  | .morph =>
    (modules, .next ((List.range modules.length).filter fun id ↦
      (modules[id]?.map HoneypotModule.active).getD false))
  | .toggleModule id active => (modules.modify id ({ · with active := active }), .next [])

/-- Any number of calls. -/
def service : TaskSystem (List HoneypotModule) Task Answer Request Empty where
  advance := advance
  spawn := start
  env _ e := e.elim

/-! ### Ports -/

/-- The port of a module. -/
def portAt (modules : List HoneypotModule) (id : ℕ) : Option ℕ :=
  modules[id]?.map HoneypotModule.port

/-- The ports are distinct, and none is one of the orchestrator's. -/
def Safe (modules : List HoneypotModule) : Prop :=
  ∀ i p, portAt modules i = some p → p ∉ protectedPorts ∧ ∀ j ≠ i, portAt modules j ≠ some p

/-- The module of a call is there, and the port that it may get is not one of the orchestrator's. -/
def Task.Checked (modules : List HoneypotModule) : Task → Prop
  | .choosing id .. => id < modules.length
  | .checking id _ newPort .. | .updating id _ newPort _ | .allowing id _ newPort _ =>
    id < modules.length ∧ newPort ∉ protectedPorts
  | _ => True

/-- A port that is assigned is no other module's. -/
def StillFree (s : TaskSystem.State (List HoneypotModule) Task) :
    TaskSystem.Label Answer Request Empty → Prop
  | .own k (.result true) => ∀ id oldPort newPort todo,
    s.tasks[k]? = some (.allowing id oldPort newPort todo) →
      ∀ j ≠ id, portAt s.world j ≠ some newPort
  | _ => True

/-- The port goes to no module but this one. -/
def Spares (id port : ℕ) (s : TaskSystem.State (List HoneypotModule) Task) :
    TaskSystem.Label Answer Request Empty → Prop
  | .own k (.result true) => ∀ id' oldPort newPort todo,
    s.tasks[k]? = some (.allowing id' oldPort newPort todo) → id' ≠ id → newPort ≠ port
  | _ => True

section

variable {w w' : List HoneypotModule} {t t' : Task} {l : Answer} {id p : ℕ}

theorem checked_tryAgain {attempts : ℕ} {todo : List ℕ} (h : id < w.length) :
    (tryAgain id p attempts todo).Checked w := by
  rw [tryAgain]
  split
  · trivial
  · exact h

/-- A call changes the modules only when it assigns a port. -/
theorem advance_cases (h : advance w t l = some (w', t')) (ht : t.Checked w) :
    t'.Checked w ∧ (w' = w ∨ ∃ id oldPort newPort todo, t = .allowing id oldPort newPort todo ∧
      l = .result true ∧ w' = w.modify id ({ · with port := newPort })) := by
  unfold advance at h
  split at h
  next id todo =>
    obtain ⟨m, hm, h⟩ := map_eq_some_iff.1 h
    cases h
    refine ⟨?_, .inl rfl⟩
    split
    · exact (List.getElem?_eq_some_iff.1 hm).1
    · trivial
  next id oldPort attempts todo newPort =>
    obtain ⟨-, h⟩ := ite_none_right_eq_some.1 h
    cases h
    refine ⟨?_, .inl rfl⟩
    split
    · rename_i hfree
      exact ⟨ht, hfree.1⟩
    · exact checked_tryAgain ht
  next id oldPort newPort attempts todo free =>
    cases h
    cases free
    · exact ⟨checked_tryAgain ht.1, .inl rfl⟩
    · exact ⟨ht, .inl rfl⟩
  next id oldPort newPort todo success =>
    cases h
    cases success
    · exact ⟨trivial, .inl rfl⟩
    · exact ⟨ht, .inl rfl⟩
  next id oldPort newPort todo success =>
    cases h
    cases success
    · exact ⟨trivial, .inl rfl⟩
    · exact ⟨trivial, .inr ⟨id, oldPort, newPort, todo, rfl, rfl, rfl⟩⟩
  all_goals
    cases h
    try exact ⟨trivial, .inl rfl⟩

theorem Task.Checked.mono (hlen : w'.length = w.length) (h : t.Checked w) : t.Checked w' := by
  cases t <;> simp_all [Task.Checked]

theorem portAt_modify_active (active : Bool) (j : ℕ) :
    portAt (w.modify id ({ · with active := active })) j = portAt w j := by
  rw [portAt, getElem?_modify, portAt]
  cases w[j]? with
  | none => rfl
  | some m => by_cases h : id = j <;> simp [h]

theorem portAt_modify_self (hid : id < w.length) :
    portAt (w.modify id ({ · with port := p })) id = some p := by
  simp [portAt, getElem?_eq_getElem hid]

theorem portAt_modify_of_ne {j : ℕ} (hj : j ≠ id) :
    portAt (w.modify id ({ · with port := p })) j = portAt w j := by
  simp [portAt, hj.symm]

/-- A new port keeps the modules safe exactly if no other module has it. -/
theorem safe_modify_port (hs : Safe w) (hid : id < w.length) (hp : p ∉ protectedPorts) :
    Safe (w.modify id ({ · with port := p })) ↔ ∀ j ≠ id, portAt w j ≠ some p := by
  have hself : portAt (w.modify id ({ · with port := p })) id = some p := portAt_modify_self hid
  have hother {j : ℕ} (hj : j ≠ id) :
      portAt (w.modify id ({ · with port := p })) j = portAt w j := portAt_modify_of_ne hj
  constructor
  · intro h j hj
    rw [← hother hj]
    exact (h id p hself).2 j hj
  · intro hfree i q hq
    by_cases hi : i = id
    · subst hi
      obtain rfl := some.inj (hself.symm.trans hq)
      exact ⟨hp, fun j hj ↦ hother hj ▸ hfree j hj⟩
    · rw [hother hi] at hq
      refine ⟨(hs i q hq).1, fun j hj ↦ ?_⟩
      by_cases hjd : j = id
      · rw [hjd, hself]
        exact fun heq ↦ hfree i hi (hq.trans heq.symm)
      · rw [hother hjd]
        exact (hs i q hq).2 j hj

/-- All calls are in order. -/
def InOrder : TaskSystem.State (List HoneypotModule) Task → Prop :=
  TaskSystem.Inv (fun _ ↦ True) fun _ w t ↦ t.Checked w

variable {s s' : TaskSystem.State (List HoneypotModule) Task}
  {a : TaskSystem.Label Answer Request Empty}

/-- Every step keeps the order. -/
theorem inOrder_step (hs : InOrder s) (h : service.step s a = some s') : InOrder s' := by
  refine TaskSystem.inv_step (G := fun w w' ↦ w'.length = w.length) ?_ ?_ ?_ ?_ hs h
  · intro i l t w' t' _ ht hadv
    obtain ⟨ht', hw⟩ := advance_cases hadv (hs.2 i t ht)
    have hlen : w'.length = s.world.length := by
      obtain rfl | ⟨id, _, _, _, -, -, rfl⟩ := hw
      · rfl
      · exact length_modify ..
    exact ⟨trivial, hlen, ht'.mono hlen⟩
  · intro w r i _
    cases r with
    | morph => exact ⟨trivial, rfl, trivial⟩
    | toggleModule id active => exact ⟨trivial, length_modify .., trivial⟩
  · exact fun {w e} ↦ e.elim
  · exact fun _ hlen ht ↦ ht.mono hlen

/-- **One step.** Only an assignment can go wrong. -/
theorem safe_step_iff (hs : InOrder s) (hsafe : Safe s.world) (h : service.step s a = some s') :
    Safe s'.world ↔ StillFree s a := by
  cases a with
  | own k l =>
    obtain ⟨t, w', t', ht, hadv, rfl⟩ := TaskSystem.exists_of_step_own h
    have hchk := hs.2 k t ht
    obtain ⟨-, hw⟩ := advance_cases hadv hchk
    by_cases hassigns : ∃ id oldPort newPort todo,
        t = .allowing id oldPort newPort todo ∧ l = .result true
    · obtain ⟨id, oldPort, newPort, todo, rfl, rfl⟩ := hassigns
      cases hadv
      rw [if_pos rfl, safe_modify_port hsafe hchk.1 hchk.2]
      constructor
      · intro hfree id' oldPort' newPort' todo' ht'
        cases ht.symm.trans ht'
        exact hfree
      · exact fun hfree ↦ hfree id oldPort newPort todo ht
    · obtain rfl | ⟨id, oldPort, newPort, todo, hassign, hl, -⟩ := hw
      · refine iff_of_true hsafe ?_
        unfold StillFree
        split
        · rename_i heq
          cases heq
          intro id oldPort newPort todo ht'
          have htask := some.inj (ht.symm.trans ht')
          exact absurd ⟨id, oldPort, newPort, todo, htask, rfl⟩ hassigns
        · trivial
      · exact absurd ⟨id, oldPort, newPort, todo, hassign, hl⟩ hassigns
  | spawn r =>
    cases h
    cases r with
    | morph => exact iff_of_true hsafe trivial
    | toggleModule id active =>
      refine iff_of_true (fun i q hq ↦ ?_) trivial
      simp only [service, start, portAt_modify_active] at hq ⊢
      exact hsafe i q hq
  | env e => exact e.elim

/-- A port that no other module has is no other module's after a step, unless it is given away. -/
theorem free_step (hs : InOrder s) (hfree : ∀ j ≠ id, portAt s.world j ≠ some p)
    (ha : Spares id p s a) (h : service.step s a = some s') :
    ∀ j ≠ id, portAt s'.world j ≠ some p := by
  intro j hj
  cases a with
  | own k l =>
    obtain ⟨t, w', t', ht, hadv, rfl⟩ := TaskSystem.exists_of_step_own h
    have hchk := hs.2 k t ht
    obtain ⟨-, rfl | ⟨id', oldPort, newPort, todo, rfl, rfl, rfl⟩⟩ := advance_cases hadv hchk
    · exact hfree j hj
    · rcases eq_or_ne j id' with rfl | hne
      · rw [portAt_modify_self hchk.1]
        exact fun heq ↦ ha j oldPort newPort todo ht hj (some.inj heq)
      · rw [portAt_modify_of_ne hne]
        exact hfree j hj
  | spawn r =>
    cases h
    cases r with
    | morph => exact hfree j hj
    | toggleModule id' active =>
      show portAt (s.world.modify id' ({ · with active := active })) j ≠ some p
      rw [portAt_modify_active]
      exact hfree j hj
  | env e => exact e.elim

section Found

variable {k oldPort attempts n : ℕ} {todo : List ℕ}
  (htask : s.tasks[k]? = some (.choosing id oldPort attempts todo))
  (hstep : service.step s (.own k (.random p)) = some s')
  (hfound : s'.tasks[k]? = some (.checking id oldPort p n todo))

include htask hstep hfound

/-- No other module has a port that is found. -/
theorem free_of_found : ∀ j ≠ id, portAt s'.world j ≠ some p := by
  obtain ⟨t, w', t', ht, hadv, rfl⟩ := TaskSystem.exists_of_step_own hstep
  cases htask.symm.trans ht
  obtain ⟨-, hadv⟩ := ite_none_right_eq_some.1 hadv
  cases hadv
  have hk : k < s.tasks.length := (List.getElem?_eq_some_iff.1 ht).1
  rw [getElem?_set_self hk] at hfound
  split at hfound
  case isTrue hok =>
    intro j _ hj
    obtain ⟨m, hm, hport⟩ := map_eq_some_iff.1 hj
    exact hok.2 m (mem_of_getElem? hm) hport
  case isFalse =>
    rw [tryAgain] at hfound
    split at hfound <;> cases hfound

/-- **A port is still free when it is assigned**, if it was found free by the call and has gone to
no other module since. -/
theorem stillFree_of_spared {u : TaskSystem.State (List HoneypotModule) Task}
    {as : List (TaskSystem.Label Answer Request Empty)} (hs : InOrder s)
    (hspares : Machine.Guarded service.step (Spares id p) s' as)
    (hrun : Machine.run service.step s' as = some u)
    (hassigns : u.tasks[k]? = some (.allowing id oldPort p todo)) :
    StillFree u (.own k (.result true)) := by
  have hinv := Machine.run_invariant (P := fun s ↦ InOrder s ∧ ∀ j ≠ id, portAt s.world j ≠ some p)
    (fun h ha hstep ↦ ⟨inOrder_step h.1 hstep, free_step h.1 h.2 ha hstep⟩)
    ⟨inOrder_step hs hstep, free_of_found htask hstep hfound⟩ hspares hrun
  intro id' oldPort newPort todo ht
  cases hassigns.symm.trans ht
  exact hinv.2

end Found

end

/-- **The ports stay distinct, and none is one of the orchestrator's,** if and only if every port
that is assigned is still free. -/
theorem ports_distinct_iff {modules : List HoneypotModule}
    {as : List (TaskSystem.Label Answer Request Empty)}
    {s : TaskSystem.State (List HoneypotModule) Task} (hsafe : Safe modules)
    (hrun : Machine.run service.step ⟨modules, []⟩ as = some s) :
    (∀ bs u, bs <+: as → Machine.run service.step ⟨modules, []⟩ bs = some u → Safe u.world) ↔
      Machine.Guarded service.step StillFree ⟨modules, []⟩ as :=
  Machine.always_iff_guarded (P := fun s ↦ Safe s.world) inOrder_step safe_step_iff
    (TaskSystem.inv_nil trivial) hsafe hrun

/-- Two modules. -/
def twoModules : List HoneypotModule := [⟨2222, true⟩, ⟨3306, true⟩]

/-- A call finds a port. -/
def finds (k port : ℕ) : List (TaskSystem.Label Answer Request Empty) :=
  [.own k .go, .own k (.random port), .own k (.ss true)]

theorem safe_twoModules : Safe twoModules := by
  intro i p hp
  match i with
  | 0 | 1 =>
    cases hp
    refine ⟨by decide, fun j hj ↦ ?_⟩
    match j with
    | 0 | 1 => first | exact absurd rfl hj | decide
    | j + 2 => exact nofun
  | i + 2 => cases hp

/-- One call gives the first module a new port. -/
theorem ports_distinct_iff_morph : Safe twoModules ∧
    ∀ bs u, bs <+: .spawn .morph :: finds 0 4000 ++ [.own 0 (.result true), .own 0 (.result true)] →
      Machine.run service.step ⟨twoModules, []⟩ bs = some u → Safe u.world := by
  refine ⟨safe_twoModules, (ports_distinct_iff safe_twoModules rfl).2 ?_⟩
  refine ⟨trivial, fun _ h₁ ↦ ⟨trivial, fun _ h₂ ↦ ⟨trivial, fun _ h₃ ↦ ⟨trivial, fun _ h₄ ↦ ?_⟩⟩⟩⟩
  cases h₁
  cases h₂
  cases h₃
  cases h₄
  refine ⟨nofun, fun _ h₅ ↦ ⟨?_, fun _ _ ↦ trivial⟩⟩
  cases h₅
  intro id oldPort newPort todo ht j hj
  cases ht
  match j with
  | 0 => exact absurd rfl hj
  | 1 => decide
  | j + 2 => exact nofun

/-- **Two modules get the same port.** Of two calls that overlap, each finds it free. -/
theorem same_port_twice : Safe twoModules ∧
    (Machine.run service.step ⟨twoModules, []⟩
      (.spawn .morph :: finds 0 4000 ++ .spawn .morph :: finds 1 9000 ++ .own 1 (.result false) ::
        finds 1 4000 ++ [.own 0 (.result true), .own 0 (.result true), .own 1 (.result true),
          .own 1 (.result true)])).map (fun s ↦ s.world.map HoneypotModule.port) =
        some [4000, 4000] :=
  ⟨safe_twoModules, rfl⟩

end Protection
