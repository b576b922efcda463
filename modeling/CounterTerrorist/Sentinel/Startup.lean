import Mathlib.Data.List.Basic

/-!
# How the sentinel starts

`main` loads the eBPF object, asks for the online CPUs and opens one reader of perf events for each
of them. If there is no map of events to read from, it falls back to dummy mode.

Every turn of the loop takes the map out of the loaded object, and nothing puts it back. So the
second CPU finds no map, and the sentinel is in dummy mode on every machine with more than one
(`starts_iff`).

The object and its `take_map` belong to a library. They are parameters; all that is used of them is
that a map that was taken is not found again (`Host.TakesAway`).
-/

namespace Sentinel

/-- What `main` finds when it starts. -/
structure Host (Bpf : Type*) where
  /-- The loaded object; `none` if it does not load. -/
  load : Option Bpf
  /-- `take_map`: the object afterwards, if there is a map of this name. -/
  takeMap : Bpf → String → Option Bpf
  /-- `online_cpus`; `none` if this is an error. -/
  onlineCpus : Option (List ℕ)
  /-- `PerfEventArray::try_from` and `open` succeed for a CPU. -/
  opens : ℕ → Bool

/-- Where `main` comes to, and the CPUs with a reader. -/
inductive Startup
  | commandLoop (readers : List ℕ)
  | dummyMode (readers : List ℕ)
  | failed
deriving Repr, DecidableEq

namespace Host

variable {Bpf : Type*} (host : Host Bpf)

/-- The loop over the CPUs. -/
def openReaders : List ℕ → Bpf → List ℕ → Startup
  | [], _, readers => .commandLoop readers
  | cpuId :: cpus, bpf, readers =>
    match host.takeMap bpf "EVENTS" with
    | none => .dummyMode readers
    | some bpf =>
      if host.opens cpuId then openReaders cpus bpf (readers ++ [cpuId]) else .failed

/-- `main`, up to its command loop. -/
def main : Startup :=
  match host.load with
  | none => .dummyMode []
  | some bpf =>
    match host.onlineCpus with
    | none => .failed
    | some cpus => host.openReaders cpus bpf []

/-- A map that was taken is not found again. -/
def TakesAway : Prop :=
  ∀ bpf name taken, host.takeMap bpf name = some taken → host.takeMap taken name = none

variable {host} {bpf : Bpf}

/-- Without the map, only a machine without further CPUs gets to the command loop. -/
theorem openReaders_of_eq_none (h : host.takeMap bpf "EVENTS" = none) (cpus readers : List ℕ) :
    host.openReaders cpus bpf readers =
      if cpus = [] then .commandLoop readers else .dummyMode readers := by
  cases cpus with
  | nil => rfl
  | cons cpuId cpus => rw [openReaders, h, if_neg (List.cons_ne_nil _ _)]

/-- **The sentinel starts on machines with one CPU only.** If the map of events is there and every
reader can be opened, `main` comes to its command loop with one reader for each CPU if and only if
there is one CPU. -/
theorem starts_iff {cpus : List ℕ} (htakes : host.TakesAway) (hload : host.load = some bpf)
    (hevents : (host.takeMap bpf "EVENTS").isSome = true) (hcpus : host.onlineCpus = some cpus)
    (hne : cpus ≠ []) (hopens : ∀ cpuId ∈ cpus, host.opens cpuId = true) :
    host.main = .commandLoop cpus ↔ cpus.length = 1 := by
  obtain ⟨cpuId, rest, rfl⟩ := List.exists_cons_of_ne_nil hne
  obtain ⟨taken, htaken⟩ := Option.isSome_iff_exists.1 hevents
  have hmain : host.main = if rest = [] then .commandLoop [cpuId] else .dummyMode [cpuId] := by
    simp only [main, hload, hcpus, openReaders, htaken, hopens cpuId List.mem_cons_self]
    exact openReaders_of_eq_none (htakes bpf "EVENTS" taken htaken) rest [cpuId]
  rw [hmain]
  by_cases hrest : rest = []
  · simp [hrest]
  · simp [hrest]

/-- A machine on which everything works. The object is a list of the maps that are left in it. -/
def working (cpus : List ℕ) : Host (List String) where
  load := some ["EVENTS", "XDP_BLOCK_LIST"]
  takeMap maps name := if name ∈ maps then some (maps.filter (· ≠ name)) else none
  onlineCpus := some cpus
  opens _ := true

theorem takesAway_working (cpus : List ℕ) : (working cpus).TakesAway := by
  intro maps name taken h
  obtain ⟨-, h⟩ := Option.ite_none_right_eq_some.1 h
  obtain rfl := Option.some.inj h
  exact if_neg (by simp)

theorem starts_iff_one : (working [0]).main = .commandLoop [0] :=
  (starts_iff (takesAway_working _) rfl rfl rfl (by decide) (fun _ _ ↦ rfl)).2 rfl

/-- With two CPUs, only the first one has a reader. -/
theorem dummyMode_two :
    (working [0, 1]).TakesAway ∧ (working [0, 1]).main = .dummyMode [0] :=
  ⟨takesAway_working _, by decide⟩

end Host

end Sentinel
