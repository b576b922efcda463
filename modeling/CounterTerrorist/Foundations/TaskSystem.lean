import CounterTerrorist.Foundations.Run

/-!
# Tasks that share a world

Asynchronous functions run one at a time, from one point where they wait to the next. A `TaskSystem`
says what a task does then to itself and to the world it shares with the others, what happens when a
new one is started, and what else may happen to the world. The steps of any number of tasks may be
mixed.

An invariant of all tasks follows from what each of them does alone, if the others keep to what it
relies on (`inv_step`): a relation between the worlds before and after a step, which every step
guarantees and every invariant survives.
-/

/-- Tasks, what they may get to hear, and what may happen besides. -/
structure TaskSystem (W T L R E : Type*) where
  /-- A task goes on. -/
  advance : W → T → L → Option (W × T)
  /-- A task is started. -/
  spawn : W → R → W × T
  /-- Something happens to the world. -/
  env : W → E → W

namespace TaskSystem

open List Option

variable {W T L R E : Type*}

/-- The world, and the tasks in the order in which they were started. -/
structure State (W T : Type*) where
  world : W
  tasks : List T

/-- What happens next. -/
inductive Label (L R E : Type*)
  | own (i : ℕ) (l : L)
  | spawn (r : R)
  | env (e : E)

variable (M : TaskSystem W T L R E)

/-- One step. -/
def step (s : State W T) : Label L R E → Option (State W T)
  | .own i l =>
    s.tasks[i]?.bind fun t ↦ (M.advance s.world t l).map fun r ↦ ⟨r.1, s.tasks.set i r.2⟩
  | .spawn r => some ⟨(M.spawn s.world r).1, s.tasks ++ [(M.spawn s.world r).2]⟩
  | .env e => some ⟨M.env s.world e, s.tasks⟩

variable {M} {s s' : State W T} {i : ℕ} {t t' : T} {w w' : W}

/-- What a step of a task is. -/
theorem exists_of_step_own {l : L} (h : M.step s (.own i l) = some s') :
    ∃ t w' t', s.tasks[i]? = some t ∧ M.advance s.world t l = some (w', t') ∧
      s' = ⟨w', s.tasks.set i t'⟩ := by
  obtain ⟨t, ht, hmap⟩ := bind_eq_some_iff.1 h
  obtain ⟨⟨w', t'⟩, hadv, rfl⟩ := map_eq_some_iff.1 hmap
  exact ⟨t, w', t', ht, hadv, rfl⟩

/-! ### Invariants -/

/-- The world is in order, and so is every task. -/
def Inv (I : W → Prop) (P : ℕ → W → T → Prop) (s : State W T) : Prop :=
  I s.world ∧ ∀ i t, s.tasks[i]? = some t → P i s.world t

theorem inv_nil {I : W → Prop} {P : ℕ → W → T → Prop} (h : I w) : Inv I P ⟨w, []⟩ :=
  ⟨h, fun _ _ ht ↦ by rw [getElem?_nil] at ht; cases ht⟩

/-- **Rely and guarantee.** If the step of a task, the start of a task and all that happens
besides keep the world in order and guarantee `G`, and what is known of a task survives a change
that `G` allows, then it is known of all tasks after every step. -/
theorem inv_step {I : W → Prop} {P : ℕ → W → T → Prop} {G : W → W → Prop} {a : Label L R E}
    (hadvance : ∀ {i l t w' t'}, a = .own i l → s.tasks[i]? = some t →
      M.advance s.world t l = some (w', t') → I w' ∧ G s.world w' ∧ P i w' t')
    (hspawn : ∀ {w r} (i : ℕ), I w → I (M.spawn w r).1 ∧ G w (M.spawn w r).1 ∧
      P i (M.spawn w r).1 (M.spawn w r).2)
    (henv : ∀ {w e}, I w → I (M.env w e) ∧ G w (M.env w e))
    (hstab : ∀ {i w w' t}, I w → G w w' → P i w t → P i w' t)
    (hs : Inv I P s) (h : M.step s a = some s') : Inv I P s' := by
  obtain ⟨hworld, htasks⟩ := hs
  cases a with
  | own i l =>
    obtain ⟨t, w', t', ht, hadv, rfl⟩ := exists_of_step_own h
    obtain ⟨hI, hG, hP⟩ := hadvance rfl ht hadv
    refine ⟨hI, fun j u hu ↦ ?_⟩
    by_cases hij : i = j
    · subst hij
      rw [getElem?_set_self (List.getElem?_eq_some_iff.1 ht).1] at hu
      exact some.inj hu ▸ hP
    · rw [getElem?_set_ne hij] at hu
      exact hstab hworld hG (htasks j u hu)
  | spawn r =>
    obtain rfl := some.inj h
    obtain ⟨hI, hG, hP⟩ := hspawn (r := r) s.tasks.length hworld
    refine ⟨hI, fun j u hu ↦ ?_⟩
    rcases Nat.lt_trichotomy j s.tasks.length with hlt | rfl | hgt
    · rw [getElem?_append_left hlt] at hu
      exact hstab hworld hG (htasks j u hu)
    · rw [getElem?_concat_length] at hu
      exact some.inj hu ▸ hP
    · rw [getElem?_eq_none (by simpa using Nat.succ_le_of_lt hgt)] at hu
      cases hu
  | env e =>
    obtain rfl := some.inj h
    obtain ⟨hI, hG⟩ := henv (e := e) hworld
    exact ⟨hI, fun j u hu ↦ hstab hworld hG (htasks j u hu)⟩

end TaskSystem
