import CounterTerrorist.Foundations.Run
import Mathlib.Data.List.Induction
import Mathlib.Data.List.Nodup
import Mathlib.Logic.Function.Basic

/-!
# A lock made of a chain

Whoever wants to enter a section puts itself at the end of a chain and remembers who was at the end
before. It enters when that one has gone. The chain has no other memory: nobody knows the whole of
it, and nobody is woken up (`Chain`).

## What it implements

A line in which people stand one behind the other, and of whom the first one may go in as soon as
nobody is inside (`Line`). `Implements` relates the two, and every operation of the chain is one of
the line (`Implements.step`). At most one participant is inside (`Implements.inside_unique`), and
participants enter in the order in which they came (`Line.run_empty`).

The third is that everyone enters, if everyone who is inside leaves and everyone who may enter does
so (`eventually_enters`).
-/

namespace ChainLock

open List Machine Option

variable {I : Type*}

/-- Where a participant is. -/
inductive Phase (I : Type*)
  | absent
  /-- It waits for the one that was there before it. -/
  | waiting (prev : Option I)
  | inside
  | gone
deriving DecidableEq

/-- What can happen. -/
inductive Op (I : Type*)
  | arrive (i : I)
  | enter (i : I)
  | leave (i : I)

/-- Who arrives in an operation. -/
def Op.arriving : Op I → Option I
  | .arrive i => some i
  | _ => none

/-- Who enters. -/
def Op.entering : Op I → Option I
  | .enter i => some i
  | _ => none

/-! ### The chain -/

/-- The end of the chain, and what everyone knows. -/
structure Chain (I : Type*) where
  tail : Option I
  phase : I → Phase I

namespace Chain

/-- Nobody has come. -/
def empty : Chain I := ⟨none, fun _ ↦ .absent⟩

variable [DecidableEq I]

/-- The one before has gone, if there was one. -/
def free (c : Chain I) (prev : Option I) : Bool := prev.all fun j ↦ decide (c.phase j = .gone)

/-- Participant `i` is in phase `p` now. -/
def put (c : Chain I) (i : I) (p : Phase I) : Chain I :=
  { c with phase := Function.update c.phase i p }

/-- One operation. -/
def step (c : Chain I) : Op I → Option (Chain I)
  | .arrive i =>
    if c.phase i = .absent then some { c.put i (.waiting c.tail) with tail := some i } else none
  | .enter i =>
    match c.phase i with
    | .waiting prev => if c.free prev then some (c.put i .inside) else none
    | _ => none
  | .leave i => if c.phase i = .inside then some (c.put i .gone) else none

variable {c d : Chain I} {i j : I} {p : Phase I} {op : Op I} {ops : List (Op I)}

@[simp] theorem phase_put_self : (c.put i p).phase i = p := Function.update_self ..

theorem phase_put_of_ne (h : j ≠ i) : (c.put i p).phase j = c.phase j := Function.update_of_ne h ..

variable {prev : Option I}

theorem step_enter (hi : c.phase i = .waiting prev) (hfree : c.free prev = true) :
    c.step (.enter i) = some (c.put i .inside) := by
  rw [step, hi]
  exact if_pos hfree

theorem step_leave (hi : c.phase i = .inside) : c.step (.leave i) = some (c.put i .gone) :=
  if_pos hi

theorem put_put (c : Chain I) (i : I) (p p' : Phase I) : (c.put i p).put i p' = c.put i p' :=
  congrArg (Chain.mk _) (Function.update_idem ..)

/-- What an operation does. -/
theorem step_cases (h : c.step op = some d) : (∃ i, op = .arrive i ∧ c.phase i = .absent ∧
      d = { c.put i (.waiting c.tail) with tail := some i }) ∨
    (∃ i prev, op = .enter i ∧ c.phase i = .waiting prev ∧ c.free prev = true ∧
      d = c.put i .inside) ∨
    ∃ i, op = .leave i ∧ c.phase i = .inside ∧ d = c.put i .gone := by
  cases op with
  | arrive i =>
    obtain ⟨habs, h⟩ := ite_none_right_eq_some.1 h
    exact .inl ⟨i, rfl, habs, (some.inj h).symm⟩
  | enter i =>
    rw [step] at h
    split at h
    · rename_i prev hph
      obtain ⟨hfree, h⟩ := ite_none_right_eq_some.1 h
      exact .inr (.inl ⟨i, prev, rfl, hph, hfree, (some.inj h).symm⟩)
    · cases h
  | leave i =>
    obtain ⟨hin, h⟩ := ite_none_right_eq_some.1 h
    exact .inr (.inr ⟨i, rfl, hin, (some.inj h).symm⟩)

/-- What an operation does to one participant. -/
theorem step_phase (h : c.step op = some d) (i : I) : d.phase i = c.phase i ∨
    (c.phase i = .absent ∧ d.phase i = .waiting c.tail) ∨
    (op = .enter i ∧ (∃ prev, c.phase i = .waiting prev) ∧ d.phase i = .inside) ∨
    (op = .leave i ∧ c.phase i = .inside ∧ d.phase i = .gone) := by
  obtain ⟨j, rfl, hj, rfl⟩ | ⟨j, prev, rfl, hj, -, rfl⟩ | ⟨j, rfl, hj, rfl⟩ := step_cases h <;>
    by_cases heq : i = j
  · subst heq
    exact .inr (.inl ⟨hj, phase_put_self⟩)
  · exact .inl (phase_put_of_ne heq)
  · subst heq
    exact .inr (.inr (.inl ⟨rfl, ⟨prev, hj⟩, phase_put_self⟩))
  · exact .inl (phase_put_of_ne heq)
  · subst heq
    exact .inr (.inr (.inr ⟨rfl, hj, phase_put_self⟩))
  · exact .inl (phase_put_of_ne heq)

section

variable (h : run step c ops = some d)
include h

/-- Nobody is forgotten. -/
theorem present_run (hi : c.phase i ≠ .absent) : d.phase i ≠ .absent := by
  refine run_invariant' (P := fun c ↦ c.phase i ≠ .absent) (fun {c op d} hi h ↦ ?_) hi h
  obtain hsame | ⟨habs, -⟩ | ⟨-, -, hd⟩ | ⟨-, -, hd⟩ := step_phase h i
  · rwa [hsame]
  · exact absurd habs hi
  all_goals
    rw [hd]
    nofun

/-- Whoever is gone stays so. -/
theorem gone_run (hi : c.phase i = .gone) : d.phase i = .gone := by
  refine run_invariant' (P := fun c ↦ c.phase i = .gone) (fun {c op d} hi h ↦ ?_) hi h
  obtain hsame | ⟨hi', -⟩ | ⟨-, ⟨prev, hi'⟩, -⟩ | ⟨-, hi', -⟩ := step_phase h i
  · exact hsame.trans hi
  all_goals
    rw [hi] at hi'
    cases hi'

/-- Whoever has entered may leave, and that is all. -/
theorem entered_run
    (hi : c.phase i = .inside ∨ c.phase i = .gone) : d.phase i = .inside ∨ d.phase i = .gone := by
  refine run_invariant' (P := fun c ↦ c.phase i = .inside ∨ c.phase i = .gone)
    (fun {c op d} hi h ↦ ?_) hi h
  obtain hsame | ⟨hi', -⟩ | ⟨-, -, hin⟩ | ⟨-, -, hgone⟩ := step_phase h i
  · rwa [hsame]
  · rw [hi'] at hi
    obtain hi | hi := hi <;> cases hi
  · exact .inl hin
  · exact .inr hgone

/-- Whoever waits and does not enter goes on waiting. -/
theorem waiting_run (hi : c.phase i = .waiting prev)
    (hnot : .enter i ∉ ops) : d.phase i = .waiting prev := by
  induction ops generalizing c with
  | nil =>
    obtain rfl := some.inj h
    exact hi
  | cons op ops ih =>
    obtain ⟨c', hc', h⟩ := run_cons.1 h
    rw [mem_cons, not_or] at hnot
    refine ih h ?_ hnot.2
    obtain hsame | ⟨hi', -⟩ | ⟨rfl, -⟩ | ⟨-, hi', -⟩ := step_phase hc' i
    · exact hsame.trans hi
    · rw [hi] at hi'
      cases hi'
    · exact absurd rfl hnot.1
    · rw [hi] at hi'
      cases hi'

theorem phase_of_enter_mem (hi : .enter i ∈ ops) : d.phase i = .inside ∨ d.phase i = .gone := by
  obtain ⟨front, rest, rfl⟩ := append_of_mem hi
  obtain ⟨c₁, c₂, -, hstep, hrest⟩ := run_append_cons.1 h
  refine entered_run hrest (.inl ?_)
  obtain ⟨j, hop, -⟩ | ⟨j, prev, hop, -, -, rfl⟩ | ⟨j, hop, -⟩ := step_cases hstep <;> cases hop
  exact phase_put_self

theorem phase_of_leave_mem (hi : .leave i ∈ ops) : d.phase i = .gone := by
  obtain ⟨front, rest, rfl⟩ := append_of_mem hi
  obtain ⟨c₁, c₂, -, hstep, hrest⟩ := run_append_cons.1 h
  refine gone_run hrest ?_
  obtain ⟨j, hop, -⟩ | ⟨j, prev, hop, -⟩ | ⟨j, hop, -, rfl⟩ := step_cases hstep <;> cases hop
  exact phase_put_self

end

end Chain

/-! ### The line -/

/-- Who has entered, in this order, who waits, and whether the last one to enter is still inside. -/
structure Line (I : Type*) where
  entered : List I
  queue : List I
  busy : Bool

namespace Line

/-- Nobody has come. -/
def empty : Line I := ⟨[], [], false⟩

variable [DecidableEq I]

/-- One operation. -/
def step (l : Line I) : Op I → Option (Line I)
  | .arrive i => some { l with queue := l.queue ++ [i] }
  | .enter i =>
    if l.busy = false ∧ l.queue.head? = some i then some ⟨l.entered ++ [i], l.queue.tail, true⟩
    else none
  | .leave i =>
    if l.busy = true ∧ l.entered.getLast? = some i then some { l with busy := false } else none

variable {l : Line I} {ops : List (Op I)}

/-- A run adds to the line who arrives, and takes in who enters. -/
theorem run_eq {m : Line I} (h : run step l ops = some m) :
    m.entered = l.entered ++ ops.filterMap Op.entering ∧
      m.entered ++ m.queue = l.entered ++ l.queue ++ ops.filterMap Op.arriving := by
  induction ops generalizing l with
  | nil =>
    obtain rfl := some.inj h
    simp
  | cons op ops ih =>
    obtain ⟨k, hk, h⟩ := run_cons.1 h
    obtain ⟨hent, hall⟩ := ih h
    cases op with
    | arrive i =>
      obtain rfl := some.inj hk
      refine ⟨hent, hall.trans ?_⟩
      show l.entered ++ (l.queue ++ [i]) ++ ops.filterMap Op.arriving =
        l.entered ++ l.queue ++ i :: ops.filterMap Op.arriving
      simp only [append_assoc, singleton_append]
    | enter i =>
      obtain ⟨⟨-, hhead⟩, hk⟩ := ite_none_right_eq_some.1 hk
      obtain rfl := some.inj hk
      refine ⟨?_, hall.trans ?_⟩
      · rw [hent, append_assoc]
        rfl
      · have hqueue : i :: l.queue.tail = l.queue := cons_head?_tail hhead
        rw [filterMap_cons_none rfl, append_assoc l.entered, singleton_append, hqueue]
    | leave i =>
      obtain ⟨-, hk⟩ := ite_none_right_eq_some.1 hk
      obtain rfl := some.inj hk
      exact ⟨hent, hall⟩

/-- Participants enter in the order in which they arrive. -/
theorem run_empty (h : run step empty ops = some l) :
    ops.filterMap Op.entering = l.entered ∧ ops.filterMap Op.arriving = l.entered ++ l.queue := by
  obtain ⟨hent, hall⟩ := run_eq h
  exact ⟨hent.symm, hall.symm⟩

end Line

/-! ### The chain implements the line -/

/-- The chain `c` is the line `l`. -/
structure Implements (c : Chain I) (l : Line I) : Prop where
  nodup : (l.entered ++ l.queue).Nodup
  tail : c.tail = (l.entered ++ l.queue).getLast?
  absent : ∀ i, c.phase i = .absent ↔ i ∉ l.entered ++ l.queue
  /-- Whoever stands in the line waits for the one before it. -/
  waiting : ∀ front i back, l.queue = front ++ i :: back →
    c.phase i = .waiting (l.entered ++ front).getLast?
  /-- Only the last one that entered may still be inside. -/
  gone : ∀ i ∈ l.entered, c.phase i = .gone ∨
    l.busy = true ∧ l.entered.getLast? = some i ∧ c.phase i = .inside
  holder : l.busy = true → ∃ i, l.entered.getLast? = some i ∧ c.phase i = .inside

namespace Implements

theorem empty : Implements (Chain.empty : Chain I) Line.empty where
  nodup := nodup_nil
  tail := rfl
  absent _ := ⟨fun _ ↦ not_mem_nil, fun _ ↦ rfl⟩
  waiting front i back h := absurd h.symm (append_ne_nil_of_right_ne_nil _ (by simp))
  gone _ h := absurd h not_mem_nil
  holder := nofun

variable {c d : Chain I} {l : Line I} {i j : I}

section

variable (h : Implements c l) (hi : c.phase i = .inside)
include h hi

theorem mem_entered_of_inside : l.busy = true ∧ l.entered.getLast? = some i := by
  have hmem : i ∈ l.entered ++ l.queue := by
    by_contra hnot
    rw [(h.absent i).2 hnot] at hi
    cases hi
  rcases mem_append.1 hmem with hent | hqueue
  · obtain hgone | ⟨hbusy, hlast, -⟩ := h.gone i hent
    · rw [hgone] at hi
      cases hi
    · exact ⟨hbusy, hlast⟩
  · obtain ⟨front, back, hsplit⟩ := append_of_mem hqueue
    rw [h.waiting front i back hsplit] at hi
    cases hi

/-- At most one participant is inside. -/
theorem inside_unique (hj : c.phase j = .inside) : i = j := by
  obtain ⟨-, hlast⟩ := h.mem_entered_of_inside hi
  obtain ⟨-, hlast'⟩ := h.mem_entered_of_inside hj
  exact some.inj (hlast.symm.trans hlast')

end

variable {prev : Option I}

/-- Whoever waits stands in the line, behind the one it waits for. -/
theorem split_of_waiting (h : Implements c l) (hi : c.phase i = .waiting prev) :
    ∃ front back, l.queue = front ++ i :: back ∧ prev = (l.entered ++ front).getLast? := by
  have hmem : i ∈ l.entered ++ l.queue := by
    by_contra hnot
    rw [(h.absent i).2 hnot] at hi
    cases hi
  rcases mem_append.1 hmem with hent | hqueue
  · obtain hgone | ⟨-, -, hin⟩ := h.gone i hent
    · rw [hgone] at hi
      cases hi
    · rw [hin] at hi
      cases hi
  · obtain ⟨front, back, hsplit⟩ := append_of_mem hqueue
    have hph := h.waiting front i back hsplit
    rw [hph] at hi
    cases hi
    exact ⟨front, back, hsplit, rfl⟩

variable [DecidableEq I]

section

variable (h : Implements c l)
include h

theorem arrive (hi : c.phase i = .absent) :
    Implements { c.put i (.waiting c.tail) with tail := some i }
      { l with queue := l.queue ++ [i] } := by
  have hnew : i ∉ l.entered ++ l.queue := (h.absent i).1 hi
  have hassoc : l.entered ++ (l.queue ++ [i]) = l.entered ++ l.queue ++ [i] :=
    (append_assoc ..).symm
  have hold {j : I} (hj : j ∈ l.entered ++ l.queue) :
      (c.put i (.waiting c.tail)).phase j = c.phase j := by
    refine Chain.phase_put_of_ne ?_
    rintro rfl
    exact hnew hj
  constructor
  case nodup =>
    rw [hassoc]
    exact h.nodup.append (nodup_singleton i) (disjoint_singleton.2 hnew)
  case tail =>
    rw [hassoc, getLast?_concat]
  case absent =>
    intro j
    rw [hassoc, mem_append, not_or]
    by_cases heq : j = i
    · subst heq
      simp
    · rw [← h.absent j]
      simp [Chain.phase_put_of_ne heq, heq]
  case waiting =>
    intro front j back hsplit
    rcases eq_nil_or_concat back with rfl | ⟨back, last, rfl⟩
    · obtain ⟨rfl, hij⟩ := append_inj' hsplit rfl
      obtain rfl := (List.cons.inj hij).1
      rw [← h.tail]
      exact Chain.phase_put_self
    · rw [concat_eq_append, ← cons_append, ← append_assoc] at hsplit
      obtain ⟨hsplit, -⟩ := append_inj' hsplit rfl
      rw [← h.waiting front j back hsplit]
      exact hold (mem_append_right _ (by rw [hsplit]; simp))
  case gone =>
    intro j hj
    have hsame := hold (mem_append_left _ hj)
    show (c.put i (.waiting c.tail)).phase j = .gone ∨
      l.busy = true ∧ l.entered.getLast? = some j ∧ (c.put i (.waiting c.tail)).phase j = .inside
    rw [hsame]
    exact h.gone j hj
  case holder =>
    intro hbusy
    obtain ⟨j, hlast, hj⟩ := h.holder hbusy
    refine ⟨j, hlast, ?_⟩
    exact (hold (mem_append_left _ (mem_of_getLast? hlast))).trans hj

/-- Who may enter is the first one in the line, and nobody is inside. -/
theorem first_of_free (hi : c.phase i = .waiting prev)
    (hfree : c.free prev = true) : ∃ back, l.queue = i :: back ∧ l.busy = false := by
  obtain ⟨front, back, hsplit, rfl⟩ := h.split_of_waiting hi
  have hgone : ∀ j, (l.entered ++ front).getLast? = some j → c.phase j = .gone := by
    intro j hj
    rw [hj] at hfree
    exact of_decide_eq_true hfree
  -- the last one in front would be waiting itself
  obtain rfl : front = [] := by
    rcases eq_nil_or_concat front with hnil | ⟨front, j, rfl⟩
    · exact hnil
    · rw [concat_eq_append, append_assoc] at hsplit
      have hwaits := h.waiting front j _ hsplit
      rw [hgone j (by rw [concat_eq_append, ← append_assoc, getLast?_concat])] at hwaits
      cases hwaits
  refine ⟨back, hsplit, ?_⟩
  rw [Bool.eq_false_iff]
  intro hbusy
  obtain ⟨j, hlast, hj⟩ := h.holder hbusy
  rw [hgone j (by rwa [append_nil])] at hj
  cases hj

theorem enter {back : List I} (hqueue : l.queue = i :: back) (hbusy : l.busy = false) :
    Implements (c.put i .inside) ⟨l.entered ++ [i], back, true⟩ := by
  have hall : l.entered ++ [i] ++ back = l.entered ++ l.queue := by
    rw [append_assoc, hqueue, singleton_append]
  have hnodup : (l.entered ++ [i] ++ back).Nodup := hall ▸ h.nodup
  have hfirst : i ∉ l.entered ∧ i ∉ back := by
    rw [append_assoc] at hnodup
    exact not_or.1 (mt mem_append.2 (nodup_middle.1 hnodup).notMem)
  constructor
  case nodup => exact hnodup
  case tail =>
    rw [hall]
    exact h.tail
  case absent =>
    intro j
    rw [hall]
    by_cases heq : j = i
    · subst heq
      simp [hqueue]
    · rw [Chain.phase_put_of_ne heq]
      exact h.absent j
  case waiting =>
    intro front j rest (hsplit : back = front ++ j :: rest)
    have hne : j ≠ i := by
      rintro rfl
      exact hfirst.2 (by rw [hsplit]; simp)
    rw [Chain.phase_put_of_ne hne, append_assoc]
    exact h.waiting (i :: front) j rest (by rw [hqueue, hsplit]; rfl)
  case gone =>
    intro j hj
    rcases mem_append.1 hj with hold | hnew
    · have hne : j ≠ i := by
        rintro rfl
        exact hfirst.1 hold
      rw [Chain.phase_put_of_ne hne]
      refine .inl ((h.gone j hold).resolve_right ?_)
      rintro ⟨hbusy', -⟩
      rw [hbusy] at hbusy'
      cases hbusy'
    · obtain rfl := mem_singleton.1 hnew
      exact .inr ⟨rfl, getLast?_concat .., Chain.phase_put_self⟩
  case holder => exact fun _ ↦ ⟨i, getLast?_concat .., Chain.phase_put_self⟩

theorem leave (hi : c.phase i = .inside) : Implements (c.put i .gone) { l with busy := false } := by
  obtain ⟨-, hlast⟩ := h.mem_entered_of_inside hi
  constructor
  case nodup => exact h.nodup
  case tail => exact h.tail
  case absent =>
    intro j
    rw [← h.absent j]
    by_cases heq : j = i
    · subst heq
      simp [hi]
    · rw [Chain.phase_put_of_ne heq]
  case waiting =>
    intro front j back hsplit
    have hph := h.waiting front j back hsplit
    rw [← hph]
    refine Chain.phase_put_of_ne ?_
    rintro rfl
    rw [hi] at hph
    cases hph
  case gone =>
    intro j hj
    left
    by_cases heq : j = i
    · subst heq
      exact Chain.phase_put_self
    · rw [Chain.phase_put_of_ne heq]
      refine (h.gone j hj).resolve_right ?_
      rintro ⟨-, hlast', -⟩
      exact heq (some.inj (hlast'.symm.trans hlast))
  case holder =>
    intro hbusy
    cases hbusy

/-- Every operation of the chain is one of the line. -/
theorem step {op : Op I} (hs : c.step op = some d) : ∃ m, l.step op = some m ∧ Implements d m := by
  obtain ⟨i, rfl, hi, rfl⟩ | ⟨i, prev, rfl, hi, hfree, rfl⟩ | ⟨i, rfl, hi, rfl⟩ :=
    Chain.step_cases hs
  · exact ⟨_, rfl, h.arrive hi⟩
  · obtain ⟨back, hqueue, hbusy⟩ := h.first_of_free hi hfree
    refine ⟨⟨l.entered ++ [i], back, true⟩, ?_, h.enter hqueue hbusy⟩
    rw [Line.step, if_pos ⟨hbusy, by rw [hqueue]; rfl⟩, hqueue]
    rfl
  · exact ⟨_, if_pos (h.mem_entered_of_inside hi), h.leave hi⟩

/-- Every run of the chain is one of the line, operation by operation. -/
theorem run {ops : List (Op I)} (hr : run Chain.step c ops = some d) :
    ∃ m, run Line.step l ops = some m ∧ Implements d m := by
  induction ops generalizing c l with
  | nil =>
    obtain rfl := some.inj hr
    exact ⟨l, rfl, h⟩
  | cons op ops ih =>
    obtain ⟨c', hc', hr⟩ := run_cons.1 hr
    obtain ⟨l', hl', h'⟩ := h.step hc'
    obtain ⟨m, hm, hd⟩ := ih h' hr
    exact ⟨m, run_cons.2 ⟨l', hl', hm⟩, hd⟩

end

end Implements

/-! ### Everyone enters -/

section Liveness

variable [DecidableEq I] {c : ℕ → Chain I} {ops : ℕ → List (Op I)}

section

variable (hrun : ∀ n, run Chain.step (c n) (ops n) = some (c (n + 1)))
include hrun

/-- What goes on for ever is connected by runs. -/
theorem exists_run (n : ℕ) : ∃ ops, run Chain.step (c 0) ops = some (c n) := by
  induction n with
  | zero => exact ⟨[], rfl⟩
  | succ n ih =>
    obtain ⟨front, hfront⟩ := ih
    exact ⟨front ++ ops n, run_trans hfront (hrun n)⟩

/-- Whoever waits for one that will be gone enters. -/
theorem enters_of_gone
    (henters : ∀ n i prev, (c n).phase i = .waiting prev → (c n).free prev = true →
      ∃ m, n ≤ m ∧ .enter i ∈ ops m)
    {n k : ℕ} {i : I} {prev : Option I} (hi : (c n).phase i = .waiting prev) (hnk : n ≤ k)
    (hfree : (c k).free prev = true) : ∃ m, n ≤ m ∧ .enter i ∈ ops m := by
  by_contra hnever
  have hwaits : (c k).phase i = .waiting prev := by
    clear hfree
    induction hnk with
    | refl => exact hi
    | @step k hnk ih => exact Chain.waiting_run (hrun k) ih fun hk ↦ hnever ⟨k, hnk, hk⟩
  obtain ⟨m, hkm, hm⟩ := henters k i prev hwaits hfree
  exact hnever ⟨m, Nat.le_trans hnk hkm, hm⟩

end

/-- If everyone who may enter does so, and everyone who is inside leaves, everyone who waits
enters. -/
theorem eventually_enters (hempty : c 0 = .empty)
    (hrun : ∀ n, run Chain.step (c n) (ops n) = some (c (n + 1)))
    (henters : ∀ n i prev, (c n).phase i = .waiting prev → (c n).free prev = true →
      ∃ m, n ≤ m ∧ .enter i ∈ ops m)
    (hleaves : ∀ n i, (c n).phase i = .inside → ∃ m, n ≤ m ∧ .leave i ∈ ops m)
    {n : ℕ} {i : I} {prev : Option I} (hi : (c n).phase i = .waiting prev) :
    ∃ m, n ≤ m ∧ .enter i ∈ ops m := by
  have hgoes {n : ℕ} {j : I} (hj : (c n).phase j = .inside ∨ (c n).phase j = .gone) :
      ∃ k, n ≤ k ∧ (c k).phase j = .gone := by
    rcases hj with hin | hgone
    · obtain ⟨m, hnm, hm⟩ := hleaves n j hin
      exact ⟨m + 1, Nat.le_succ_of_le hnm, Chain.phase_of_leave_mem (hrun m) hm⟩
    · exact ⟨n, Nat.le_refl n, hgone⟩
  obtain ⟨front, hfront⟩ := exists_run hrun n
  obtain ⟨l, -, hl⟩ := Implements.empty.run (hempty ▸ hfront)
  obtain ⟨front, back, hsplit, rfl⟩ := hl.split_of_waiting hi
  -- on those who wait in front, from the last one of them
  induction front using List.reverseRecOn generalizing i back with
  | nil =>
    rw [append_nil] at hi
    rcases hlast : l.entered.getLast? with - | j
    · rw [hlast] at hi
      exact henters n i none hi rfl
    · rw [hlast] at hi
      have hj : (c n).phase j = .inside ∨ (c n).phase j = .gone := by
        obtain hgone | ⟨-, -, hin⟩ := hl.gone j (mem_of_getLast? hlast)
        · exact .inr hgone
        · exact .inl hin
      obtain ⟨k, hnk, hgone⟩ := hgoes hj
      exact enters_of_gone hrun henters hi hnk (decide_eq_true hgone)
  | append_singleton front j ih =>
    rw [← append_assoc, getLast?_concat] at hi
    rw [append_assoc] at hsplit
    obtain ⟨m, hnm, hm⟩ := ih (i :: back) hsplit (hl.waiting front j (i :: back) hsplit)
    obtain ⟨k, hmk, hgone⟩ := hgoes (Chain.phase_of_enter_mem (hrun m) hm)
    have hnk : n ≤ k := Nat.le_trans (Nat.le_succ_of_le hnm) hmk
    exact enters_of_gone hrun henters hi hnk (decide_eq_true hgone)

end Liveness

end ChainLock
