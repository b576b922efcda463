import Mathlib.Data.List.Basic
import Mathlib.Tactic.Common

/-!
# Runs of a labelled machine

A machine is a partial step function on states and labels: `step s a = none` says that `a` cannot be
taken in `s`. A label carries every choice that is not the machine's own (which task moves next,
what the outside world answers), so a finite run is a list of labels.

## Guards

Most results are about runs whose steps all meet some condition on the state before the step and the
label. `Guarded ok s as` says that of the run from `s` along `as`.

## Two rules

* `run_invariant`: what holds at the start and is kept by every guarded step holds at the end.
  `run_iff_guarded` is the rule for what a step keeps exactly if it meets a condition, and
  `always_iff_guarded` the one for what may come back after it was lost.
* `run_simulates`: if every step is matched by some run of a second machine, every run is.
  `run_trace` is the case in which the second run is put out by the first (`trace`).

An object that answers calls is a machine that never refuses. `replay` is its run, with the answers,
and `replay_simulates` compares two of them. `trace_eq_replay` compares the outputs of a machine
with the answers of an object.

## Executions

What should happen eventually is stated over infinite runs (`Execution`). `Execution.leadsTo` uses
that a helpful step is taken sooner or later, `Execution.leadsTo_of_measure` iterates, and
`Execution.leadsTo_of_rank` is the two together, for steps that lower a rank.
`Execution.ofPolicy` makes an execution from a policy that names, for every time and state, a label
that can be taken.
-/

namespace Machine

open List Option

variable {S A : Type*} (step : S → A → Option S)

/-- The state after a list of labels, if every one of them could be taken. -/
def run : S → List A → Option S
  | s, [] => some s
  | s, a :: as => (step s a).bind fun t ↦ run t as

/-- Every step along `as` meets the condition `ok`. -/
def Guarded (ok : S → A → Prop) : S → List A → Prop
  | _, [] => True
  | s, a :: as => ok s a ∧ ∀ t, step s a = some t → Guarded ok t as

variable {step}

variable {s t : S} {as bs : List A} {ok cond : S → A → Prop} {P : S → Prop} {T B : Type*}
  {step' : T → B → Option T} {R : S → T → Prop} {out : S → A → List B} {call : S → A → B × S}

variable {a : A} {Inv : S → Prop} {C : Type*}

theorem run_cons :
    run step s (a :: as) = some t ↔ ∃ u, step s a = some u ∧ run step u as = some t := by
  rw [run, bind_eq_some_iff]

theorem run_append : run step s (as ++ bs) = (run step s as).bind fun t ↦ run step t bs := by
  induction as generalizing s with
  | nil => rfl
  | cons a as ih =>
    simp only [cons_append, run, ih]
    cases step s a <;> rfl

/-- One run after another. -/
theorem run_trans {u : S} (h : run step s as = some t) (h' : run step t bs = some u) :
    run step s (as ++ bs) = some u := by
  rw [run_append, h, bind_some, h']

/-- A step in the middle of a run. -/
theorem run_append_cons : run step s (as ++ a :: bs) = some t ↔
      ∃ u v, run step s as = some u ∧ step u a = some v ∧ run step v bs = some t := by
  simp only [run_append, bind_eq_some_iff, run_cons, exists_and_left]

theorem guarded_append : Guarded step ok s (as ++ bs) ↔
      Guarded step ok s as ∧ ∀ t, run step s as = some t → Guarded step ok t bs := by
  induction as generalizing s with
  | nil => simp [Guarded, run]
  | cons a as ih =>
    simp only [cons_append, Guarded, ih, run_cons, and_assoc]
    refine and_congr_right fun _ ↦ ⟨fun h ↦ ⟨fun t ht ↦ (h t ht).1, ?_⟩, fun h t ht ↦ ?_⟩
    · rintro t ⟨u, hu, hrun⟩
      exact (h u hu).2 t hrun
    · exact ⟨h.1 t ht, fun u hu ↦ h.2 u ⟨t, ht, hu⟩⟩

/-- A decidable condition can be checked along a run by running it. -/
instance decidableGuarded {ok : S → A → Prop} [∀ s a, Decidable (ok s a)] :
    ∀ (s : S) (as : List A), Decidable (Guarded step ok s as)
  | _, [] => .isTrue trivial
  | s, a :: as =>
    have : Decidable (∀ t, step s a = some t → Guarded step ok t as) :=
      match step s a with
      | none => .isTrue nofun
      | some u =>
        have : Decidable (Guarded step ok u as) := decidableGuarded u as
        decidable_of_iff (Guarded step ok u as)
          ⟨fun h _ ht ↦ Option.some.inj ht ▸ h, fun h ↦ h u rfl⟩
    inferInstanceAs (Decidable (_ ∧ _))

/-- A condition on the labels alone guards the run from every state. -/
theorem guarded_of_forall {ok : A → Prop} (has : ∀ a ∈ as, ok a) :
    Guarded step (fun _ a ↦ ok a) s as := by
  induction as generalizing s with
  | nil => trivial
  | cons a as ih =>
    obtain ⟨ha, has⟩ := forall_mem_cons.1 has
    exact ⟨ha, fun t _ ↦ ih has⟩

/-- Two conditions along a run are one. -/
theorem Guarded.and {ok' : S → A → Prop} :
    ∀ {as : List A} {s : S}, Guarded step ok s as → Guarded step ok' s as →
      Guarded step (fun s a ↦ ok s a ∧ ok' s a) s as
  | [], _, _, _ => trivial
  | _ :: _, _, h, h' => ⟨⟨h.1, h'.1⟩, fun t ht ↦ (h.2 t ht).and (h'.2 t ht)⟩

/-- Invariant rule for guarded runs. -/
theorem run_invariant (hstep : ∀ {s a t}, P s → ok s a → step s a = some t → P t) :
    ∀ {as : List A} {s t : S}, P s → Guarded step ok s as → run step s as = some t → P t
  | [], s, t, hs, _, hr => by
    obtain rfl := some.inj hr
    exact hs
  | a :: as, s, t, hs, hg, hr => by
    obtain ⟨u, hu, hr⟩ := run_cons.1 hr
    exact run_invariant hstep (hstep hs hg.1 hu) (hg.2 u hu) hr

/-- Invariant rule for all runs. -/
theorem run_invariant' (hstep : ∀ {s a t}, P s → step s a = some t → P t) (hs : P s)
    (hr : run step s as = some t) : P t := by
  have hall : ∀ a ∈ as, (fun _ : A ↦ True) a := fun _ _ ↦ trivial
  exact run_invariant (fun h _ hu ↦ hstep h hu) hs (guarded_of_forall hall) hr

/-- What holds after a step if and only if it held before and the step met a condition holds at the
end of a run if and only if it held at the start and every step met the condition. -/
theorem run_iff_guarded (hinv : ∀ {s a t}, Inv s → ok s a → step s a = some t → Inv t)
    (hstep : ∀ {s a t}, Inv s → ok s a → step s a = some t → (P t ↔ P s ∧ cond s a)) :
    ∀ {as : List A} {s t : S}, Inv s → Guarded step ok s as → run step s as = some t →
      (P t ↔ P s ∧ Guarded step cond s as)
  | [], s, t, _, _, hr => by
    obtain rfl := some.inj hr
    exact (and_iff_left trivial).symm
  | a :: as, s, t, hs, hg, hr => by
    obtain ⟨u, hu, hr⟩ := run_cons.1 hr
    rw [run_iff_guarded hinv hstep (hinv hs hg.1 hu) (hg.2 u hu) hr, hstep hs hg.1 hu, and_assoc]
    refine and_congr_right fun _ ↦ and_congr_right fun _ ↦ ?_
    exact ⟨fun h v hv ↦ some.inj (hu.symm.trans hv) ▸ h, fun h ↦ h u hu⟩

/-- If from a good state a step leads to a good state exactly when it meets a condition, all states
of a run are good exactly if every step met the condition. -/
theorem always_iff_guarded (hinv : ∀ {s a t}, Inv s → step s a = some t → Inv t)
    (hstep : ∀ {s a t}, Inv s → P s → step s a = some t → (P t ↔ cond s a)) :
    ∀ {as : List A} {s t : S}, Inv s → P s → run step s as = some t →
      ((∀ bs u, bs <+: as → run step s bs = some u → P u) ↔ Guarded step cond s as)
  | [], s, t, _, hP, _ => by
    refine iff_of_true (fun bs u hbs hu ↦ ?_) trivial
    obtain rfl := prefix_nil.1 hbs
    obtain rfl := some.inj hu
    exact hP
  | a :: as, s, t, hs, hP, hr => by
    obtain ⟨v, hv, hr⟩ := run_cons.1 hr
    have hrest := fun hPv ↦ always_iff_guarded hinv hstep (hinv hs hv) hPv hr
    have hfirst := hstep hs hP hv
    constructor
    · intro h
      have hPv : P v := h [a] v (prefix_append [a] as) (run_cons.2 ⟨v, hv, rfl⟩)
      refine ⟨hfirst.1 hPv, fun w hw ↦ ?_⟩
      obtain rfl := some.inj (hv.symm.trans hw)
      exact (hrest hPv).1 fun bs u hbs hu ↦
        h (a :: bs) u (cons_prefix_cons.2 ⟨rfl, hbs⟩) (run_cons.2 ⟨v, hv, hu⟩)
    · rintro ⟨hcond, hguarded⟩ bs u hbs hu
      cases bs with
      | nil =>
        obtain rfl := some.inj hu
        exact hP
      | cons b bs =>
        obtain ⟨rfl, htail⟩ := cons_prefix_cons.1 hbs
        obtain ⟨w, hw, hu⟩ := run_cons.1 hu
        obtain rfl := some.inj (hv.symm.trans hw)
        exact (hrest (hfirst.2 hcond)).2 (hguarded v hv) bs u htail hu

/-- Forward simulation: when every step is matched by a run of a second machine that restores the
relation, every run is. -/
theorem run_simulates (hstep : ∀ {s t a s'}, R s t → step s a = some s' →
      ∃ bs t', run step' t bs = some t' ∧ R s' t') :
    ∀ {as : List A} {s s' : S} {t : T}, R s t → run step s as = some s' →
      ∃ bs t', run step' t bs = some t' ∧ R s' t'
  | [], s, s', t, hR, hr => by
    obtain rfl := some.inj hr
    exact ⟨[], t, rfl, hR⟩
  | a :: as, s, s', t, hR, hr => by
    obtain ⟨u, hu, hr⟩ := run_cons.1 hr
    obtain ⟨bs, t₁, hbs, hR₁⟩ := hstep hR hu
    obtain ⟨cs, t₂, hcs, hR₂⟩ := run_simulates hstep hR₁ hr
    exact ⟨bs ++ cs, t₂, run_trans hbs hcs, hR₂⟩

/-! ### Outputs -/

/-- What a run puts out, step by step. -/
def trace (step : S → A → Option S) {B : Type*} (out : S → A → List B) : S → List A → List B
  | _, [] => []
  | s, a :: as => out s a ++ ((step s a).map fun t ↦ trace step out t as).getD []

theorem trace_cons (h : step s a = some t) :
    trace step out s (a :: as) = out s a ++ trace step out t as := by
  rw [trace, h]
  rfl

theorem trace_filterMap (g : B → Option C) : (trace step out s as).filterMap g =
      trace step (fun s a ↦ (out s a).filterMap g) s as := by
  induction as generalizing s with
  | nil => rfl
  | cons a as ih =>
    rw [trace, trace, filterMap_append]
    rcases step s a with - | t
    · rfl
    · exact congrArg _ ih

/-- If the outputs of every step take a second machine along, those of a run do. -/
theorem run_trace {f : S → T} (hkeep : ∀ {s a t}, P s → step s a = some t → P t)
    (hstep : ∀ {s a t}, P s → step s a = some t → run step' (f s) (out s a) = some (f t)) :
    ∀ {as : List A} {s t : S}, P s → run step s as = some t →
      run step' (f s) (trace step out s as) = some (f t)
  | [], s, t, _, hr => by
    obtain rfl := some.inj hr
    rfl
  | a :: as, s, t, hs, hr => by
    obtain ⟨u, hu, hr⟩ := run_cons.1 hr
    rw [trace_cons hu, run_append, hstep hs hu, bind_some]
    exact run_trace hkeep hstep (hkeep hs hu) hr

/-! ### Answers -/

/-- The answers of an object to a list of calls, and the object afterwards. -/
def replay {B : Type*} (call : S → A → B × S) : S → List A → List B × S
  | s, [] => ([], s)
  | s, a :: as =>
    let answered := call s a
    let rest := replay call answered.2 as
    (answered.1 :: rest.1, rest.2)

/-- Two objects that answer every call alike and stay related answer every list of calls alike. -/
theorem replay_simulates {call' : T → A → B × T}
    (hcall : ∀ {s t} (a), R s t → (call s a).1 = (call' t a).1 ∧ R (call s a).2 (call' t a).2) :
    ∀ (as : List A) {s : S} {t : T}, R s t → (replay call s as).1 = (replay call' t as).1 ∧
        R (replay call s as).2 (replay call' t as).2
  | [], _, _, hR => ⟨rfl, hR⟩
  | a :: as, s, t, hR => by
    obtain ⟨hans, hR'⟩ := hcall a hR
    obtain ⟨hanswers, hend⟩ := replay_simulates hcall as hR'
    refine ⟨?_, hend⟩
    show (call s a).1 :: _ = (call' t a).1 :: _
    rw [hans, hanswers]

theorem replay_append (call : S → A → B × S) (s : S) (as bs : List A) : replay call s (as ++ bs) =
      ((replay call s as).1 ++ (replay call (replay call s as).2 bs).1,
        (replay call (replay call s as).2 bs).2) := by
  induction as generalizing s with
  | nil => rfl
  | cons a as ih =>
    rw [cons_append, replay, ih]
    rfl

/-- What every call keeps holds after every list of calls. -/
theorem replay_invariant (hcall : ∀ {s} (a), P s → P (call s a).2) :
    ∀ (as : List A) {s : S}, P s → P (replay call s as).2
  | [], _, hs => hs
  | a :: as, _, hs => replay_invariant hcall as (hcall a hs)

/-- A machine of whose steps some are calls, and give the answers of an object to them, puts out
what the object answers to all its calls. -/
theorem trace_eq_replay {T B C : Type*} {call : T → C → B × T} {out : S → A → List B}
    {calls : A → List C} {R : S → T → Prop} {ok : S → A → Prop}
    (hstep : ∀ {s t a s'}, R s t → ok s a → step s a = some s' →
      out s a = (replay call t (calls a)).1 ∧ R s' (replay call t (calls a)).2) :
    ∀ {as : List A} {s s' : S} {t : T}, R s t → Guarded step ok s as → run step s as = some s' →
      trace step out s as = (replay call t (as.flatMap calls)).1
  | [], _, _, _, _, _, _ => rfl
  | a :: as, s, s', t, hR, hg, hr => by
    obtain ⟨u, hu, hr⟩ := run_cons.1 hr
    obtain ⟨hout, hR'⟩ := hstep hR hg.1 hu
    rw [trace_cons hu, flatMap_cons, replay_append, hout, trace_eq_replay hstep hR' (hg.2 u hu) hr]

/-! ### Infinite runs -/

/-- An infinite run from `s`. -/
structure Execution (step : S → A → Option S) (s : S) where
  state : ℕ → S
  label : ℕ → A
  start : state 0 = s
  next : ∀ n, step (state n) (label n) = some (state (n + 1))

namespace Execution

variable {s : S}

variable {P Q : S → Prop} {n : ℕ}

/-- Invariant rule for executions; the step may use what is known about its time. -/
theorem invariant (x : Execution step s) (hs : P s)
    (hstep : ∀ n, P (x.state n) → P (x.state (n + 1))) (n : ℕ) : P (x.state n) := by
  induction n with
  | zero =>
    rw [x.start]
    exact hs
  | succ n ih => exact hstep n ih

/-- What every step keeps holds from then on. -/
theorem forever (x : Execution step s) (hstep : ∀ n, P (x.state n) → P (x.state (n + 1))) {m : ℕ}
    (hmn : m ≤ n) (hm : P (x.state m)) : P (x.state n) := by
  induction hmn with
  | refl => exact hm
  | step _ ih => exact hstep _ ih

variable {H : A → Prop}

/-- A step that helps is taken sooner or later, and until then nothing else can leave `P` for
anywhere but `Q`. So `Q` is reached. -/
theorem leadsTo (x : Execution step s)
    (hstep : ∀ n, P (x.state n) → P (x.state (n + 1)) ∨ Q (x.state (n + 1)))
    (hhelps : ∀ n, P (x.state n) → H (x.label n) → Q (x.state (n + 1))) (hn : P (x.state n))
    (hfair : ∃ m, n ≤ m ∧ H (x.label m)) : ∃ m, n < m ∧ Q (x.state m) := by
  obtain ⟨m, hm, hlabel⟩ := hfair
  obtain ⟨d, rfl⟩ := Nat.exists_eq_add_of_le hm
  -- on the number of steps until the one that helps
  induction d generalizing n with
  | zero => exact ⟨n + 1, Nat.lt_succ_self n, hhelps n hn hlabel⟩
  | succ d ih =>
    rcases hstep n hn with hnext | hnext
    · obtain ⟨m, hlt, hm⟩ := ih hnext (Nat.le_add_right ..) (by
        rwa [Nat.add_right_comm])
      exact ⟨m, Nat.lt_of_succ_lt hlt, hm⟩
    · exact ⟨n + 1, Nat.lt_succ_self n, hnext⟩

/-- What can always be brought closer to `Q` leads to `Q`. -/
theorem leadsTo_of_measure (x : Execution step s) {P Q : S → Prop} (measure : S → ℕ)
    (hcloser : ∀ n, P (x.state n) → ∃ m, n < m ∧
      (Q (x.state m) ∨ P (x.state m) ∧ measure (x.state m) < measure (x.state n))) {n : ℕ}
    (hn : P (x.state n)) : ∃ m, n < m ∧ Q (x.state m) := by
  induction hk : measure (x.state n) using Nat.strongRecOn generalizing n with
  | _ k ih =>
    obtain ⟨m, hlt, hm | ⟨hm, hless⟩⟩ := hcloser n hn
    · exact ⟨m, hlt, hm⟩
    · obtain ⟨m', hlt', hm'⟩ := ih _ (hk ▸ hless) hm rfl
      exact ⟨m', Nat.lt_trans hlt hlt', hm'⟩

/-- A step that helps lowers the rank, no step raises it, and sooner or later a step helps. So `Q`
is reached. -/
theorem leadsTo_of_rank (x : Execution step s) {P Q : S → Prop} {H : A → Prop} (rank : S → ℕ)
    (hstep : ∀ n, P (x.state n) → Q (x.state (n + 1)) ∨ P (x.state (n + 1)) ∧
      (rank (x.state (n + 1)) = rank (x.state n) ∧ ¬H (x.label n) ∨
        rank (x.state (n + 1)) < rank (x.state n)))
    (hfair : ∀ n, P (x.state n) → ∃ m, n ≤ m ∧ H (x.label m)) {n : ℕ} (hn : P (x.state n)) :
    ∃ m, n < m ∧ Q (x.state m) := by
  refine x.leadsTo_of_measure rank (fun n hn ↦ ?_) hn
  -- until a step helps, the rank stays what it is
  refine x.leadsTo (H := H) (P := fun t ↦ P t ∧ rank t = rank (x.state n))
    (Q := fun t ↦ Q t ∨ P t ∧ rank t < rank (x.state n)) ?_ ?_ ⟨hn, rfl⟩ (hfair n hn)
  · rintro k ⟨hk, hsame⟩
    obtain hdone | ⟨hstill, ⟨heq, -⟩ | hless⟩ := hstep k hk
    · exact .inr (.inl hdone)
    · exact .inl ⟨hstill, heq.trans hsame⟩
    · exact .inr (.inr ⟨hstill, hsame ▸ hless⟩)
  · rintro k ⟨hk, hsame⟩ hhelps
    obtain hdone | ⟨hstill, ⟨-, hnot⟩ | hless⟩ := hstep k hk
    · exact .inl hdone
    · exact absurd hhelps hnot
    · exact .inr ⟨hstill, hsame ▸ hless⟩

/-- The states a policy leads through. -/
def states (step : S → A → Option S) (policy : ℕ → S → A) (s : S) : ℕ → S
  | 0 => s
  | n + 1 =>
    let t := states step policy s n
    (step t (policy n t)).getD t

/-- The execution of a policy whose labels can always be taken. -/
def ofPolicy (policy : ℕ → S → A) (henabled : ∀ n t, (step t (policy n t)).isSome = true) (s : S) :
    Execution step s where
  state := states step policy s
  label n := policy n (states step policy s n)
  start := rfl
  next n := by
    rw [states]
    obtain ⟨t, ht⟩ := Option.isSome_iff_exists.1 (henabled n (states step policy s n))
    simp only [ht, Option.getD_some]

end Execution

end Machine
