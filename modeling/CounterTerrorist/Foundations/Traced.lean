import Mathlib.Data.List.Infix
import Mathlib.Data.List.Iterate

/-!
# Programs that leave a trace

A program ends with a value or throws, and what it did on the way is kept either way. So a bound on
its work can be stated for the runs that fail as well.

A loop that runs a known number of times carries its variables from one round to the next (`loop`).

## Rules

`Follows` compares the trace with a plan. The plan may have bad entries, after which the program
throws: it does what is planned up to the first of them (`upTo`), or all if there is none. That a
program follows its plan is put together from its parts, by the rules `Follows.bind`, `Follows.tell`
and `follows_loop`.
-/

/-- A program: what it did, in order, and how it ended. -/
structure Traced (L α : Type) where
  log : List L
  result : Except String α

namespace Traced

open List

variable {L α β σ : Type}

/-- The program that does one thing. -/
def tell (entry : L) : Traced L Unit := ⟨[entry], .ok ()⟩

/-- The program that only fails. -/
def throw (message : String) : Traced L α := ⟨[], .error message⟩

/-- A computation that does nothing that is kept. -/
def lift (result : Except String α) : Traced L α := ⟨[], result⟩

/-- One program after another. -/
def bind (p : Traced L α) (f : α → Traced L β) : Traced L β :=
  match p.result with
  | .ok a => ⟨p.log ++ (f a).log, (f a).result⟩
  | .error message => ⟨p.log, .error message⟩

/-- `try` and `catch`. -/
def rescue (p : Traced L α) (handler : String → Traced L α) : Traced L α :=
  match p.result with
  | .ok _ => p
  | .error message => ⟨p.log ++ (handler message).log, (handler message).result⟩

instance : Monad (Traced L) where
  pure a := ⟨[], .ok a⟩
  bind := bind

/-- The same step, a number of times. -/
def loop (step : σ → Traced L σ) : ℕ → σ → Traced L σ
  | 0, s => pure s
  | n + 1, s => step s >>= loop step n

/-! ### What a sequence of programs does -/

section

variable {p : Traced L α} {f : α → Traced L β}

theorem result_bind : (p >>= f).result = p.result.bind fun a ↦ (f a).result := by
  show (bind p f).result = _
  rw [bind]
  cases p.result <;> rfl

theorem log_bind_of_ok {a : α} (h : p.result = .ok a) : (p >>= f).log = p.log ++ (f a).log := by
  show (bind p f).log = _
  rw [bind, h]

theorem log_bind_of_error {message : String} (h : p.result = .error message) :
    (p >>= f).log = p.log := by
  show (bind p f).log = _
  rw [bind, h]

theorem bind_of_ok {a : α} (h : p.result = .ok a) :
    p >>= f = ⟨p.log ++ (f a).log, (f a).result⟩ := by
  show bind p f = _
  rw [bind, h]

/-- What is done is not taken back. -/
theorem log_isPrefix_bind : p.log <+: (p >>= f).log := by
  cases hres : p.result with
  | ok a =>
    rw [log_bind_of_ok hres]
    exact prefix_append _ _
  | error message => rw [log_bind_of_error hres]

theorem forall_log_bind {Q : L → Prop} (hp : ∀ e ∈ p.log, Q e) (hf : ∀ a, ∀ e ∈ (f a).log, Q e) :
    ∀ e ∈ (p >>= f).log, Q e := by
  cases hres : p.result with
  | ok a =>
    rw [log_bind_of_ok hres]
    exact forall_mem_append.2 ⟨hp, hf a⟩
  | error message =>
    rw [log_bind_of_error hres]
    exact hp

/-- A sequence ends well if both parts do. -/
theorem result_bind_eq_ok {b : β} :
    (p >>= f).result = .ok b ↔ ∃ a, p.result = .ok a ∧ (f a).result = .ok b := by
  rw [result_bind]
  cases p.result with
  | ok a =>
    constructor
    · exact fun h ↦ ⟨a, rfl, h⟩
    · rintro ⟨_, ha, h⟩
      cases ha
      exact h
  | error message =>
    constructor
    · intro h
      cases h
    · rintro ⟨_, ha, -⟩
      cases ha

end

@[simp] theorem log_pure (a : α) : (pure a : Traced L α).log = [] := rfl

@[simp] theorem result_pure (a : α) : (pure a : Traced L α).result = .ok a := rfl

@[simp] theorem result_lift (r : Except String α) : (lift r : Traced L α).result = r := rfl

/-- A handler that only gives a value. -/
@[simp] theorem log_rescue_pure (p : Traced L α) (handler : String → α) :
    (rescue p fun message ↦ pure (handler message)).log = p.log := by
  rw [rescue]
  cases p.result with
  | ok a => rfl
  | error message => exact append_nil _

@[simp] theorem tell_bind (entry : L) (f : Unit → Traced L β) :
    tell entry >>= f = ⟨entry :: (f ()).log, (f ()).result⟩ := rfl

@[simp] theorem lift_ok_bind (a : α) (f : α → Traced L β) :
    (lift (.ok a) : Traced L α) >>= f = f a := rfl

/-! ### Plans -/

/-- What is planned, up to the first bad entry. -/
def upTo (good : L → Bool) : List L → List L
  | [] => []
  | e :: plan => if good e then e :: upTo good plan else [e]

section

variable {good : L → Bool} {plan : List L}

/-- A plan without bad entries comes first. -/
theorem upTo_append_of_good (h : ∀ e ∈ plan, good e = true) (rest : List L) :
    upTo good (plan ++ rest) = plan ++ upTo good rest := by
  induction plan with
  | nil => rfl
  | cons e plan ih =>
    obtain ⟨he, hplan⟩ := forall_mem_cons.1 h
    rw [cons_append, upTo, if_pos he, ih hplan, cons_append]

theorem upTo_of_good (h : ∀ e ∈ plan, good e = true) : upTo good plan = plan := by
  have happ := upTo_append_of_good h []
  rwa [upTo, append_nil] at happ

/-- After a bad entry nothing counts. -/
theorem upTo_append_of_bad (h : ∃ e ∈ plan, good e = false) (rest : List L) :
    upTo good (plan ++ rest) = upTo good plan := by
  induction plan with
  | nil => exact absurd h.choose_spec.1 not_mem_nil
  | cons e plan ih =>
    rw [cons_append, upTo, upTo]
    split
    case isTrue he =>
      obtain ⟨b, hb, hbad⟩ := h
      rcases mem_cons.1 hb with rfl | hb
      · exact absurd (he.symm.trans hbad) (by decide)
      · rw [ih ⟨b, hb, hbad⟩]
    case isFalse => rfl

/-- All good, or one of them is bad. -/
theorem good_or_bad (good : L → Bool) (plan : List L) :
    (∀ e ∈ plan, good e = true) ∨ ∃ e ∈ plan, good e = false := by
  rw [or_iff_not_imp_right]
  intro h e he
  rw [← Bool.not_eq_false]
  exact fun hbad ↦ h ⟨e, he, hbad⟩

theorem upTo_isPrefix_append (rest : List L) : upTo good plan <+: upTo good (plan ++ rest) := by
  rcases good_or_bad good plan with h | h
  · rw [upTo_append_of_good h, upTo_of_good h]
    exact prefix_append _ _
  · rw [upTo_append_of_bad h]

theorem upTo_isPrefix (good : L → Bool) (plan : List L) : upTo good plan <+: plan := by
  induction plan with
  | nil => exact List.prefix_rfl
  | cons e plan ih =>
    rw [upTo]
    split
    · exact (prefix_cons_inj e).2 ih
    · exact ⟨plan, rfl⟩

/-- Only the last entry can be bad. -/
theorem good_of_mem_dropLast {log : List L} (hlog : log <+: upTo good plan) {e : L}
    (he : e ∈ log.dropLast) : good e = true := by
  induction plan generalizing log with
  | nil =>
    rw [prefix_nil.1 hlog] at he
    exact absurd he not_mem_nil
  | cons a plan ih =>
    cases log with
    | nil => exact absurd he not_mem_nil
    | cons b log =>
      rw [upTo] at hlog
      split at hlog
      case isTrue ha =>
        obtain ⟨rfl, htail⟩ := cons_prefix_cons.1 hlog
        cases log with
        | nil => exact absurd he not_mem_nil
        | cons c log =>
          rcases mem_cons.1 he with rfl | he
          · exact ha
          · exact ih htail he
      case isFalse =>
        obtain ⟨-, hlog⟩ := cons_prefix_cons.1 hlog
        rw [prefix_nil.1 hlog] at he
        exact absurd he not_mem_nil

end

/-- The program does what is planned, and its value is as expected, or it throws and has done a
beginning of the plan, up to the first bad entry at most. If the error is not a foreign one then
there is a bad entry, and the program came to it. -/
structure Follows (good : L → Bool) (foreign : String → Prop) (p : Traced L α) (plan : List L)
    (Q : α → Prop) : Prop where
  ok : ∀ a, p.result = .ok a → p.log = plan ∧ (∀ e ∈ plan, good e = true) ∧ Q a
  error : ∀ m, p.result = .error m → p.log <+: upTo good plan
  bad : ∀ m, p.result = .error m → ¬foreign m →
    p.log = upTo good plan ∧ ∃ e ∈ plan, good e = false

section

variable {good : L → Bool} {foreign : String → Prop} {p : Traced L α} {plan : List L}
  {Q : α → Prop}

/-- However it ends, the program has done a beginning of the plan. -/
theorem Follows.log (h : Follows good foreign p plan Q) : p.log <+: upTo good plan := by
  cases hres : p.result with
  | ok a =>
    obtain ⟨hlog, hgood, -⟩ := h.ok a hres
    rw [hlog, upTo_of_good hgood]
  | error m => exact h.error m hres

/-- Without a foreign error, it has come as far as it can. -/
theorem Follows.log_eq (h : Follows good foreign p plan Q)
    (hown : ∀ m, p.result = .error m → ¬foreign m) : p.log = upTo good plan := by
  cases hres : p.result with
  | ok a =>
    obtain ⟨hlog, hgood, -⟩ := h.ok a hres
    rw [hlog, upTo_of_good hgood]
  | error m => exact (h.bad m hres (hown m hres)).1

theorem Follows.bind {f : α → Traced L β} {plan' : List L} {Q' : β → Prop}
    (hp : Follows good foreign p plan Q) (hf : ∀ a, Q a → Follows good foreign (f a) plan' Q') :
    Follows good foreign (p >>= f) (plan ++ plan') Q' := by
  cases hres : p.result with
  | error message =>
    have herror : (p >>= f).result = .error message := by
      rw [result_bind, hres]
      rfl
    have hlog : (p >>= f).log = p.log := log_bind_of_error hres
    refine ⟨fun b hb ↦ ?_, fun m _ ↦ ?_, fun m hm hown ↦ ?_⟩
    · rw [herror] at hb
      cases hb
    · rw [hlog]
      exact (hp.error _ hres).trans (upTo_isPrefix_append plan')
    · rw [herror] at hm
      cases hm
      obtain ⟨heq, e, he, hbad⟩ := hp.bad _ hres hown
      rw [hlog, upTo_append_of_bad ⟨e, he, hbad⟩]
      exact ⟨heq, e, mem_append_left _ he, hbad⟩
  | ok a =>
    obtain ⟨hlog, hgood, hQ⟩ := hp.ok a hres
    have hrest := hf a hQ
    rw [bind_of_ok hres, hlog]
    refine ⟨fun b hb ↦ ?_, fun m hm ↦ ?_, fun m hm hown ↦ ?_⟩
    · obtain ⟨hlog', hgood', hQ'⟩ := hrest.ok b hb
      exact ⟨congrArg (plan ++ ·) hlog', forall_mem_append.2 ⟨hgood, hgood'⟩, hQ'⟩
    · rw [upTo_append_of_good hgood]
      exact (prefix_append_right_inj plan).2 (hrest.error m hm)
    · obtain ⟨heq, e, he, hbad⟩ := hrest.bad m hm hown
      rw [upTo_append_of_good hgood]
      exact ⟨congrArg (plan ++ ·) heq, e, mem_append_right _ he, hbad⟩

theorem follows_pure {a : α} (h : Q a) : Follows good foreign (pure a : Traced L α) [] Q where
  ok b hb := by
    cases hb
    exact ⟨rfl, forall_mem_nil _, h⟩
  error := nofun
  bad := nofun

theorem follows_lift {result : Except String α} (h : ∀ a, result = .ok a → Q a)
    (hforeign : ∀ m, result = .error m → foreign m) :
    Follows good foreign (lift result : Traced L α) [] Q where
  ok a ha := ⟨rfl, forall_mem_nil _, h a ha⟩
  error _ _ := List.prefix_rfl
  bad m hm hown := absurd (hforeign m hm) hown

variable {entry : L} {f : Unit → Traced L α}

theorem Follows.tell (hgood : good entry = true) (h : Follows good foreign (f ()) plan Q) :
    Follows good foreign (tell entry >>= f) (entry :: plan) Q := by
  have hentry : Follows good foreign (Traced.tell entry) [entry] fun _ ↦ True :=
    ⟨fun _ _ ↦ ⟨rfl, forall_mem_singleton.2 hgood, trivial⟩, nofun, nofun⟩
  exact hentry.bind fun _ _ ↦ h

/-- After a bad entry the program throws. -/
theorem follows_of_bad {message : String} (hbad : good entry = false) (hlog : p.log = [entry])
    (hres : p.result = .error message) (plan : List L) (Q : α → Prop) :
    Follows good foreign p (entry :: plan) Q := by
  have hupTo : upTo good (entry :: plan) = [entry] := if_neg (by simp [hbad])
  refine ⟨fun a ha ↦ ?_, fun _ _ ↦ ?_, fun _ _ _ ↦ ?_⟩
  · rw [hres] at ha
    cases ha
  · rw [hupTo, hlog]
  · exact ⟨hlog.trans hupTo.symm, entry, mem_cons_self, hbad⟩

/-- **A loop does what is planned for the places it comes to.** Each round starts at a place and
ends at the next one. -/
theorem follows_loop {P : Type} {step : σ → Traced L σ} (place : σ → P) {next : P → P}
    {plan : P → List L} (hstep : ∀ s, Follows good foreign (step s) (plan (place s))
      fun t ↦ place t = next (place s)) :
    ∀ (n : ℕ) (s : σ), Follows good foreign (loop step n s)
      ((List.iterate next (place s) n).flatMap plan) fun t ↦ place t = next^[n] (place s)
  | 0, s => follows_pure rfl
  | n + 1, s => by
    refine (hstep s).bind fun t ht ↦ ?_
    have h := follows_loop place hstep n t
    rwa [ht] at h

end

end Traced
