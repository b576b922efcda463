import CounterTerrorist.Foundations.Run
import Mathlib.Logic.Function.Basic

/-!
# Matching answers to requests

Requests wait under a key until a message with that key comes in. A request can also be given up.
The table keeps who waits under which key, and remembers which message answered which request.

Nothing is said about where keys come from: two requests may use the same one, and then the later
one takes the place of the earlier one.

## What a table guarantees

`Matched` holds in every state of every run (`run_matched`): a request is answered only by a message
that carries its own key, and no message answers two requests.
-/

namespace Correlation

open Option Function

variable {I K M : Type*}

/-- Requests, their keys, and what has come in. -/
structure Table (I K M : Type*) where
  /-- The key of a request, once it has one. -/
  keyOf : I → Option K
  /-- Who waits under a key. -/
  pending : K → Option I
  /-- The number of the message that answered a request. -/
  answer : I → Option ℕ
  /-- All messages, oldest first. -/
  received : List M

/-- What can happen to a table. -/
inductive Action (I K M : Type*)
  | register (i : I) (k : K)
  | receive (m : M)
  | forget (k : K)

namespace Table

/-- Nobody waits and nothing has come in. -/
def empty : Table I K M := ⟨fun _ ↦ none, fun _ ↦ none, fun _ ↦ none, []⟩

variable [DecidableEq I] [DecidableEq K] (key : M → Option K)

/-- `i` begins to wait under `k`, in the place of whoever did. -/
def register (t : Table I K M) (i : I) (k : K) : Table I K M :=
  { t with keyOf := Function.update t.keyOf i (some k)
           pending := Function.update t.pending k (some i) }

/-- Nobody waits under `k` any more. -/
def forget (t : Table I K M) (k : K) : Table I K M :=
  { t with pending := Function.update t.pending k none }

/-- A message comes in. If someone waits under its key, it is the answer. -/
def receive (t : Table I K M) (m : M) : Table I K M :=
  match key m with
  | none => { t with received := t.received ++ [m] }
  | some k =>
    match t.pending k with
    | none => { t with received := t.received ++ [m] }
    | some i =>
      { t.forget k with
        answer := Function.update t.answer i (some t.received.length)
        received := t.received ++ [m] }

/-- One step. A request registers once. -/
def step (t : Table I K M) : Action I K M → Option (Table I K M)
  | .register i k => if t.keyOf i = none then some (t.register i k) else none
  | .receive m => some (t.receive key m)
  | .forget k => some (t.forget k)

section

variable (t : Table I K M) (i j : I) (k k' : K)

/-- A registered request has its key. -/
@[simp] theorem keyOf_register :
    (t.register i k).keyOf j = if j = i then some k else t.keyOf j := update_apply ..

/-- Who registers waits under the key. -/
@[simp] theorem pending_register :
    (t.register i k).pending k' = if k' = k then some i else t.pending k' :=
  update_apply ..

omit [DecidableEq I] in
@[simp] theorem pending_forget :
    (t.forget k).pending k' = if k' = k then none else t.pending k' := update_apply ..

end

/-! ### Answers are matched -/

/-- Every answer carries the key of its request, and answers one request only. -/
structure Matched (t : Table I K M) : Prop where
  /-- Whoever waits under a key has that key and no answer yet. -/
  waits : ∀ k i, t.pending k = some i → t.keyOf i = some k ∧ t.answer i = none
  own : ∀ i n, t.answer i = some n →
    ∃ m k, t.received[n]? = some m ∧ key m = some k ∧ t.keyOf i = some k
  once : ∀ i j n, t.answer i = some n → t.answer j = some n → i = j

variable {key} {t : Table I K M}

omit [DecidableEq I] [DecidableEq K] in
theorem matched_empty : Matched key (empty : Table I K M) where
  waits := nofun
  own := nofun
  once := nofun

omit [DecidableEq I] [DecidableEq K] in
theorem Matched.lt_length (h : Matched key t) {i : I} {n : ℕ} (hi : t.answer i = some n) :
    n < t.received.length := by
  obtain ⟨m, -, hm, -⟩ := h.own i n hi
  exact (List.getElem?_eq_some_iff.1 hm).1

omit [DecidableEq I] in
/-- Giving up a request keeps answers. -/
theorem Matched.forget (h : Matched key t) (k : K) : Matched key (t.forget k) := by
  refine ⟨fun k' i hpend ↦ h.waits k' i ?_, h.own, h.once⟩
  rw [pending_forget] at hpend
  exact (ite_none_left_eq_some.1 hpend).2

/-- A new request has no answer. -/
theorem Matched.register (h : Matched key t) {i : I} (hi : t.keyOf i = none) (k : K) :
    Matched key (t.register i k) := by
  have hne {j : I} {k' : K} (hj : t.keyOf j = some k') : j ≠ i := by
    rintro rfl
    rw [hi] at hj
    cases hj
  have hans : t.answer i = none := by
    by_contra hsome
    obtain ⟨n, hn⟩ := ne_none_iff_exists'.1 hsome
    obtain ⟨-, k', -, -, hkey⟩ := h.own i n hn
    exact hne hkey rfl
  refine ⟨fun k' j hpend ↦ ?_, fun j n hn ↦ ?_, h.once⟩
  · rw [pending_register] at hpend
    rw [keyOf_register]
    by_cases heq : k' = k
    · rw [if_pos heq] at hpend
      obtain rfl := some.inj hpend
      exact ⟨by rw [if_pos rfl, heq], hans⟩
    · rw [if_neg heq] at hpend
      obtain ⟨hkey, hnone⟩ := h.waits k' j hpend
      exact ⟨by rw [if_neg (hne hkey), hkey], hnone⟩
  · obtain ⟨m, k', hm, hkm, hkey⟩ := h.own j n hn
    exact ⟨m, k', hm, hkm, by rw [keyOf_register, if_neg (hne hkey), hkey]⟩

omit [DecidableEq I] [DecidableEq K] in
/-- A message that nobody waits for. -/
theorem Matched.append (h : Matched key t) (m : M) :
    Matched key { t with received := t.received ++ [m] } := by
  refine ⟨h.waits, fun i n hn ↦ ?_, h.once⟩
  obtain ⟨m', k, hm', hk, hkey⟩ := h.own i n hn
  exact ⟨m', k, (List.getElem?_append_left (h.lt_length hn)).trans hm', hk, hkey⟩

/-- The newest message answers the request that waits for it. -/
theorem Matched.answered (h : Matched key t) {m : M} {k : K} {i : I} (hk : key m = some k)
    (hi : t.pending k = some i) :
    Matched key { t.forget k with
      answer := update t.answer i (some t.received.length)
      received := t.received ++ [m] } := by
  have hkey : t.keyOf i = some k := (h.waits k i hi).1
  -- the message is the newest one, so it has answered nobody before
  have hcases {j : I} {n : ℕ} (hn : update t.answer i (some t.received.length) j = some n) :
      j = i ∧ n = t.received.length ∨ j ≠ i ∧ t.answer j = some n ∧ n < t.received.length := by
    rw [update_apply] at hn
    by_cases heq : j = i
    · rw [if_pos heq] at hn
      exact .inl ⟨heq, (some.inj hn).symm⟩
    · rw [if_neg heq] at hn
      exact .inr ⟨heq, hn, h.lt_length hn⟩
  refine ⟨fun k' j hpend ↦ ?_, fun j n hn ↦ ?_, fun j j' n hn hn' ↦ ?_⟩
  · obtain ⟨hk', hpend⟩ := ite_none_left_eq_some.1 ((pending_forget ..).symm.trans hpend)
    obtain ⟨hkey', hnone⟩ := h.waits k' j hpend
    have hne : j ≠ i := by
      rintro rfl
      exact hk' (some.inj (hkey'.symm.trans hkey))
    exact ⟨hkey', (update_of_ne hne ..).trans hnone⟩
  · rcases hcases hn with ⟨rfl, rfl⟩ | ⟨-, hn, -⟩
    · exact ⟨m, k, List.getElem?_concat_length, hk, hkey⟩
    · exact (h.append m).own j n hn
  · rcases hcases hn with ⟨rfl, rfl⟩ | ⟨-, hn, hlt⟩
    · rcases hcases hn' with ⟨rfl, -⟩ | ⟨-, -, hlt⟩
      · rfl
      · exact absurd hlt (Nat.lt_irrefl _)
    · rcases hcases hn' with ⟨-, rfl⟩ | ⟨-, hn', -⟩
      · exact absurd hlt (Nat.lt_irrefl _)
      · exact h.once j j' n hn hn'

/-- A message answers who waits under its key. -/
theorem Matched.receive (h : Matched key t) (m : M) : Matched key (t.receive key m) := by
  rw [Table.receive]
  rcases hk : key m with - | k
  · exact h.append m
  · rcases hi : t.pending k with - | i
    · simp only [hi]
      exact h.append m
    · simp only [hi]
      exact h.answered hk hi

/-- **No step mixes up answers.** -/
theorem Matched.step (h : Matched key t) {a : Action I K M} {u : Table I K M}
    (hstep : t.step key a = some u) : Matched key u := by
  cases a with
  | register i k =>
    obtain ⟨hi, hu⟩ := ite_none_right_eq_some.1 hstep
    obtain rfl := some.inj hu
    exact h.register hi k
  | receive m =>
    obtain rfl := some.inj hstep
    exact h.receive m
  | forget k =>
    obtain rfl := some.inj hstep
    exact h.forget k

/-- Answers are matched in every run. -/
theorem run_matched {as : List (Action I K M)} {u : Table I K M} (h : Matched key t)
    (hrun : Machine.run (Table.step key) t as = some u) : Matched key u :=
  Machine.run_invariant' (P := Matched key) (fun h hstep ↦ h.step hstep) h hrun

end Table

end Correlation
