import Mathlib.Data.List.Basic
import Mathlib.Data.List.Chain
import Mathlib.Tactic.Common

/-!
# Hash-linked lists

Lists of events in which every event names the digest of the one before it. Events, digests and
the two projections are arbitrary; nothing here hashes anything.

## Oldest first, and newest first

Growing a log is described oldest first: `Linked free h es` says that `es` extends a log whose last
digest is `h`. Some events may be allowed to follow anything (`free`), as a deliberate break of the
chain. `headOf h es` is the last digest afterwards, and `linked_append` cuts a log anywhere.

Checking a log is described newest first, as a condition on neighbours (`List.IsChain`).
`Linked.isChain_reverse` goes from one to the other.

## Forks

Two events that name the same digest are a fork. `Linked.prev_ne_of_nodup` says that a log in which
no digest comes back has none. So the digest an event names tells its place in the log
(`Linked.getElem?_of_prev`).
-/

namespace HashChain

open List

variable {E H : Type*} (prev hash : E → H)

/-- The last digest after appending `es` to a log whose last digest is `h`. -/
def headOf (h : H) (es : List E) : H := es.foldl (fun _ e ↦ hash e) h

/-- `es` extends a log whose last digest is `h`, oldest first. A free event may follow anything. -/
def Linked (free : E → Prop) : H → List E → Prop
  | _, [] => True
  | h, e :: es => (prev e = h ∨ free e) ∧ Linked free (hash e) es

variable {prev hash} {free : E → Prop} {h : H} {es : List E}

@[simp] theorem headOf_nil : headOf hash h [] = h := rfl

@[simp] theorem headOf_cons (e : E) : headOf hash h (e :: es) = headOf hash (hash e) es := rfl

theorem headOf_append (as bs : List E) :
    headOf hash h (as ++ bs) = headOf hash (headOf hash h as) bs := foldl_append

@[simp] theorem headOf_concat (e : E) : headOf hash h (es ++ [e]) = hash e := by
  rw [headOf_append]
  rfl

@[simp] theorem linked_nil : Linked prev hash free h [] := trivial

@[simp] theorem linked_cons (e : E) :
    Linked prev hash free h (e :: es) ↔ (prev e = h ∨ free e) ∧ Linked prev hash free (hash e) es :=
  Iff.rfl

theorem linked_append {as bs : List E} : Linked prev hash free h (as ++ bs) ↔
      Linked prev hash free h as ∧ Linked prev hash free (headOf hash h as) bs := by
  induction as generalizing h with
  | nil => simp
  | cons a as ih => rw [cons_append, linked_cons, linked_cons, ih, headOf_cons, and_assoc]

variable {e : E} {i j : ℕ}

theorem linked_concat : Linked prev hash free h (es ++ [e]) ↔
      Linked prev hash free h es ∧ (prev e = headOf hash h es ∨ free e) := by
  rw [linked_append]
  simp

/-- The last digest is the digest of the last event. -/
theorem headOf_eq_getLast? : ∀ (h : H) (es : List E),
    headOf hash h es = (es.getLast?.map hash).getD h
  | _, [] => rfl
  | h, [e] => rfl
  | h, e :: f :: es => by
    rw [headOf_cons, headOf_eq_getLast? (hash e) (f :: es), getLast?_cons_cons]
    rcases hlast : (f :: es).getLast? with - | l
    · simp at hlast
    · rfl

/-- An event that is not free names the start or the digest of an earlier event. -/
theorem Linked.prev_mem (hl : Linked prev hash free h es) (he : e ∈ es) (hf : ¬free e) :
    prev e ∈ h :: es.map hash := by
  induction es generalizing h with
  | nil => simp at he
  | cons a es ih =>
    rcases mem_cons.1 he with rfl | he
    · rw [hl.1.resolve_right hf]
      simp
    · exact mem_cons_of_mem _ (ih hl.2 he)

/-- When no digest comes back, no two events name the same one. -/
theorem Linked.prev_ne_of_nodup (hl : Linked prev hash free h es) (hd : (h :: es.map hash).Nodup) :
    es.Pairwise fun a b ↦ ¬free a → ¬free b → prev a ≠ prev b := by
  induction es generalizing h with
  | nil => exact List.Pairwise.nil
  | cons e es ih =>
    rw [nodup_cons] at hd
    refine pairwise_cons.2 ⟨fun b hb hfe hfb heq ↦ ?_, ih hl.2 hd.2⟩
    have hmem := hl.2.prev_mem hb hfb
    rw [← heq, hl.1.resolve_right hfe] at hmem
    exact hd.1 hmem

/-- An event that is not free names the last digest before it. -/
theorem Linked.prev_getElem? (hl : Linked prev hash free h es) (he : es[i]? = some e)
    (hf : ¬free e) : prev e = headOf hash h (es.take i) := by
  induction es generalizing h i with
  | nil => cases he
  | cons a es ih =>
    rcases i with - | i
    · obtain rfl : a = e := Option.some.inj he
      exact hl.1.resolve_right hf
    · exact ih hl.2 he

/-- The digests along a log are the start and the digests of its events. -/
theorem getElem?_headOf (hi : i ≤ es.length) :
    (h :: es.map hash)[i]? = some (headOf hash h (es.take i)) := by
  induction es generalizing h i with
  | nil =>
    obtain rfl : i = 0 := Nat.le_zero.1 hi
    rfl
  | cons a es ih =>
    rcases i with - | i
    · rfl
    · exact ih (Nat.le_of_succ_le_succ hi)

/-- When no digest comes back, the digest tells how much of the log there was. -/
theorem headOf_take_inj (hd : (h :: es.map hash).Nodup) (hi : i ≤ es.length) (hj : j ≤ es.length)
    (heq : headOf hash h (es.take i) = headOf hash h (es.take j)) : i = j := by
  have hlen : i < (h :: es.map hash).length := by
    rw [length_cons, length_map]
    omega
  refine (getElem?_inj hlen hd).1 ?_
  rw [getElem?_headOf hi, getElem?_headOf hj, heq]

/-- When no digest comes back, an event stands where the digest it names is the last one. -/
theorem Linked.getElem?_of_prev (hl : Linked prev hash free h es) (hd : (h :: es.map hash).Nodup)
    (he : e ∈ es) (hf : ¬free e) (hj : j ≤ es.length) (hprev : prev e = headOf hash h (es.take j)) :
    es[j]? = some e := by
  obtain ⟨i, hi⟩ := getElem?_of_mem he
  have hlt : i < es.length := (List.getElem?_eq_some_iff.1 hi).1
  obtain rfl : i = j := headOf_take_inj hd hlt.le hj ((hl.prev_getElem? hi hf).symm.trans hprev)
  exact hi

/-- Read newest first, every event names its older neighbour. -/
theorem Linked.isChain_reverse (hl : Linked prev hash (fun _ ↦ False) h es) :
    es.reverse.IsChain fun newer older ↦ prev newer = hash older := by
  induction es using List.reverseRecOn generalizing h with
  | nil => exact isChain_nil
  | append_singleton es e ih =>
    obtain ⟨hes, he⟩ := linked_concat.1 hl
    rw [reverse_append, reverse_singleton, singleton_append]
    refine isChain_cons.2 ⟨fun f hf ↦ ?_, ih hes⟩
    rw [head?_reverse] at hf
    rw [he.resolve_right id, headOf_eq_getLast?, hf]
    rfl

end HashChain
