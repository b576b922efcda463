import Mathlib.Data.List.Nodup
import Mathlib.Logic.Function.Basic

/-!
# Doubly linked lists

The pointers of a doubly linked list: for each node the next one and the previous one, and the two
ends. `Lists l refs` says that the nodes `refs` are what one finds from the head to the tail, and
that the pointers back agree. What the pointers of other nodes are does not matter: a node that was
taken out keeps its pointers, and they may point anywhere.

Two operations: `unlink` takes a node out, `pushFront` puts one in front. Both change a few pointers
only, which are found by looking at the node and at the ends (`Lists.unlink`, `Lists.pushFront`).

The two directions are mirror images. `Follows f refs` is the condition on one of them, and the
pointers back are those that follow the reversed list.
-/

variable {R : Type*}

/-! ### One direction -/

/-- Each node is sent to the one behind it, and the last one to nowhere. -/
def Follows (f : R → Option R) : List R → Prop
  | [] => True
  | r :: refs => f r = refs.head? ∧ Follows f refs

namespace Follows

open List Function

variable {f g : R → Option R} {refs as bs : List R} {r : R}

theorem congr (h : Follows f refs) (hfg : ∀ r ∈ refs, g r = f r) : Follows g refs := by
  induction refs with
  | nil => trivial
  | cons r refs ih =>
    refine ⟨?_, ih h.2 fun r hr ↦ hfg r (mem_cons_of_mem _ hr)⟩
    rw [hfg r mem_cons_self, h.1]

/-- What a node in the middle is sent to. -/
theorem middle (h : Follows f (as ++ r :: bs)) : f r = bs.head? := by
  induction as with
  | nil => exact h.1
  | cons a as ih => exact ih h.2

variable [DecidableEq R]

/-- Send the given node, if there is one, somewhere else. -/
def redirect (f : R → Option R) (node dest : Option R) : R → Option R :=
  match node with
  | some p => Function.update f p dest
  | none => f

/-- **To take a node out, it is enough to redirect the one before it.** -/
theorem unlink (hnodup : (as ++ r :: bs).Nodup) (h : Follows f (as ++ r :: bs)) :
    Follows (redirect f as.getLast? bs.head?) (as ++ bs) := by
  induction as with
  | nil => exact h.2
  | cons a as ih =>
    obtain ⟨hnot, hnodup'⟩ := nodup_cons.1 hnodup
    rcases as with - | ⟨b, as⟩
    · refine ⟨update_self .., h.2.2.congr fun x hx ↦ update_of_ne ?_ ..⟩
      rintro rfl
      exact hnot (mem_cons_of_mem _ hx)
    · have hlast : (a :: b :: as).getLast? = (b :: as).getLast? := getLast?_cons_cons
      obtain ⟨p, hp⟩ : ∃ p, (b :: as).getLast? = some p := ⟨_, getLast?_eq_some_getLast (by simp)⟩
      have hne : a ≠ p := by
        rintro rfl
        exact hnot (mem_append_left _ (mem_of_getLast? hp))
      rw [hlast]
      refine ⟨?_, ih hnodup' h.2⟩
      rw [hp]
      exact (update_of_ne hne ..).trans h.1

/-- To put a node at the end, the last one is sent to it, and the node nowhere. -/
theorem concat (hnodup : refs.Nodup) (hr : r ∉ refs) (h : Follows f refs) :
    Follows (redirect (update f r none) refs.getLast? (some r)) (refs ++ [r]) := by
  induction refs with
  | nil => exact ⟨update_self .., trivial⟩
  | cons a refs ih =>
    obtain ⟨hnot, hnodup'⟩ := nodup_cons.1 hnodup
    obtain ⟨hra, hr'⟩ := not_or.1 (fun h ↦ hr (mem_cons.2 h))
    rcases refs with - | ⟨b, refs⟩
    · refine ⟨update_self .., ?_, trivial⟩
      exact (update_of_ne hra ..).trans (update_self ..)
    · have hlast : (a :: b :: refs).getLast? = (b :: refs).getLast? := getLast?_cons_cons
      obtain ⟨p, hp⟩ : ∃ p, (b :: refs).getLast? = some p := ⟨_, getLast?_eq_some_getLast (by simp)⟩
      have hne : a ≠ p := by
        rintro rfl
        exact hnot (mem_of_getLast? hp)
      rw [hlast]
      refine ⟨?_, ih hnodup' hr' h.2⟩
      rw [hp]
      exact (update_of_ne hne ..).trans ((update_of_ne (Ne.symm hra) ..).trans h.1)

end Follows

/-! ### Both directions -/

/-- The pointers of a list. -/
structure Links (R : Type*) where
  next : R → Option R
  prev : R → Option R
  head : Option R
  tail : Option R

namespace Links

open List Function Follows

/-- The nodes of the list, from head to tail. -/
structure Lists (l : Links R) (refs : List R) : Prop where
  nodup : refs.Nodup
  head : l.head = refs.head?
  tail : l.tail = refs.getLast?
  next : Follows l.next refs
  prev : Follows l.prev refs.reverse

/-- A list without nodes. -/
theorem Lists.nil {l : Links R} (hhead : l.head = none) (htail : l.tail = none) : l.Lists [] :=
  ⟨.nil, hhead, htail, trivial, trivial⟩

/-- The pointers of other nodes do not matter. -/
theorem Lists.congr {l l' : Links R} {refs : List R} (h : l.Lists refs) (hhead : l'.head = l.head)
    (htail : l'.tail = l.tail) (hrefs : ∀ r ∈ refs, l'.next r = l.next r ∧ l'.prev r = l.prev r) :
    l'.Lists refs where
  nodup := h.nodup
  head := hhead.trans h.head
  tail := htail.trans h.tail
  next := h.next.congr fun r hr ↦ (hrefs r hr).1
  prev := h.prev.congr fun r hr ↦ (hrefs r (mem_reverse.1 hr)).2

variable [DecidableEq R]

/-- Take a node out: the pointers around it are made to pass it by. -/
def unlink (l : Links R) (r : R) : Links R :=
  let l := match l.prev r with
    | some p => { l with next := Function.update l.next p (l.next r) }
    | none => { l with head := l.next r }
  match l.next r with
  | some n => { l with prev := Function.update l.prev n (l.prev r) }
  | none => { l with tail := l.prev r }

/-- Put a node in front. -/
def pushFront (l : Links R) (r : R) : Links R :=
  let l := { l with next := Function.update l.next r l.head }
  let l := { l with prev := Function.update l.prev r none }
  let l := match l.head with
    | some h => { l with prev := Function.update l.prev h (some r) }
    | none => l
  let l := { l with head := some r }
  match l.tail with
  | some _ => l
  | none => { l with tail := some r }

variable {l : Links R} {refs as bs : List R} {r : R}

omit [DecidableEq R] in
theorem reverse_middle : (as ++ r :: bs).reverse = bs.reverse ++ r :: as.reverse := by simp

omit [DecidableEq R] in
/-- The pointers of a node in the middle. -/
theorem Lists.middle (h : l.Lists (as ++ r :: bs)) :
    l.next r = bs.head? ∧ l.prev r = as.getLast? := by
  have hback := h.prev
  rw [reverse_middle] at hback
  exact ⟨h.next.middle, hback.middle.trans head?_reverse⟩

/-- What `unlink` changes, read off the list. -/
theorem Lists.unlink_eq (h : l.Lists (as ++ r :: bs)) :
    l.unlink r =
      { next := redirect l.next as.getLast? bs.head?
        prev := redirect l.prev bs.head? as.getLast?
        head := if as = [] then bs.head? else l.head
        tail := if bs = [] then as.getLast? else l.tail } := by
  obtain ⟨hnext, hprev⟩ := h.middle
  rcases hlast : as.getLast? with - | p
  · obtain rfl : as = [] := getLast?_eq_none_iff.1 hlast
    rcases bs with - | ⟨b, bs⟩
    · simp [Links.unlink, hprev, hnext, redirect]
    · simp [Links.unlink, hprev, hnext, redirect]
  · have has : as ≠ [] := by
      rintro rfl
      cases hlast
    have hne : r ≠ p := by
      rintro rfl
      have hdisj := (nodup_append.1 h.nodup).2.2
      exact hdisj r (mem_of_getLast? hlast) r mem_cons_self rfl
    rcases bs with - | ⟨b, bs⟩
    · simp [Links.unlink, hprev, hnext, hlast, redirect, has, update_of_ne hne]
    · simp [Links.unlink, hprev, hnext, hlast, redirect, has, update_of_ne hne]

/-- **A node is taken out**, wherever it is. -/
theorem Lists.unlink (h : l.Lists (as ++ r :: bs)) : (l.unlink r).Lists (as ++ bs) := by
  rw [h.unlink_eq]
  refine ⟨?_, ?_, ?_, Follows.unlink h.nodup h.next, ?_⟩
  · exact h.nodup.sublist ((sublist_cons_self r bs).append_left as)
  · rcases as with - | ⟨a, as⟩
    · rfl
    · exact h.head
  · show (if bs = [] then as.getLast? else l.tail) = _
    split
    case isTrue hnil => rw [hnil, append_nil]
    case isFalse hne =>
      rw [h.tail, getLast?_append_of_ne_nil _ (by simp), getLast?_append_of_ne_nil _ hne]
      obtain ⟨b, bs, rfl⟩ := exists_cons_of_ne_nil hne
      exact getLast?_cons_cons
  · -- the way back is a way through the reversed list
    have hnodup : (bs.reverse ++ r :: as.reverse).Nodup := by
      rw [← reverse_middle]
      exact nodup_reverse.2 h.nodup
    have hback := h.prev
    rw [reverse_middle] at hback
    have hunlink := Follows.unlink hnodup hback
    rwa [getLast?_reverse, head?_reverse, ← reverse_append] at hunlink

/-- **A node is put in front.** -/
theorem Lists.pushFront (h : l.Lists refs) (hr : r ∉ refs) :
    (l.pushFront r).Lists (r :: refs) := by
  have hnext : Follows (update l.next r refs.head?) (r :: refs) := by
    refine ⟨update_self .., h.next.congr fun x hx ↦ update_of_ne ?_ ..⟩
    rintro rfl
    exact hr hx
  have hprev : Follows (redirect (update l.prev r none) refs.head? (some r))
      (r :: refs).reverse := by
    have hconcat := concat (nodup_reverse.2 h.nodup)
      (fun hmem ↦ hr (mem_reverse.1 hmem)) h.prev
    rwa [getLast?_reverse, ← reverse_cons] at hconcat
  have heq : l.pushFront r =
      { next := update l.next r refs.head?
        prev := redirect (update l.prev r none) refs.head? (some r)
        head := some r
        tail := (r :: refs).getLast? } := by
    rcases refs with - | ⟨a, refs⟩
    · simp [Links.pushFront, h.head, h.tail, redirect]
    · obtain ⟨t, ht⟩ : ∃ t, (a :: refs).getLast? = some t :=
        ⟨_, getLast?_eq_some_getLast (by simp)⟩
      simp [Links.pushFront, h.head, h.tail, redirect, ht]
  rw [heq]
  exact ⟨nodup_cons.2 ⟨hr, h.nodup⟩, rfl, rfl, hnext, hprev⟩

end Links
