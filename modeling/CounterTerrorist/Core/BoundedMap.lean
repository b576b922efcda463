import CounterTerrorist.Foundations.LinkedList
import CounterTerrorist.Foundations.Run
import Mathlib.Data.List.Perm.Basic

/-!
# The bounded map

`BoundedMap`: a map with a maximal size that drops the least recently used key. It keeps a
JavaScript `Map` from keys to nodes and a doubly linked list of the nodes, most recent first.

## Objects

A `ListNode` is an object with a key, a value and two pointers. The fields of all nodes are
functions of the node here, and a node is the number of nodes that were made before it. `Map` is a
list of entries in the order of insertion.

## What it is for

`Lru` says what such a map should do, on a list of keys with their values, most recent first.
`boundedMap_refines` says that it is done: the same answers and the same size after every call of
every sequence, and the linked list is that list, in both directions.
-/

namespace Core

open List Machine Option Function

/-! ### The JavaScript map -/

section

variable {K N : Type*} [DecidableEq K]

/-- `set` of a `Map`: in place if the key is there, else at the end. -/
def mapSet (entries : List (K × N)) (key : K) (node : N) : List (K × N) :=
  if entries.any fun e ↦ e.1 = key then
    entries.map fun e ↦ if e.1 = key then (key, node) else e
  else entries ++ [(key, node)]

/-- `delete` of a `Map`. -/
def mapDelete (entries : List (K × N)) (key : K) : List (K × N) := entries.filter (·.1 ≠ key)

variable {entries : List (K × N)} {key : K}

theorem lookup_eq_some_of_mem (hkeys : (entries.map Prod.fst).Nodup) {node : N}
    (h : (key, node) ∈ entries) : entries.lookup key = some node := by
  obtain ⟨before, after, rfl⟩ := append_of_mem h
  refine lookup_eq_some_iff.2 ⟨before, after, rfl, fun e he ↦ ?_⟩
  rw [map_append] at hkeys
  have hdisj := (nodup_append.1 hkeys).2.2 e.1 (List.mem_map_of_mem he) key mem_cons_self
  simpa using Ne.symm hdisj

theorem lookup_eq_none_of_not_mem (h : key ∉ entries.map Prod.fst) : entries.lookup key = none := by
  refine lookup_eq_none_iff.2 fun e he ↦ ?_
  simp only [bne_iff_ne]
  rintro rfl
  exact h (List.mem_map_of_mem he)

/-- Without the key of one entry the others are left. -/
theorem filter_ne_key {before after : List (K × N)} {e : K × N}
    (hkeys : ((before ++ e :: after).map Prod.fst).Nodup) :
    (before ++ e :: after).filter (·.1 ≠ e.1) = before ++ after := by
  rw [map_append] at hkeys
  have hnot : e.1 ∉ before.map Prod.fst ++ after.map Prod.fst := (nodup_middle.1 hkeys).notMem
  have hall : ∀ x ∈ before ++ after, decide (x.1 ≠ e.1) = true := by
    intro x hx
    refine decide_eq_true fun heq ↦ hnot ?_
    rw [← map_append, ← heq]
    exact List.mem_map_of_mem hx
  rw [filter_append, filter_cons_of_neg (by simp), ← filter_append, filter_eq_self.2 hall]

end

/-! ### The object -/

/-- A `BoundedMap`, and the fields of all the nodes it has made. -/
structure BoundedMap (K V : Type*) where
  maxCapacity : ℕ
  /-- The number of nodes made so far. -/
  made : ℕ
  key : ℕ → Option K
  value : ℕ → Option V
  next : ℕ → Option ℕ
  prev : ℕ → Option ℕ
  cache : List (K × ℕ)
  head : Option ℕ
  tail : Option ℕ

/-- A call of a method. -/
inductive BoundedMap.Call (K V : Type*)
  | set (key : K) (value : V)
  | get (key : K)
  | has (key : K)
  | delete (key : K)
  | clear

/-- What a call returns. -/
inductive BoundedMap.Answer (V : Type*)
  | nothing
  /-- A value or `undefined`. -/
  | value (v : Option V)
  | bool (b : Bool)
deriving Repr, DecidableEq

namespace BoundedMap

variable {K V : Type*}

/-- The constructor. -/
def new (maxCapacity : ℕ) : BoundedMap K V where
  maxCapacity := maxCapacity
  made := 0
  key := fun _ ↦ none
  value := fun _ ↦ none
  next := fun _ ↦ none
  prev := fun _ ↦ none
  cache := []
  head := none
  tail := none

/-- `size`. -/
def size (s : BoundedMap K V) : ℕ := s.cache.length

/-- `addToHead`. -/
def addToHead (s : BoundedMap K V) (node : ℕ) : BoundedMap K V :=
  let s := { s with next := Function.update s.next node s.head }
  let s := { s with prev := Function.update s.prev node none }
  let s := match s.head with
    | some head => { s with prev := Function.update s.prev head (some node) }
    | none => s
  let s := { s with head := some node }
  match s.tail with
  | some _ => s
  | none => { s with tail := some node }

/-- `removeNode`. -/
def removeNode (s : BoundedMap K V) (node : ℕ) : BoundedMap K V :=
  let s := match s.prev node with
    | some prev => { s with next := Function.update s.next prev (s.next node) }
    | none => { s with head := s.next node }
  match s.next node with
  | some next => { s with prev := Function.update s.prev next (s.prev node) }
  | none => { s with tail := s.prev node }

/-- `moveToHead`. -/
def moveToHead (s : BoundedMap K V) (node : ℕ) : BoundedMap K V :=
  (s.removeNode node).addToHead node

/-- `new ListNode(key, value)`, which becomes node `s.made`. -/
def newNode (s : BoundedMap K V) (key : K) (value : V) : BoundedMap K V :=
  { s with
    made := s.made + 1
    key := Function.update s.key s.made (some key)
    value := Function.update s.value s.made (some value)
    next := Function.update s.next s.made none
    prev := Function.update s.prev s.made none }

variable [DecidableEq K]

/-- `evict`. -/
def evict (s : BoundedMap K V) : BoundedMap K V :=
  match s.tail with
  | some tail =>
    let s := match s.key tail with
      | some key => { s with cache := mapDelete s.cache key }
      | none => s
    s.removeNode tail
  | none => s

/-- `set`. -/
def set (s : BoundedMap K V) (key : K) (value : V) : BoundedMap K V :=
  match s.cache.lookup key with
  | some node => { s with value := Function.update s.value node (some value) }.moveToHead node
  | none =>
    let s := if s.cache.length ≥ s.maxCapacity then s.evict else s
    let node := s.made
    let s := s.newNode key value
    let s := { s with cache := mapSet s.cache key node }
    s.addToHead node

/-- `get`. -/
def get (s : BoundedMap K V) (key : K) : Option V × BoundedMap K V :=
  match s.cache.lookup key with
  | some node => ((s.moveToHead node).value node, s.moveToHead node)
  | none => (none, s)

/-- `has`. -/
def has (s : BoundedMap K V) (key : K) : Bool := (s.cache.lookup key).isSome

/-- `delete`. -/
def delete (s : BoundedMap K V) (key : K) : Bool × BoundedMap K V :=
  match s.cache.lookup key with
  | some node =>
    let s := s.removeNode node
    ((s.cache.lookup key).isSome, { s with cache := mapDelete s.cache key })
  | none => (false, s)

/-- `clear`. -/
def clear (s : BoundedMap K V) : BoundedMap K V :=
  { s with cache := [], head := none, tail := none }

/-- A call, with what it returns and the size after it. -/
def call (s : BoundedMap K V) : Call K V → (Answer V × ℕ) × BoundedMap K V
  | .set key value => let t := s.set key value; ((.nothing, t.size), t)
  | .get key => let r := s.get key; ((.value r.1, r.2.size), r.2)
  | .has key => ((.bool (s.has key), s.size), s)
  | .delete key => let r := s.delete key; ((.bool r.1, r.2.size), r.2)
  | .clear => ((.nothing, s.clear.size), s.clear)

end BoundedMap

/-! ### The reference -/

/-- Keys with their values, most recently used first. -/
abbrev Lru (K V : Type*) := List (K × V)

namespace Lru

variable {K V : Type*} [DecidableEq K]

/-- The others. -/
def without (l : Lru K V) (key : K) : Lru K V := l.filter (·.1 ≠ key)

/-- What a call should do. -/
def call (capacity : ℕ) (l : Lru K V) : BoundedMap.Call K V → (BoundedMap.Answer V × ℕ) × Lru K V
  | .set key value =>
    let others := if (l.lookup key).isSome then without l key
      else if l.length ≥ capacity then l.dropLast else l
    ((.nothing, others.length + 1), (key, value) :: others)
  | .get key =>
    match l.lookup key with
    | some value => ((.value (some value), l.length), (key, value) :: without l key)
    | none => ((.value none, l.length), l)
  | .has key => ((.bool (l.lookup key).isSome, l.length), l)
  | .delete key => ((.bool (l.lookup key).isSome, (without l key).length), without l key)
  | .clear => ((.nothing, 0), [])

end Lru

/-! ### Pointers -/

namespace BoundedMap

section

variable {K V : Type*}

/-- The pointers of the linked list. -/
def links (s : BoundedMap K V) : Links ℕ := ⟨s.next, s.prev, s.head, s.tail⟩

/-- The object with other pointers. -/
def withLinks (s : BoundedMap K V) (l : Links ℕ) : BoundedMap K V :=
  { s with next := l.next, prev := l.prev, head := l.head, tail := l.tail }

section

variable (s : BoundedMap K V) (node : ℕ)
include s node

theorem removeNode_eq : s.removeNode node = s.withLinks (s.links.unlink node) := by
  rcases hprev : s.prev node with - | p
  · rcases hnext : s.next node with - | n <;>
      simp [removeNode, withLinks, links, Links.unlink, hprev, hnext]
  · rcases hnext : update s.next p (s.next node) node with - | n <;>
      simp [removeNode, withLinks, links, Links.unlink, hprev, hnext]

theorem addToHead_eq : s.addToHead node = s.withLinks (s.links.pushFront node) := by
  rcases hhead : s.head with - | h <;> rcases htail : s.tail with - | t <;>
    simp [addToHead, withLinks, links, Links.pushFront, hhead, htail]

theorem moveToHead_eq : s.moveToHead node = s.withLinks ((s.links.unlink node).pushFront node) := by
  rw [moveToHead, removeNode_eq, addToHead_eq]
  rfl

end

end

/-! ### The representation -/

/-- A key with its value and its node. -/
structure Entry (K V : Type*) where
  node : ℕ
  key : K
  value : V

namespace Entry

variable {K V : Type*}

/-- What the reference keeps of an entry. -/
def pair (e : Entry K V) : K × V := (e.key, e.value)

/-- What the `Map` keeps of an entry. -/
def cached (e : Entry K V) : K × ℕ := (e.key, e.node)

end Entry

section

variable {K V : Type*} {s t : BoundedMap K V} {es as bs : List (Entry K V)} {e : Entry K V}

/-- The linked list holds these entries, in this order. -/
structure Holds (s : BoundedMap K V) (es : List (Entry K V)) : Prop where
  lists : s.links.Lists (es.map Entry.node)
  nodes : ∀ e ∈ es, s.key e.node = some e.key ∧ s.value e.node = some e.value ∧ e.node < s.made

/-- The object stands for these entries, most recent first. -/
structure Represents (s : BoundedMap K V) (es : List (Entry K V)) : Prop where
  holds : s.Holds es
  keys : (es.map Entry.key).Nodup
  cache : s.cache.Perm (es.map Entry.cached)

theorem Holds.removeNode (h : s.Holds (as ++ e :: bs)) :
    (s.removeNode e.node).Holds (as ++ bs) := by
  rw [removeNode_eq]
  refine ⟨?_, fun x hx ↦ h.nodes x ?_⟩
  · have hlists := h.lists
    rw [map_append] at hlists
    rw [map_append]
    exact hlists.unlink
  · exact ((sublist_cons_self e bs).append_left as).subset hx

theorem Holds.addToHead (h : s.Holds es) (hnew : e.node ∉ es.map Entry.node)
    (hnode : s.key e.node = some e.key ∧ s.value e.node = some e.value ∧ e.node < s.made) :
    (s.addToHead e.node).Holds (e :: es) := by
  rw [addToHead_eq]
  refine ⟨h.lists.pushFront hnew, fun x hx ↦ ?_⟩
  rcases mem_cons.1 hx with rfl | hx
  · exact hnode
  · exact h.nodes x hx

section

variable (h : s.Holds (as ++ e :: bs))
include h

/-- An entry that is taken out is no longer listed. -/
theorem Holds.not_mem : e.node ∉ (as ++ bs).map Entry.node := by
  have hnodup := h.lists.nodup
  rw [map_append] at hnodup
  rw [map_append]
  exact (nodup_middle.1 hnodup).notMem

theorem Holds.moveToHead : (s.moveToHead e.node).Holds (e :: (as ++ bs)) := by
  refine h.removeNode.addToHead h.not_mem ?_
  rw [removeNode_eq]
  exact h.nodes e (mem_append_right as mem_cons_self)

/-- A new value for an entry. -/
theorem Holds.setValue (value : V) : { s with value := update s.value e.node (some value) }.Holds
      (as ++ { e with value := value } :: bs) := by
  refine ⟨?_, fun x hx ↦ ?_⟩
  · have hlists := h.lists
    rw [map_append] at hlists ⊢
    exact hlists
  · rcases mem_cons.1 (perm_middle.subset hx) with rfl | hx
    · obtain ⟨hkey, -, hmade⟩ := h.nodes e (mem_append_right as mem_cons_self)
      exact ⟨hkey, update_self .., hmade⟩
    · have hne : x.node ≠ e.node := fun heq ↦ h.not_mem (heq ▸ List.mem_map_of_mem hx)
      obtain ⟨hkey, hvalue, hmade⟩ :=
        h.nodes x (((sublist_cons_self e bs).append_left as).subset hx)
      exact ⟨hkey, (update_of_ne hne ..).trans hvalue, hmade⟩

end

/-- A new node is none of those that are listed. -/
theorem Holds.newNode (h : s.Holds es) (key : K) (value : V) :
    (s.newNode key value).Holds es ∧ s.made ∉ es.map Entry.node := by
  have hold : ∀ e ∈ es, e.node ≠ s.made := fun e he ↦ Nat.ne_of_lt (h.nodes e he).2.2
  refine ⟨⟨h.lists.congr rfl rfl fun r hr ↦ ?_, fun e he ↦ ?_⟩, fun hmem ↦ ?_⟩
  · obtain ⟨e, he, rfl⟩ := List.mem_map.1 hr
    exact ⟨update_of_ne (hold e he) .., update_of_ne (hold e he) ..⟩
  · obtain ⟨hkey, hvalue, hmade⟩ := h.nodes e he
    have hne := hold e he
    exact ⟨(update_of_ne hne ..).trans hkey, (update_of_ne hne ..).trans hvalue,
      Nat.lt_succ_of_lt hmade⟩
  · obtain ⟨e, he, heq⟩ := List.mem_map.1 hmem
    exact hold e he heq

theorem keys_cached (es : List (Entry K V)) :
    (es.map Entry.cached).map Prod.fst = es.map Entry.key := by
  rw [List.map_map]
  rfl

theorem keys_pair (es : List (Entry K V)) :
    (es.map Entry.pair).map Prod.fst = es.map Entry.key := by
  rw [List.map_map]
  rfl

section

variable (h : s.Represents es)
include h

theorem Represents.keys_cache : (s.cache.map Prod.fst).Nodup := by
  rw [(h.cache.map Prod.fst).nodup_iff, keys_cached]
  exact h.keys

theorem Represents.keys_pair : ((es.map Entry.pair).map Prod.fst).Nodup := by
  rw [BoundedMap.keys_pair]
  exact h.keys

theorem Represents.size : s.size = es.length := h.cache.length_eq.trans (length_map _)

/-- The order of the entries changes, and perhaps a value. -/
theorem Represents.of_holds {es' : List (Entry K V)} (hholds : t.Holds es')
    (hcache : t.cache = s.cache) (hperm : (es.map Entry.cached).Perm (es'.map Entry.cached)) :
    t.Represents es' := by
  refine ⟨hholds, ?_, hcache ▸ h.cache.trans hperm⟩
  rw [← keys_cached, ← (hperm.map Prod.fst).nodup_iff, keys_cached]
  exact h.keys

end

end

/-! ### The refinement -/

section

variable {K V : Type*} [DecidableEq K] {s : BoundedMap K V} {es as bs : List (Entry K V)}
  {e : Entry K V}

/-- A key is looked up with the same result in both. -/
theorem Represents.lookup (h : s.Represents es) (key : K) :
    (∃ as e bs, es = as ++ e :: bs ∧ e.key = key ∧ s.cache.lookup key = some e.node ∧
      (es.map Entry.pair).lookup key = some e.value) ∨
    (key ∉ es.map Entry.key ∧ s.cache.lookup key = none ∧
      (es.map Entry.pair).lookup key = none) := by
  by_cases hmem : key ∈ es.map Entry.key
  · obtain ⟨e, he, rfl⟩ := List.mem_map.1 hmem
    obtain ⟨as, bs, rfl⟩ := append_of_mem he
    refine .inl ⟨as, e, bs, rfl, rfl, ?_, ?_⟩
    · exact lookup_eq_some_of_mem h.keys_cache
        (h.cache.mem_iff.2 (List.mem_map_of_mem (f := Entry.cached) he))
    · exact lookup_eq_some_of_mem h.keys_pair (List.mem_map_of_mem (f := Entry.pair) he)
  · refine .inr ⟨hmem, lookup_eq_none_of_not_mem ?_, lookup_eq_none_of_not_mem ?_⟩
    · rwa [(h.cache.map Prod.fst).mem_iff, keys_cached]
    · rwa [BoundedMap.keys_pair]

/-- The others, in the reference. -/
theorem Represents.without (h : s.Represents (as ++ e :: bs)) :
    Lru.without ((as ++ e :: bs).map Entry.pair) e.key = (as ++ bs).map Entry.pair := by
  have hkeys := h.keys_pair
  rw [map_append] at hkeys ⊢
  rw [map_append]
  exact filter_ne_key hkeys

/-- An entry is taken out, of the linked list and of the `Map`. -/
theorem Represents.remove (h : s.Represents (as ++ e :: bs)) :
    { s.removeNode e.node with cache := mapDelete s.cache e.key }.Represents (as ++ bs) := by
  have hkeys : (((as ++ e :: bs).map Entry.cached).map Prod.fst).Nodup := by
    rw [keys_cached]
    exact h.keys
  have hholds := h.holds.removeNode
  refine ⟨⟨hholds.lists, hholds.nodes⟩, ?_, ?_⟩
  · exact h.keys.sublist (((sublist_cons_self e bs).append_left as).map Entry.key)
  · have hfilter := h.cache.filter fun x ↦ decide (x.1 ≠ e.key)
    rw [map_append] at hkeys hfilter
    rw [map_append]
    exact hfilter.trans (.of_eq (filter_ne_key hkeys))

omit [DecidableEq K] in
/-- An entry is used. -/
theorem Represents.use (h : s.Represents (as ++ e :: bs)) :
    (s.moveToHead e.node).Represents (e :: (as ++ bs)) := by
  refine h.of_holds h.holds.moveToHead (by rw [moveToHead_eq]; rfl) ?_
  exact perm_middle.map Entry.cached

omit [DecidableEq K] in
/-- An entry gets another value, and is used. -/
theorem Represents.touch (h : s.Represents (as ++ e :: bs)) (value : V) :
    ({ s with value := update s.value e.node (some value) }.moveToHead e.node).Represents
      ({ e with value := value } :: (as ++ bs)) := by
  refine h.of_holds (h.holds.setValue value).moveToHead (by rw [moveToHead_eq]; rfl) ?_
  rw [map_append, map_cons, map_cons, map_append]
  exact perm_middle

variable {key : K}

theorem evict_eq {tail : ℕ} (htail : s.tail = some tail) (hkey : s.key tail = some key) :
    s.evict = { s.removeNode tail with cache := mapDelete s.cache key } := by
  unfold BoundedMap.evict
  split
  case h_1 tail' htail' =>
    obtain rfl : tail = tail' := some.inj (htail.symm.trans htail')
    simp only [hkey]
    rw [removeNode_eq, removeNode_eq]
    rfl
  case h_2 hnone => exact absurd (htail.symm.trans hnone) (by simp)

theorem evict_of_tail_eq_none (htail : s.tail = none) : s.evict = s := by
  unfold BoundedMap.evict
  split
  case h_1 tail htail' => exact absurd (htail.symm.trans htail') (by simp)
  case h_2 => rfl

section

variable (h : s.Represents es)
include h

/-- The least recent entry is evicted. -/
theorem Represents.evict : s.evict.Represents es.dropLast := by
  have htail : s.tail = (es.map Entry.node).getLast? := h.holds.lists.tail
  rcases eq_nil_or_concat' es with rfl | ⟨as, e, rfl⟩
  · rw [evict_of_tail_eq_none htail]
    exact h
  · have hkey := (h.holds.nodes e (by simp)).1
    rw [map_append, map_singleton, getLast?_concat] at htail
    rw [evict_eq htail hkey, dropLast_concat]
    have hremove := h.remove
    rwa [append_nil] at hremove

/-- Room for one more key, by dropping the last entry if there are too many. -/
theorem Represents.makeRoom :
    ∃ kept, (if s.cache.length ≥ s.maxCapacity then s.evict else s).Represents kept ∧
      kept.Sublist es ∧
      kept.map Entry.pair = if (es.map Entry.pair).length ≥ s.maxCapacity
        then (es.map Entry.pair).dropLast else es.map Entry.pair := by
  have hlen : s.cache.length = es.length := h.size
  rw [hlen, length_map]
  split
  · exact ⟨es.dropLast, h.evict, dropLast_sublist es, map_dropLast⟩
  · exact ⟨es, h, .refl es, rfl⟩

/-- A new key. -/
theorem Represents.insert (hkey : key ∉ es.map Entry.key) (value : V) :
    ({ s.newNode key value with cache := mapSet s.cache key s.made }.addToHead s.made).Represents
      (⟨s.made, key, value⟩ :: es) := by
  obtain ⟨hholds, hnew⟩ := h.holds.newNode key value
  have hcache : mapSet s.cache key s.made = s.cache ++ [(key, s.made)] := by
    refine if_neg fun hany ↦ hkey ?_
    obtain ⟨x, hx, heq⟩ := List.any_eq_true.1 hany
    rw [← of_decide_eq_true heq, ← keys_cached, ← (h.cache.map Prod.fst).mem_iff]
    exact List.mem_map_of_mem hx
  have hholds' : { s.newNode key value with cache := mapSet s.cache key s.made }.Holds es :=
    ⟨hholds.lists, hholds.nodes⟩
  refine ⟨?_, nodup_cons.2 ⟨hkey, h.keys⟩, ?_⟩
  · exact hholds'.addToHead (e := ⟨s.made, key, value⟩) hnew
      ⟨update_self .., update_self .., Nat.lt_succ_self _⟩
  · rw [addToHead_eq]
    show (mapSet s.cache key s.made).Perm _
    rw [hcache]
    exact (perm_append_singleton _ _).trans (h.cache.cons _)

end

/-- The reference that the entries stand for gives the same answer to a call, and stands for the
entries after it. -/
def Answers (s : BoundedMap K V) (es : List (Entry K V)) (c : Call K V) : Prop :=
  (s.call c).1 = (Lru.call s.maxCapacity (es.map Entry.pair) c).1 ∧
    ∃ es', (s.call c).2.Represents es' ∧
      es'.map Entry.pair = (Lru.call s.maxCapacity (es.map Entry.pair) c).2

section

variable (h : s.Represents es)
include h

theorem Represents.set (key : K) (value : V) : s.Answers es (.set key value) := by
  rcases h.lookup key with ⟨as, e, bs, rfl, rfl, hcache, hlru⟩ | ⟨hkey, hcache, hlru⟩
  · have htouch := h.touch value
    have hset : s.set e.key value =
        { s with value := update s.value e.node (some value) }.moveToHead e.node := by
      rw [BoundedMap.set, hcache]
    have href : Lru.call s.maxCapacity ((as ++ e :: bs).map Entry.pair) (.set e.key value) =
        ((.nothing, (as ++ bs).length + 1), (e.key, value) :: (as ++ bs).map Entry.pair) := by
      rw [Lru.call, hlru, isSome_some, if_pos rfl, h.without, length_map]
    rw [Answers, href, call, hset]
    refine ⟨?_, _, htouch, rfl⟩
    rw [htouch.size]
    rfl
  · -- a new key
    obtain ⟨kept, hroom, hsub, hkept⟩ := h.makeRoom
    have hnot : key ∉ kept.map Entry.key := fun hmem ↦ hkey ((hsub.map Entry.key).subset hmem)
    obtain ⟨node, hinsert⟩ : ∃ node, (s.set key value).Represents (⟨node, key, value⟩ :: kept) := by
      rw [BoundedMap.set, hcache]
      exact ⟨_, hroom.insert hnot value⟩
    have href : Lru.call s.maxCapacity (es.map Entry.pair) (.set key value) =
        ((.nothing, kept.length + 1), (key, value) :: kept.map Entry.pair) := by
      rw [Lru.call, hlru, isSome_none, if_neg Bool.false_ne_true, ← hkept, length_map]
    rw [Answers, href, call]
    refine ⟨?_, _, hinsert, rfl⟩
    rw [hinsert.size]
    rfl

theorem Represents.get (key : K) : s.Answers es (.get key) := by
  rcases h.lookup key with ⟨as, e, bs, rfl, rfl, hcache, hlru⟩ | ⟨-, hcache, hlru⟩
  · have hget : s.get e.key = (some e.value, s.moveToHead e.node) := by
      have hvalue : (s.moveToHead e.node).value e.node = some e.value := by
        rw [moveToHead_eq]
        exact (h.holds.nodes e (by simp)).2.1
      rw [BoundedMap.get, hcache, ← hvalue]
    rw [Answers, call, Lru.call, hlru, hget]
    refine ⟨?_, _, h.use, ?_⟩
    · rw [h.use.size, length_map]
      exact congrArg _ perm_middle.length_eq.symm
    · rw [h.without]
      rfl
  · have hget : s.get key = (none, s) := by rw [BoundedMap.get, hcache]
    rw [Answers, call, Lru.call, hlru, hget]
    refine ⟨?_, es, h, rfl⟩
    rw [h.size, length_map]

theorem Represents.delete (key : K) : s.Answers es (.delete key) := by
  rcases h.lookup key with ⟨as, e, bs, rfl, rfl, hcache, hlru⟩ | ⟨hkey, hcache, hlru⟩
  · have hdelete : s.delete e.key =
        (true, { s.removeNode e.node with cache := mapDelete s.cache e.key }) := by
      have hsame : (s.removeNode e.node).cache = s.cache := by
        rw [removeNode_eq]
        rfl
      rw [BoundedMap.delete]
      simp only [hsame, hcache, isSome_some]
    rw [Answers, call, Lru.call, hlru, hdelete, h.without]
    refine ⟨?_, _, h.remove, rfl⟩
    rw [h.remove.size, length_map]
    rfl
  · have hdelete : s.delete key = (false, s) := by rw [BoundedMap.delete, hcache]
    have hwithout : Lru.without (es.map Entry.pair) key = es.map Entry.pair := by
      refine filter_eq_self.2 fun x hx ↦ decide_eq_true fun heq ↦ hkey ?_
      rw [← BoundedMap.keys_pair, ← heq]
      exact List.mem_map_of_mem hx
    rw [Answers, call, Lru.call, hlru, hdelete, hwithout]
    refine ⟨?_, es, h, rfl⟩
    rw [h.size, length_map]
    rfl

theorem Represents.call (c : Call K V) : s.Answers es c := by
  cases c with
  | set key value => exact h.set key value
  | get key => exact h.get key
  | has key =>
    refine ⟨?_, es, h, rfl⟩
    show (Answer.bool (s.has key), s.size) = (.bool _, (es.map Entry.pair).length)
    rw [h.size, length_map, BoundedMap.has]
    rcases h.lookup key with ⟨as, e, bs, -, -, hcache, hlru⟩ | ⟨-, hcache, hlru⟩ <;>
      rw [hcache, hlru] <;> rfl
  | delete key => exact h.delete key
  | clear =>
    exact ⟨rfl, [], ⟨⟨.nil rfl rfl, forall_mem_nil _⟩, .nil, .nil⟩, rfl⟩

end

/-! ### Capacity -/

@[simp] theorem maxCapacity_evict (s : BoundedMap K V) : s.evict.maxCapacity = s.maxCapacity := by
  rw [evict]
  split
  · rw [removeNode_eq]
    split <;> rfl
  · rfl

theorem maxCapacity_call (s : BoundedMap K V) (c : Call K V) :
    (s.call c).2.maxCapacity = s.maxCapacity := by
  cases c with
  | set key value =>
    show (s.set key value).maxCapacity = s.maxCapacity
    rw [BoundedMap.set]
    split
    · rw [moveToHead_eq]
      rfl
    · rw [addToHead_eq]
      show (if s.cache.length ≥ s.maxCapacity then s.evict else s).maxCapacity = s.maxCapacity
      split
      · exact s.maxCapacity_evict
      · rfl
  | get key =>
    show (s.get key).2.maxCapacity = s.maxCapacity
    rw [BoundedMap.get]
    split
    · rw [moveToHead_eq]
      rfl
    · rfl
  | has key => rfl
  | delete key =>
    show (s.delete key).2.maxCapacity = s.maxCapacity
    rw [BoundedMap.delete]
    split
    · rw [removeNode_eq]
      rfl
    · rfl
  | clear => rfl

/-! ### Every sequence of calls -/

/-- The object stands for a reference of this capacity. -/
def Simulates (capacity : ℕ) (s : BoundedMap K V) (l : Lru K V) : Prop :=
  s.maxCapacity = capacity ∧ ∃ es, s.Represents es ∧ es.map Entry.pair = l

omit [DecidableEq K] in
theorem simulates_new (capacity : ℕ) : Simulates capacity (new capacity : BoundedMap K V) [] :=
  ⟨rfl, [], ⟨⟨.nil rfl rfl, forall_mem_nil _⟩, .nil, .nil⟩, rfl⟩

/-- One call. -/
theorem Simulates.call {capacity : ℕ} {l : Lru K V} (c : Call K V) (h : Simulates capacity s l) :
    (s.call c).1 = (Lru.call capacity l c).1 ∧
      Simulates capacity (s.call c).2 (Lru.call capacity l c).2 := by
  obtain ⟨hcapacity, es, hes, rfl⟩ := h
  obtain ⟨hans, hafter⟩ := hes.call c
  rw [hcapacity] at hans hafter
  exact ⟨hans, (s.maxCapacity_call c).trans hcapacity, hafter⟩

/-- **Refinement.** A new map and an empty reference of the same capacity give the same answers and
have the same size after every call. What the map has become is, from `head` by `next` and from
`tail` by `prev`, the list of the reference, and the `Map` leads from exactly its keys to the
nodes. -/
theorem boundedMap_refines (capacity : ℕ) (calls : List (Call K V)) :
    let after := replay call (new capacity) calls
    let reference := replay (Lru.call capacity) [] calls
    after.1 = reference.1 ∧ (reference.2.map Prod.fst).Nodup ∧ ∃ nodes : List ℕ,
        after.2.links.Lists nodes ∧
        nodes.map after.2.key = reference.2.map (some ·.1) ∧
        nodes.map after.2.value = reference.2.map (some ·.2) ∧
        after.2.cache.Perm ((reference.2.map Prod.fst).zip nodes) := by
  intro after reference
  obtain ⟨hanswers, -, es, hes, hpairs⟩ :=
    replay_simulates Simulates.call calls (simulates_new (K := K) (V := V) capacity)
  refine ⟨hanswers, ?_, es.map Entry.node, hes.holds.lists, ?_, ?_, ?_⟩
  · rw [← hpairs, keys_pair]
    exact hes.keys
  · rw [← hpairs, List.map_map, List.map_map]
    exact map_congr_left fun e he ↦ (hes.holds.nodes e he).1
  · rw [← hpairs, List.map_map, List.map_map]
    exact map_congr_left fun e he ↦ (hes.holds.nodes e he).2.1
  · rw [← hpairs, keys_pair, zip_map']
    exact hes.cache

/-- With two places, a third key drives out the one that was not used since. -/
example : (Machine.replay call (new 2 : BoundedMap ℕ ℕ)
    [.set 1 10, .set 2 20, .get 1, .set 3 30, .has 2, .delete 1]).1 =
    [(.nothing, 1), (.nothing, 2), (.value (some 10), 2), (.nothing, 2), (.bool false, 2),
      (.bool true, 1)] := by
  decide

end

end BoundedMap

end Core
