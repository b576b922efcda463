import CounterTerrorist.Foundations.OrderedStore
import CounterTerrorist.Audit.Event
import Mathlib.Data.Prod.Lex
import Mathlib.Data.String.Basic

/-!
# The timeline repository

`TimelineRepository` stores items under `[prefix, timestamp, id]` and is read in key order. One
prefix is modelled, so a key is the pair of a time and an id in lexicographic order, next to the
counter under `["stats", prefix, "count"]`. Sums of the counter wrap at 64 bits.

`setMany` commits in chunks of 100 and stops at the first chunk whose commit fails; which one that
is, if any, is an argument. `KvAuditRepository` is the repository at audit events.

## Deleting

`deleteBefore` collects the keys before a time in batches of 100, and adds minus the size of the
batch to the counter in the transaction that deletes it. A `Deno.KvU64` cannot be negative, so the
value is refused before the commit (`deleteBatch_eq_none`), and the call throws with every entry
still in place (`deleteBefore_eq`).
-/

namespace Audit

open List

/-- The varying part of a storage key. -/
abbrev TimelineKey := WithTop ℤ ×ₗ String

/-- The entries of one prefix and their counter. -/
structure TimelineRepository (T : Type) where
  items : OrderedStore TimelineKey T
  count : Option UInt64

namespace TimelineRepository

variable {T : Type} (time : T → WithTop ℤ)

/-- An untouched prefix. -/
def empty : TimelineRepository T := ⟨OrderedStore.empty, none⟩

/-- The `sum` mutation of the counter. -/
def addCount (count : Option UInt64) (n : ℕ) : Option UInt64 :=
  some (count.getD 0 + UInt64.ofNat n)

/-- Where an item is stored. -/
def keyed (item : String × T) : TimelineKey × T := (toLex (time item.2, item.1), item.2)

/-- One committed transaction: all items of a chunk, and the counter. -/
def setChunk (r : TimelineRepository T) (chunk : List (String × T)) : TimelineRepository T where
  items := r.items.setAll (chunk.map (keyed time))
  count := addCount r.count chunk.length

/-- `set`, when its commit succeeds. -/
def set (r : TimelineRepository T) (id : String) (data : T) : TimelineRepository T :=
  setChunk time r [(id, data)]

/-- The slices `items.slice(i, i + 100)` for `i = 0, 100, 200, …`. -/
def chunks (items : List (String × T)) : List (List (String × T)) :=
  (List.range ((items.length + 99) / 100)).map fun i ↦ (items.drop (100 * i)).take 100

/-- The chunks that are committed when the commit of chunk `failAt` fails. -/
def committed (items : List (String × T)) (failAt : Option ℕ) : List (List (String × T)) :=
  match failAt with
  | some i => (chunks items).take i
  | none => chunks items

/-- `setMany`; the Boolean says whether the call resolved. -/
def setMany (r : TimelineRepository T) (items : List (String × T)) (failAt : Option ℕ) :
    Bool × TimelineRepository T :=
  (decide ((committed items failAt).length = (chunks items).length),
    (committed items failAt).foldl (setChunk time) r)

/-! ### Deleting -/

/-- `new Deno.KvU64(v)`. `none` is the `RangeError` for a value that is not a 64-bit one. -/
def kvU64 (v : ℤ) : Option UInt64 :=
  if 0 ≤ v ∧ v < 2 ^ 64 then some (UInt64.ofNat v.toNat) else none

/-- One transaction of `deleteBefore`: the keys of a batch, and the counter. `none` is the
`RangeError` of the value that is to be added to the counter. -/
def deleteBatch (r : TimelineRepository T) (batch : List TimelineKey) :
    Option (TimelineRepository T) :=
  (kvU64 (-(batch.length : ℤ))).map fun delta ↦
    { items := r.items.eraseAll batch, count := some (r.count.getD 0 + delta) }

/-- The loop of `deleteBefore` over listed keys, with the keys of the open batch. The first
component is the batch that is open afterwards; `none` is a thrown error. -/
def deleteKeys (r : TimelineRepository T) (batch : List TimelineKey) :
    List TimelineKey → Option (List TimelineKey) × TimelineRepository T
  | [] => (some batch, r)
  | k :: ks =>
    if (batch ++ [k]).length ≥ 100 then
      match deleteBatch r (batch ++ [k]) with
      | some r' => deleteKeys r' [] ks
      | none => (none, r)
    else deleteKeys r (batch ++ [k]) ks

/-- After the loop: the open batch, unless it is empty. The Boolean says whether the call
resolved. -/
def deleteRest (r : TimelineRepository T) (batch : List TimelineKey) :
    Bool × TimelineRepository T :=
  if batch = [] then (true, r)
  else
    match deleteBatch r batch with
    | some r' => (true, r')
    | none => (false, r)

/-- Whether a key is listed up to `[prefix, timestamp]`. -/
def keyBefore (timestamp : ℤ) (k : TimelineKey) : Bool :=
  decide ((ofLex k).1.untopD timestamp < timestamp)

/-- `deleteBefore`, when every commit succeeds: the number of deleted entries, if it resolved. -/
def deleteBefore (r : TimelineRepository T) (timestamp : ℤ) : Option ℕ × TimelineRepository T :=
  let keys := r.items.keys.filter (keyBefore timestamp)
  match deleteKeys r [] keys with
  | (none, r') => (none, r')
  | (some batch, r') =>
    ((if (deleteRest r' batch).1 then some keys.length else none), (deleteRest r' batch).2)

/-- `getStream`: at most `limit` items in key order, or in reverse. -/
def getStream (r : TimelineRepository T) (limit : ℕ) (reverse : Bool) : List T :=
  (if reverse then r.items.values.reverse else r.items.values).take limit

/-- `getLatest`: the items with the greatest keys, greatest first. -/
def getLatest (r : TimelineRepository T) (limit : ℕ) : List T := r.getStream limit true

/-! ### Nothing is ever deleted -/

section

variable (r : TimelineRepository T)
include r

/-- The counter cannot be told to go down: the value for a batch is negative. -/
theorem deleteBatch_eq_none {batch : List TimelineKey}
    (h : batch ≠ []) : deleteBatch r batch = none := by
  have hpos : 0 < batch.length := length_pos_iff.2 h
  have hnone : kvU64 (-(batch.length : ℤ)) = none := if_neg (by omega)
  rw [deleteBatch, hnone, Option.map_none]

/-- The loop leaves the repository as it is, and if it does not throw it has only collected keys. -/
theorem deleteKeys_spec (batch ks : List TimelineKey) : (deleteKeys r batch ks).2 = r ∧
      ∀ rest, (deleteKeys r batch ks).1 = some rest → rest = batch ++ ks := by
  induction ks generalizing batch with
  | nil =>
    refine ⟨rfl, fun rest h ↦ ?_⟩
    rw [append_nil]
    exact (Option.some.inj h).symm
  | cons k ks ih =>
    rw [deleteKeys, deleteBatch_eq_none r (by simp : batch ++ [k] ≠ [])]
    split
    · exact ⟨rfl, nofun⟩
    · obtain ⟨hrepo, hbatch⟩ := ih (batch ++ [k])
      refine ⟨hrepo, fun rest h ↦ ?_⟩
      rw [hbatch rest h, append_assoc, singleton_append]

/-- After the loop nothing changes either, and the call resolves only if nothing was collected. -/
theorem deleteRest_eq (batch : List TimelineKey) :
    deleteRest r batch = (decide (batch = []), r) := by
  by_cases h : batch = []
  · rw [deleteRest, if_pos h, decide_eq_true h]
  · rw [deleteRest, if_neg h, deleteBatch_eq_none r h, decide_eq_false h]

/-- `deleteBefore` deletes nothing. It resolves, with zero, exactly when there is nothing to
delete. -/
theorem deleteBefore_eq (timestamp : ℤ) : deleteBefore r timestamp =
      (if r.items.keys.filter (keyBefore timestamp) = [] then some 0 else none, r) := by
  obtain ⟨hrepo, hbatch⟩ := deleteKeys_spec r [] (r.items.keys.filter (keyBefore timestamp))
  rw [deleteBefore]
  rcases hloop : deleteKeys r [] (r.items.keys.filter (keyBefore timestamp)) with ⟨- | batch, r'⟩
  · rw [hloop] at hrepo
    obtain rfl : r' = r := hrepo
    -- the loop throws only on a key
    have hne : r'.items.keys.filter (keyBefore timestamp) ≠ [] := by
      intro hnil
      rw [hnil] at hloop
      cases hloop
    rw [if_neg hne]
  · rw [hloop] at hrepo hbatch
    obtain rfl : r' = r := hrepo
    obtain rfl : batch = r'.items.keys.filter (keyBefore timestamp) := hbatch batch rfl
    simp only [deleteRest_eq]
    by_cases hnil : r'.items.keys.filter (keyBefore timestamp) = []
    · rw [hnil]
      rfl
    · rw [if_neg hnil, decide_eq_false hnil]
      rfl

end

/-! ### Chunking -/

/-- Cutting into slices loses nothing and keeps the order. -/
theorem flatten_chunks (items : List (String × T)) : (chunks items).flatten = items := by
  have htake (n : ℕ) : ((List.range n).map fun i ↦ (items.drop (100 * i)).take 100).flatten =
        items.take (100 * n) := by
    induction n with
    | zero => simp
    | succ n ih =>
      rw [range_succ, map_append, flatten_append, ih, Nat.mul_succ, take_add]
      simp
  rw [chunks, htake, take_of_length_le]
  omega

/-- What a call stores, as one list of writes. -/
theorem items_foldl_setChunk (r : TimelineRepository T) (cs : List (List (String × T))) :
    (cs.foldl (setChunk time) r).items = r.items.setAll (cs.flatten.map (keyed time)) := by
  induction cs generalizing r with
  | nil => rfl
  | cons c cs ih =>
    rw [foldl_cons, ih, flatten_cons, map_append, OrderedStore.setAll_append]
    rfl

/-- The items that a call stores. -/
def written (items : List (String × T)) (failAt : Option ℕ) : List (String × T) :=
  (committed items failAt).flatten

theorem setMany_items (r : TimelineRepository T) (items : List (String × T)) (failAt : Option ℕ) :
    (setMany time r items failAt).2.items =
      r.items.setAll ((written items failAt).map (keyed time)) :=
  items_foldl_setChunk time r (committed items failAt)

/-- A call stores the items up to the chunk that fails. -/
theorem written_append (items : List (String × T)) (failAt : Option ℕ) :
    ∃ rest, items = written items failAt ++ rest := by
  cases failAt with
  | none => exact ⟨[], by rw [written, committed, flatten_chunks, append_nil]⟩
  | some i =>
    refine ⟨((chunks items).drop i).flatten, ?_⟩
    rw [written, committed, ← flatten_append, take_append_drop, flatten_chunks]

/-- A call that resolves has stored every item. -/
theorem written_of_setMany {r : TimelineRepository T} {items : List (String × T)}
    {failAt : Option ℕ} (h : (setMany time r items failAt).1 = true) :
    written items failAt = items := by
  cases failAt with
  | none => exact flatten_chunks items
  | some i =>
    have hlen : ((chunks items).take i).length = (chunks items).length := of_decide_eq_true h
    have hall : (chunks items).take i = chunks items := by
      apply take_of_length_le
      rw [length_take] at hlen
      omega
    rw [written, committed, hall, flatten_chunks]

end TimelineRepository

/-! ### The audit repository -/

/-- The repository of audit events. -/
abbrev KvAuditRepository := TimelineRepository AuditEvent

/-- The time part of an event's key. -/
def Ports.time (p : Ports) (e : AuditEvent) : WithTop ℤ := p.getTime e.timestamp

/-- The key of an event. -/
def Ports.key (p : Ports) (e : AuditEvent) : TimelineKey := toLex (p.time e, e.id)

/-- `save`, when its commit succeeds. -/
def Ports.save (p : Ports) (r : KvAuditRepository) (e : AuditEvent) : KvAuditRepository :=
  r.set p.time e.id e

/-- `saveMany`; the Boolean says whether the call resolved. -/
def Ports.saveMany (p : Ports) (r : KvAuditRepository) (es : List AuditEvent)
    (failAt : Option ℕ) : Bool × KvAuditRepository :=
  r.setMany p.time (es.map fun e ↦ (e.id, e)) failAt

/-- The entries that writing `es` makes. -/
def Ports.keyed (p : Ports) (es : List AuditEvent) : List (TimelineKey × AuditEvent) :=
  es.map fun e ↦ (p.key e, e)

theorem Ports.save_items (p : Ports) (r : KvAuditRepository) (e : AuditEvent) :
    (p.save r e).items = r.items.set (p.key e) e := rfl

/-- Saving one event after the other, as one list of writes. -/
theorem Ports.items_foldl_save (p : Ports) (r : KvAuditRepository) (es : List AuditEvent) :
    (es.foldl p.save r).items = r.items.setAll (p.keyed es) := by
  induction es generalizing r with
  | nil => rfl
  | cons e es ih =>
    rw [foldl_cons, ih]
    rfl

/-- The events of a batch that `saveMany` stores. -/
def written (es : List AuditEvent) (failAt : Option ℕ) : List AuditEvent :=
  (TimelineRepository.written (es.map fun e ↦ (e.id, e)) failAt).map Prod.snd

theorem Ports.saveMany_items (p : Ports) (r : KvAuditRepository) (es : List AuditEvent)
    (failAt : Option ℕ) :
    (p.saveMany r es failAt).2.items = r.items.setAll (p.keyed (written es failAt)) := by
  obtain ⟨rest, hrest⟩ := TimelineRepository.written_append (es.map fun e ↦ (e.id, e)) failAt
  have hids : ∀ item ∈ TimelineRepository.written (es.map fun e ↦ (e.id, e)) failAt,
      item.1 = item.2.id := by
    intro item hitem
    have hmem := mem_append_left rest hitem
    rw [← hrest] at hmem
    obtain ⟨e, -, rfl⟩ := List.mem_map.1 hmem
    rfl
  rw [saveMany, TimelineRepository.setMany_items, keyed, written, List.map_map]
  congr 1
  refine map_congr_left fun item hitem ↦ ?_
  show (toLex (p.time item.2, item.1), item.2) = (toLex (p.time item.2, item.2.id), item.2)
  rw [hids item hitem]

theorem written_append (es : List AuditEvent) (failAt : Option ℕ) :
    ∃ rest, es = written es failAt ++ rest := by
  obtain ⟨rest, hrest⟩ := TimelineRepository.written_append (es.map fun e ↦ (e.id, e)) failAt
  refine ⟨rest.map Prod.snd, ?_⟩
  rw [written, ← map_append, ← hrest, List.map_map]
  exact (List.map_id es).symm

theorem Ports.written_of_saveMany {p : Ports} {r : KvAuditRepository} {es : List AuditEvent}
    {failAt : Option ℕ} (h : (p.saveMany r es failAt).1 = true) : written es failAt = es := by
  rw [written, TimelineRepository.written_of_setMany p.time h, List.map_map]
  exact List.map_id es

theorem Ports.saveMany_none (p : Ports) (r : KvAuditRepository) (es : List AuditEvent) :
    (p.saveMany r es none).1 = true :=
  decide_eq_true rfl

theorem written_zero (es : List AuditEvent) : written es (some 0) = [] := rfl

end Audit
