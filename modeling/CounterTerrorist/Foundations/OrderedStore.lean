import Mathlib.Data.List.Induction
import Mathlib.Data.List.Nodup
import Mathlib.Data.List.Sort
import Mathlib.Data.Finset.Card
import Mathlib.Tactic.Linarith

/-!
# An ordered key-value store

A finite map that is read in key order. The entries are kept as a list, and that the list is
strictly increasing in the key is a field, so a store with two values under one key cannot be
built.

`set` overwrites. The two facts a client needs about it are which entries it leaves (`mem_set`) and
that a key above all stored ones is appended at the end (`entries_set_of_lt`). The second one turns
the key order into the order of insertion, for a client that writes with growing keys
(`entries_setAll`). A client that counts its writes counts the entries only if every key is new
(`length_setAll`, `length_setAll_of_fresh`).
-/

/-! ### Sorted lists -/

namespace SortedList

open List

variable {α : Type*} {R : α → α → Prop} [DecidableRel R] [Std.Asymm R] {l : List α} {x : α}

/-- A sorted list is what comes before one of its elements, the element, and what comes after. -/
theorem eq_append_cons (hl : l.Pairwise R) (hx : x ∈ l) :
    l = l.filter (fun y ↦ R y x) ++ x :: l.filter (fun y ↦ R x y) := by
  obtain ⟨as, bs, rfl⟩ := append_of_mem hx
  obtain ⟨-, hbs, has⟩ := pairwise_append.1 hl
  have hx : ¬R x x := irrefl x
  have hbefore (a) (ha : a ∈ as) : R a x ∧ ¬R x a :=
    have h := has a ha x mem_cons_self
    ⟨h, asymm h⟩
  have hafter (b) (hb : b ∈ bs) : R x b ∧ ¬R b x :=
    have h := rel_of_pairwise_cons hbs hb
    ⟨h, asymm h⟩
  have h₁ : as.filter (fun y ↦ R y x) = as :=
    filter_eq_self.2 fun a ha ↦ decide_eq_true (hbefore a ha).1
  have h₂ : as.filter (fun y ↦ R x y) = [] :=
    filter_eq_nil_iff.2 fun a ha ↦ by simpa using (hbefore a ha).2
  have h₃ : bs.filter (fun y ↦ R y x) = [] :=
    filter_eq_nil_iff.2 fun b hb ↦ by simpa using (hafter b hb).2
  have h₄ : bs.filter (fun y ↦ R x y) = bs :=
    filter_eq_self.2 fun b hb ↦ decide_eq_true (hafter b hb).1
  simp [h₁, h₂, h₃, h₄, hx]

/-- An element is among the first `n` when fewer than `n` come before it. -/
theorem mem_take_iff (hl : l.Pairwise R) (hx : x ∈ l) {n : ℕ} :
    x ∈ l.take n ↔ (l.filter fun y ↦ R y x).length < n := by
  have hsplit := eq_append_cons hl hx
  have hnot : x ∉ l.filter fun y ↦ R y x := by simp [irrefl x]
  generalize l.filter (fun y ↦ R y x) = as at *
  rw [hsplit, take_append, mem_append]
  constructor
  · rintro (hmem | hmem)
    · exact absurd (mem_of_mem_take hmem) hnot
    · by_contra hle
      rw [Nat.sub_eq_zero_of_le (Nat.le_of_not_lt hle)] at hmem
      cases hmem
  · intro hlt
    obtain ⟨k, hk⟩ := Nat.exists_eq_succ_of_ne_zero (Nat.sub_ne_zero_of_lt hlt)
    rw [hk]
    exact .inr mem_cons_self

omit [DecidableRel R] in
/-- A sorted list contains another one in its order when that one is sorted too. -/
theorem sublist_iff (hl : l.Pairwise R) {d : List α} :
    d.Sublist l ↔ d.Pairwise R ∧ ∀ x ∈ d, x ∈ l := by
  refine ⟨fun h ↦ ⟨hl.sublist h, fun x hx ↦ h.subset hx⟩, fun ⟨hd, hsub⟩ ↦ ?_⟩
  exact sublist_of_subperm_of_pairwise (subperm_of_subset hd.nodup hsub) hd hl

end SortedList

/-! ### The store -/

/-- A finite map, in key order. -/
structure OrderedStore (K V : Type*) [LinearOrder K] where
  /-- The entries, smallest key first. -/
  entries : List (K × V)
  /-- Keys are strictly increasing. -/
  sorted : entries.Pairwise fun a b ↦ a.1 < b.1

namespace OrderedStore

open List

variable {K V : Type*} [LinearOrder K]

/-- The store without entries. -/
def empty : OrderedStore K V := ⟨[], List.Pairwise.nil⟩

/-- Write `v` under `k`, replacing what was there. -/
def set (s : OrderedStore K V) (k : K) (v : V) : OrderedStore K V where
  entries := s.entries.filter (fun e ↦ decide (e.1 < k)) ++
    (k, v) :: s.entries.filter fun e ↦ decide (k < e.1)
  sorted := by
    refine List.pairwise_append.2 ⟨s.sorted.filter _,
      List.pairwise_cons.2 ⟨fun e he ↦ ?_, s.sorted.filter _⟩, fun a ha b hb ↦ ?_⟩
    · exact of_decide_eq_true (List.mem_filter.1 he).2
    · have hak : a.1 < k := of_decide_eq_true (List.mem_filter.1 ha).2
      rcases List.mem_cons.1 hb with rfl | hb
      · exact hak
      · exact hak.trans (of_decide_eq_true (List.mem_filter.1 hb).2)

/-- Write a list of entries, first to last. -/
def setAll (s : OrderedStore K V) (kvs : List (K × V)) : OrderedStore K V :=
  kvs.foldl (fun s e ↦ s.set e.1 e.2) s

/-- Remove the `n` entries with the smallest keys. -/
def drop (s : OrderedStore K V) (n : ℕ) : OrderedStore K V where
  entries := s.entries.drop n
  sorted := s.sorted.drop

/-- Remove the entries under the given keys. -/
def eraseAll (s : OrderedStore K V) (ks : List K) : OrderedStore K V where
  entries := s.entries.filter fun e ↦ decide (e.1 ∉ ks)
  sorted := s.sorted.filter _

/-- The values, smallest key first. -/
def values (s : OrderedStore K V) : List V := s.entries.map Prod.snd

/-- The keys, smallest first. -/
def keys (s : OrderedStore K V) : List K := s.entries.map Prod.fst

/-- The entries after a key; all of them without one. -/
def above (s : OrderedStore K V) (after : Option K) : List (K × V) :=
  s.entries.filter fun e ↦ after.all fun k ↦ decide (k < e.1)

/-- The last key of a page of entries, or where the listing was before it. -/
def cursor (page : List (K × V)) (after : Option K) : Option K :=
  (page.getLast?.map Prod.fst).or after

@[simp] theorem entries_empty : (empty : OrderedStore K V).entries = [] := rfl

@[simp] theorem setAll_nil (s : OrderedStore K V) : s.setAll [] = s := rfl

@[simp] theorem setAll_cons (s : OrderedStore K V) (e : K × V) (kvs : List (K × V)) :
    s.setAll (e :: kvs) = (s.set e.1 e.2).setAll kvs := rfl

theorem setAll_append (s : OrderedStore K V) (kvs kvs' : List (K × V)) :
    s.setAll (kvs ++ kvs') = (s.setAll kvs).setAll kvs' := foldl_append

variable {s : OrderedStore K V} {k : K} {v : V} {e : K × V} {kvs : List (K × V)}

/-- What a write leaves: its own entry, and every entry under another key. -/
theorem mem_set : e ∈ (s.set k v).entries ↔ e = (k, v) ∨ (e.1 ≠ k ∧ e ∈ s.entries) := by
  simp only [set, mem_append, mem_cons, mem_filter, decide_eq_true_eq]
  constructor
  · rintro (⟨hmem, hlt⟩ | rfl | ⟨hmem, hlt⟩)
    · exact .inr ⟨hlt.ne, hmem⟩
    · exact .inl rfl
    · exact .inr ⟨hlt.ne', hmem⟩
  · rintro (rfl | ⟨hne, hmem⟩)
    · exact .inr (.inl rfl)
    · rcases lt_or_gt_of_ne hne with hlt | hgt
      · exact .inl ⟨hmem, hlt⟩
      · exact .inr (.inr ⟨hmem, hgt⟩)

theorem mem_eraseAll {ks : List K} : e ∈ (s.eraseAll ks).entries ↔ e ∈ s.entries ∧ e.1 ∉ ks := by
  rw [eraseAll, mem_filter, decide_eq_true_eq]

/-- A key above all stored ones is appended. -/
theorem entries_set_of_lt (h : ∀ e ∈ s.entries, e.1 < k) :
    (s.set k v).entries = s.entries ++ [(k, v)] := by
  have hbelow : s.entries.filter (fun e ↦ decide (e.1 < k)) = s.entries :=
    filter_eq_self.2 fun e he ↦ decide_eq_true (h e he)
  have habove : s.entries.filter (fun e ↦ decide (k < e.1)) = [] :=
    filter_eq_nil_iff.2 fun e he ↦ by simpa using (h e he).le
  show s.entries.filter _ ++ (k, v) :: s.entries.filter _ = _
  rw [hbelow, habove]

/-- Writing with growing keys, all above the stored ones, appends in the order of writing. -/
theorem entries_setAll (hgrow : kvs.Pairwise fun a b ↦ a.1 < b.1)
    (habove : ∀ e ∈ s.entries, ∀ f ∈ kvs, e.1 < f.1) :
    (s.setAll kvs).entries = s.entries ++ kvs := by
  induction kvs generalizing s with
  | nil => simp
  | cons f kvs ih =>
    obtain ⟨hf, hgrow⟩ := pairwise_cons.1 hgrow
    have hset := entries_set_of_lt (s := s) (k := f.1) (v := f.2) fun e he ↦ habove e he f (by simp)
    rw [setAll_cons, ih hgrow, hset, append_assoc]
    · rfl
    · intro e he g hg
      rw [hset] at he
      rcases mem_append.1 he with he | he
      · exact habove e he g (mem_cons_of_mem _ hg)
      · obtain rfl := mem_singleton.1 he
        exact hf g hg

/-! ### Listing in pages -/

@[simp] theorem above_none (s : OrderedStore K V) : s.above none = s.entries :=
  filter_eq_self.2 fun _ _ ↦ rfl

/-- Reading on behind a page yields what the page left over. -/
theorem above_cursor (s : OrderedStore K V) (after : Option K) (n : ℕ) :
    s.above (cursor ((s.above after).take n) after) = (s.above after).drop n := by
  rcases eq_nil_or_concat ((s.above after).take n) with hnil | ⟨page, last, hpage⟩
  · -- an empty page does not move the listing
    rw [hnil]
    rcases take_eq_nil_iff.1 hnil with rfl | hempty
    · rfl
    · rw [hempty, drop_nil]
      exact hempty
  · have hsplit : s.above after = page ++ last :: (s.above after).drop n := by
      conv_lhs => rw [← take_append_drop n (s.above after), hpage]
      simp
    have hcursor : cursor ((s.above after).take n) after = some last.1 := by
      rw [hpage, concat_eq_append, cursor, getLast?_concat]
      rfl
    have hsort : (s.above after).Pairwise fun a b ↦ a.1 < b.1 := s.sorted.filter _
    rw [hsplit, pairwise_append, pairwise_cons] at hsort
    obtain ⟨-, ⟨hbehind, -⟩, hbefore⟩ := hsort
    -- behind the last key of the page is behind where the page began
    have hafter : after.all (fun k ↦ decide (k < last.1)) = true := by
      have hlast : last ∈ s.above after := by
        rw [hsplit]
        simp
      exact (mem_filter.1 hlast).2
    have hfilter : s.above (some last.1) =
        (s.above after).filter fun e ↦ decide (last.1 < e.1) := by
      rw [above, above, List.filter_filter]
      refine filter_congr fun e _ ↦ ?_
      by_cases hlt : last.1 < e.1
      · cases after with
        | none => simp
        | some k =>
          have hk : k < e.1 := (of_decide_eq_true hafter).trans hlt
          simp [hk]
      · simp [hlt]
    rw [hcursor, hfilter]
    conv_lhs => rw [hsplit]
    rw [filter_append, filter_cons_of_neg (by simp),
      filter_eq_nil_iff.2 fun e he ↦ by simpa using (hbefore e he last (by simp)).le,
      filter_eq_self.2 fun e he ↦ decide_eq_true (hbehind e he), nil_append]

/-! ### The number of entries -/

theorem keys_nodup (s : OrderedStore K V) : s.keys.Nodup :=
  pairwise_map.2 (s.sorted.imp fun h ↦ h.ne)

theorem length_keys (s : OrderedStore K V) : s.keys.length = s.entries.length := length_map ..

theorem mem_keys_set {k' : K} : k' ∈ (s.set k v).keys ↔ k' = k ∨ k' ∈ s.keys := by
  simp only [keys, List.mem_map, mem_set]
  constructor
  · rintro ⟨e, rfl | ⟨-, he⟩, rfl⟩
    · exact .inl rfl
    · exact .inr ⟨e, he, rfl⟩
  · rintro (rfl | ⟨e, he, rfl⟩)
    · exact ⟨_, .inl rfl, rfl⟩
    · by_cases hk : e.1 = k
      · exact ⟨(k, v), .inl rfl, hk.symm⟩
      · exact ⟨e, .inr ⟨hk, he⟩, rfl⟩

theorem mem_keys_setAll : k ∈ (s.setAll kvs).keys ↔ k ∈ kvs.map Prod.fst ∨ k ∈ s.keys := by
  induction kvs generalizing s with
  | nil => simp
  | cons f kvs ih =>
    rw [setAll_cons, ih, mem_keys_set, map_cons, mem_cons]
    tauto

/-- The number of entries after some writes: keys count once, however often they are written. -/
theorem length_setAll (s : OrderedStore K V) (kvs : List (K × V)) :
    (s.setAll kvs).entries.length = (s.keys.toFinset ∪ (kvs.map Prod.fst).toFinset).card := by
  rw [← length_keys, ← toFinset_card_of_nodup (keys_nodup _)]
  congr 1
  ext k
  rw [Finset.mem_union, List.mem_toFinset, List.mem_toFinset, List.mem_toFinset, mem_keys_setAll]
  exact or_comm

/-- Writes to distinct keys, none of them stored, add one entry each. -/
theorem length_setAll_of_fresh (hnodup : (kvs.map Prod.fst).Nodup)
    (hfresh : ∀ k ∈ kvs.map Prod.fst, k ∉ s.keys) :
    (s.setAll kvs).entries.length = s.entries.length + kvs.length := by
  have hdisj : Disjoint s.keys.toFinset (kvs.map Prod.fst).toFinset := by
    rw [Finset.disjoint_left]
    intro k hk hk'
    exact hfresh k (List.mem_toFinset.1 hk') (List.mem_toFinset.1 hk)
  rw [length_setAll, Finset.card_union_of_disjoint hdisj,
    toFinset_card_of_nodup (keys_nodup s), toFinset_card_of_nodup hnodup, length_keys,
    length_map]

/-- Writing what is there changes nothing. -/
theorem set_of_mem (h : (k, v) ∈ s.entries) : s.set k v = s := by
  have hsplit := SortedList.eq_append_cons s.sorted h
  rcases s with ⟨entries, sorted⟩
  exact (OrderedStore.mk.injEq ..).mpr hsplit.symm

/-- Writing anything else shows in the values. -/
theorem values_set_eq_iff : (s.set k v).values = s.values ↔ (k, v) ∈ s.entries := by
  refine ⟨fun h ↦ ?_, fun h ↦ by rw [set_of_mem h]⟩
  by_cases hk : k ∈ s.keys
  · obtain ⟨⟨k, w⟩, hmem, rfl⟩ := List.mem_map.1 hk
    have hsplit := congrArg (List.map Prod.snd) (SortedList.eq_append_cons s.sorted hmem)
    rw [values, values, hsplit, set, map_append, map_append] at h
    obtain rfl : v = w := (List.cons.inj (append_cancel_left h)).1
    exact hmem
  · -- The length shows that a key has been added.
    have hlen : (s.setAll [(k, v)]).entries.length = s.entries.length + 1 :=
      length_setAll_of_fresh (nodup_singleton k) (forall_mem_singleton.2 hk)
    have hvals := congrArg List.length h
    rw [values, values, length_map, length_map] at hvals
    rw [setAll_cons, setAll_nil, hvals] at hlen
    omega

/-- Writes to distinct keys, none of them stored, leave what was there and what was written. -/
theorem mem_setAll_of_fresh (hnodup : (kvs.map Prod.fst).Nodup)
    (hfresh : ∀ k ∈ kvs.map Prod.fst, k ∉ s.keys) :
    e ∈ (s.setAll kvs).entries ↔ e ∈ kvs ∨ e ∈ s.entries := by
  induction kvs generalizing s with
  | nil => simp
  | cons f kvs ih =>
    rw [map_cons, nodup_cons] at hnodup
    have hfresh' : ∀ k ∈ kvs.map Prod.fst, k ∉ (s.set f.1 f.2).keys := by
      intro k hk hstored
      rcases mem_keys_set.1 hstored with rfl | hold
      · exact hnodup.1 hk
      · exact hfresh k (mem_cons_of_mem _ hk) hold
    have hkeep : e ∈ s.entries → e.1 ≠ f.1 := by
      intro he heq
      exact hfresh f.1 mem_cons_self (heq ▸ List.mem_map_of_mem he)
    rw [setAll_cons, ih hnodup.2 hfresh', mem_set, mem_cons]
    tauto

/-- The value that a list of writes leaves under `k`, if it writes `k` at all. -/
def lastWrite (kvs : List (K × V)) (k : K) : Option V :=
  ((kvs.filter fun e ↦ decide (e.1 = k)).getLast?).map Prod.snd

theorem lastWrite_concat (kvs : List (K × V)) (f : K × V) (k : K) :
    lastWrite (kvs ++ [f]) k = if f.1 = k then some f.2 else lastWrite kvs k := by
  by_cases hk : f.1 = k <;> simp [hk, lastWrite]

/-- What a list of writes leaves: the last value written under a key, and the old entry under a key
that is not written. -/
theorem mem_setAll : e ∈ (s.setAll kvs).entries ↔
      lastWrite kvs e.1 = some e.2 ∨ (lastWrite kvs e.1 = none ∧ e ∈ s.entries) := by
  induction kvs using List.reverseRecOn with
  | nil => simp [lastWrite]
  | append_singleton kvs f ih =>
    rw [setAll_append, setAll_cons, setAll_nil, mem_set, ih, lastWrite_concat]
    by_cases hk : f.1 = e.1
    · -- the last write is to this key, so it alone decides
      rw [if_pos hk]
      constructor
      · rintro (rfl | ⟨hne, -⟩)
        · exact .inl rfl
        · exact absurd hk.symm hne
      · rintro (heq | ⟨hnone, -⟩)
        · exact .inl (Prod.ext hk.symm (Option.some.inj heq).symm)
        · exact nomatch hnone
    · rw [if_neg hk]
      constructor
      · rintro (rfl | ⟨-, hmem⟩)
        · exact absurd rfl hk
        · exact hmem
      · exact fun hmem ↦ .inr ⟨fun heq ↦ hk heq.symm, hmem⟩

/-- An entry was written or was there before. -/
theorem mem_of_mem_setAll (h : e ∈ (s.setAll kvs).entries) : e ∈ kvs ∨ e ∈ s.entries := by
  induction kvs generalizing s with
  | nil => exact .inr h
  | cons f kvs ih =>
    rcases ih h with hmem | hmem
    · exact .inl (mem_cons_of_mem f hmem)
    · rcases mem_set.1 hmem with rfl | ⟨-, hmem⟩
      · exact .inl mem_cons_self
      · exact .inr hmem

end OrderedStore
