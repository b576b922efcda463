import CounterTerrorist.Audit.Repository
import CounterTerrorist.Foundations.Run

/-!
# The entry counter of a timeline repository

A timeline repository keeps the number of its entries beside them. `set` and `setMany` add the
number of items of a transaction to it, in that transaction. When there is no counter yet, `count`
lists the entries and stores what it found.

## Calls in flight

Calls overlap at their await points. As for the audit service, the suspended calls are part of the
state, and a step is a call from outside or the resumption of a suspended call (`Timeline.step`).
Labels say which call goes on and how the awaited operation ended.

* A listing is read in pages, each a snapshot, so the store may change while `count` counts. How
  large the pages are is left to the labels.
* `kv.get` reads at one time and is looked at later, so these are two steps (`getting`, `got`).
* What `count` stores is not checked against the counter it was going to replace.

A call that `checkWritePermission` refuses has no effect and is left out, and so are the results of
all calls but `count`.

## When the counter is right

It goes wrong in two ways: a transaction writes a key that is stored already, or one key twice, and
is counted all the same; or it lands while `count` is listing, or where entries have no counter yet.
`countsRight` excludes these, and then `count` is right (`count_eq_length`).
-/

namespace Audit

open Machine Option

namespace TimelineRepository

/-- `Number` of a 64-bit value: exact up to `2 ^ 53`, above that the nearest double, ties to an even
significand. -/
def toNumber (n : ℕ) : ℕ :=
  if n ≤ 2 ^ 53 then n
  else
    let unit := 2 ^ (Nat.log2 n - 52)
    let quotient := n / unit
    let up := 2 * (n % unit) > unit ∨ (2 * (n % unit) = unit ∧ quotient % 2 = 1)
    unit * (if up then quotient + 1 else quotient)

end TimelineRepository

open TimelineRepository

/-! ### Calls -/

/-- A suspended call, by what it waits for. -/
inductive TimelineCall (T : Type)
  /-- `set` or `setMany`: the commit of a chunk, with more chunks to come. A call of more than one
  chunk yields to the event loop after each of them. -/
  | committing (chunk : List (String × T)) (rest : List (List (String × T))) (yields : Bool)
  /-- `setMany`: the timer between two chunks. -/
  | yielding (rest : List (List (String × T)))
  /-- `deleteBefore`: the next page of the listing. -/
  | listing (timestamp : ℤ) (after : Option TimelineKey) (batch : List TimelineKey)
  /-- `count`: `kv.get`, not executed yet. -/
  | getting
  /-- `count`: `kv.get`, executed with this result. -/
  | got (value : Option UInt64)
  /-- `count`: the next page of the listing. -/
  | scanning (count : ℕ) (after : Option TimelineKey)
  /-- `count`: `kv.set` of the counter, not executed yet. -/
  | storing (count : ℕ)
  /-- `count`: `kv.set` of the counter, executed. -/
  | stored (count : ℕ)

/-- What the awaited operation did. -/
inductive TimelineReply
  /-- A transaction was committed. -/
  | committed
  /-- An operation failed without effect; the call is rejected. -/
  | refused
  /-- `kv.get` was executed. -/
  | read
  /-- A page of a listing arrived; `last` says that there is no more. -/
  | fetched (size : ℕ) (last : Bool)
  /-- The result of an executed operation, or a timer, reached the call. -/
  | resumed
deriving Repr, DecidableEq

/-- What all calls share. -/
structure TimelineShared (T : Type) where
  repo : TimelineRepository T
  isCounting : Bool

/-- How a resumed call leaves things: suspended again or ended, and what `count` returned. -/
structure TimelineOutcome (T : Type) where
  shared : TimelineShared T
  next : Option (TimelineCall T)
  returned : Option ℕ

namespace TimelineCall

variable {T : Type} (time : T → WithTop ℤ)

/-- The commit of the next chunk, if there is one. -/
def nextChunk (rest : List (List (String × T))) (yields : Bool) : Option (TimelineCall T) :=
  match rest with
  | chunk :: rest => some (.committing chunk rest yields)
  | [] => none

/-- A page of `deleteBefore`. -/
def listPage (shared : TimelineShared T) (timestamp : ℤ) (after : Option TimelineKey)
    (batch : List TimelineKey) (size : ℕ) (last : Bool) : Option (TimelineOutcome T) :=
  let left := (shared.repo.items.above after).filter fun e ↦ keyBefore timestamp e.1
  let page := left.take size
  if last = true ∧ page.length < left.length then none
  else
    match deleteKeys shared.repo batch (page.map Prod.fst) with
    | (none, repo) => some ⟨{ shared with repo }, none, none⟩
    | (some batch, repo) =>
      if last then some ⟨{ shared with repo := (deleteRest repo batch).2 }, none, none⟩
      else
        some ⟨{ shared with repo },
          some (.listing timestamp (OrderedStore.cursor page after) batch), none⟩

/-- A page of `count`. -/
def scanPage (shared : TimelineShared T) (count : ℕ) (after : Option TimelineKey) (size : ℕ)
    (last : Bool) : Option (TimelineOutcome T) :=
  let left := shared.repo.items.above after
  let page := left.take size
  if last then
    if page.length < left.length then none
    else some ⟨shared, some (.storing (count + page.length)), none⟩
  else
    some ⟨shared, some (.scanning (count + page.length) (OrderedStore.cursor page after)), none⟩

/-- Go on with a suspended call. -/
def resume (shared : TimelineShared T) :
    TimelineCall T → TimelineReply → Option (TimelineOutcome T)
  | .committing chunk rest yields, .committed =>
    some ⟨{ shared with repo := setChunk time shared.repo chunk },
      if yields then some (.yielding rest) else nextChunk rest yields, none⟩
  | .yielding rest, .resumed => some ⟨shared, nextChunk rest true, none⟩
  | .listing timestamp after batch, .fetched size last =>
    listPage shared timestamp after batch size last
  | .getting, .read => some ⟨shared, some (.got shared.repo.count), none⟩
  | .got (some value), .resumed => some ⟨shared, none, some (toNumber value.toNat)⟩
  | .got none, .resumed =>
    if shared.isCounting then some ⟨shared, none, some 0⟩
    else some ⟨{ shared with isCounting := true }, some (.scanning 0 none), none⟩
  | .scanning count after, .fetched size last => scanPage shared count after size last
  -- the counter that may be there by now is replaced unseen
  | .storing count, .committed =>
    some ⟨{ shared with repo := { shared.repo with count := some (UInt64.ofNat count) } },
      some (.stored count), none⟩
  | .stored count, .resumed => some ⟨{ shared with isCounting := false }, none, some count⟩
  -- `finally`
  | .scanning .., .refused | .storing _, .refused =>
    some ⟨{ shared with isCounting := false }, none, none⟩
  | .committing .., .refused | .listing .., .refused | .getting, .refused =>
    some ⟨shared, none, none⟩
  | _, _ => none

/-- Between listing and storing. -/
def recounts : TimelineCall T → Bool
  | scanning .. | storing _ => true
  | _ => false

/-- While `isCounting` is set. -/
def counts : TimelineCall T → Bool
  | scanning .. | storing _ | stored _ => true
  | _ => false

end TimelineCall

/-- A repository with its calls in flight, and what `count` has returned so far. -/
structure Timeline (T : Type) where
  shared : TimelineShared T
  calls : List (TimelineCall T)
  counted : List ℕ

/-- Calls from outside, and resumptions. -/
inductive TimelineAction (T : Type)
  | set (id : String) (data : T)
  | setMany (items : List (String × T))
  | deleteBefore (timestamp : ℤ)
  | count
  | resume (i : ℕ) (reply : TimelineReply)

namespace Timeline

variable {T : Type} (time : T → WithTop ℤ)

/-- A repository without calls in flight. -/
def start (r : TimelineRepository T) : Timeline T := ⟨⟨r, false⟩, [], []⟩

/-- A call begins and waits. -/
def begin (s : Timeline T) (call : TimelineCall T) : Timeline T :=
  { s with calls := s.calls ++ [call] }

/-- Call `i` goes on. -/
def proceed (s : Timeline T) (i : ℕ) (out : TimelineOutcome T) : Timeline T where
  shared := out.shared
  calls :=
    match out.next with
    | some call => s.calls.set i call
    | none => s.calls.eraseIdx i
  counted := s.counted ++ out.returned.toList

/-- One step. -/
def step (s : Timeline T) : TimelineAction T → Option (Timeline T)
  | .set id data => some (s.begin (.committing [(id, data)] [] false))
  | .setMany items =>
    match TimelineCall.nextChunk (chunks items) (decide (items.length > 100)) with
    | some call => some (s.begin call)
    | none => some s
  | .deleteBefore timestamp => some (s.begin (.listing timestamp none []))
  | .count => some (s.begin .getting)
  | .resume i reply =>
    s.calls[i]?.bind fun call ↦ (call.resume time s.shared reply).map (s.proceed i)

/-- A transaction can be counted: its keys are new and different from each other, no listing for the
counter is under way, there is a counter to add to unless the store is empty, and the number of
entries stays in the range in which numbers are exact. -/
def countable (s : Timeline T) (chunk : List (String × T)) : Bool :=
  decide ((chunk.map (keyed time)).map Prod.fst).Nodup &&
    (chunk.map (keyed time)).all (fun e ↦ decide (e.1 ∉ s.shared.repo.items.keys)) &&
    s.calls.all (fun call ↦ !call.recounts) &&
    (s.shared.repo.count.isSome || s.shared.repo.items.entries.isEmpty) &&
    decide (s.shared.repo.items.entries.length + chunk.length ≤ 2 ^ 53)

/-- The step commits no transaction, or one that can be counted. -/
def countsRight (s : Timeline T) : TimelineAction T → Bool
  | .resume i .committed =>
    match s.calls[i]? with
    | some (.committing chunk _ _) => s.countable time chunk
    | _ => true
  | _ => true

end Timeline

/-! ### What a resumed call does -/

/-- The counter, if there is one, is the number of entries, and numbers of that size are exact. -/
structure TimelineRepository.Accurate {T : Type} (r : TimelineRepository T) : Prop where
  bound : r.items.entries.length ≤ 2 ^ 53
  counter : ∀ c, r.count = some c → c.toNat = r.items.entries.length

theorem TimelineRepository.toNumber_of_le {n : ℕ} (h : n ≤ 2 ^ 53) : toNumber n = n := if_pos h

namespace TimelineCall

variable {T : Type} {time : T → WithTop ℤ} {shared : TimelineShared T} {call : TimelineCall T}
  {reply : TimelineReply} {out : TimelineOutcome T}

/-- A listing for the counter has counted what it has yielded, and what is about to be stored is the
number of entries. -/
def Ok (items : OrderedStore TimelineKey T) : TimelineCall T → Prop
  | scanning count after => count + (items.above after).length = items.entries.length
  | storing count => count = items.entries.length
  | _ => True

theorem ok_of_not_recounts (items : OrderedStore TimelineKey T) (h : call.recounts = false) :
    call.Ok items := by
  cases call with
  | scanning | storing => cases h
  | _ => trivial

theorem counts_of_recounts (h : call.recounts = true) : call.counts = true := by
  cases call with
  | scanning | storing => rfl
  | _ => cases h

/-- What a resumption keeps, when a commit can be counted. -/
structure Resumed (shared : TimelineShared T) (call : TimelineCall T) (reply : TimelineReply)
    (out : TimelineOutcome T) : Prop where
  accurate : out.shared.repo.Accurate
  next : ∀ c, out.next = some c → c.Ok out.shared.repo.items
  /-- Entries only change in a transaction. -/
  items : out.shared.repo.items = shared.repo.items ∨
    reply = .committed ∧ ∃ chunk rest yields, call = .committing chunk rest yields
  /-- The flag is set by a call that goes on counting, or was set by another call. -/
  flag : out.shared.isCounting = true → (∃ c, out.next = some c ∧ c.counts = true) ∨
    (shared.isCounting = true ∧ call.counts = false)

variable {returned : Option ℕ} {after : Option TimelineKey} {r : TimelineRepository T}

/-- A resumption that changes nothing shared and does not count. -/
theorem Resumed.of_idle {next : Option (TimelineCall T)} (hr : shared.repo.Accurate)
    (hnext : ∀ c, next = some c → c.recounts = false) (hcall : call.counts = false) :
    Resumed shared call reply ⟨shared, next, returned⟩ where
  accurate := hr
  next c hc := ok_of_not_recounts _ (hnext c hc)
  items := .inl rfl
  flag hflag := .inr ⟨hflag, hcall⟩

/-- The end of a call that does not count. -/
theorem Resumed.of_done (hr : shared.repo.Accurate) (hcall : call.counts = false) :
    Resumed shared call reply ⟨shared, none, returned⟩ :=
  .of_idle hr nofun hcall

variable {c : TimelineCall T} {size : ℕ} {last : Bool}

/-- A resumption that goes on counting. -/
theorem Resumed.of_counts (hr : out.shared.repo.Accurate)
    (hitems : out.shared.repo.items = shared.repo.items) (hnext : out.next = some c)
    (hc : c.Ok out.shared.repo.items) (hcnts : c.counts = true) :
    Resumed shared call reply out where
  accurate := hr
  next _ hc' := some.inj (hnext.symm.trans hc') ▸ hc
  items := .inl hitems
  flag _ := .inl ⟨c, hnext, hcnts⟩

/-- The end of a call that counts clears the flag. -/
theorem Resumed.of_finally (hr : shared.repo.Accurate) :
    Resumed shared call reply ⟨{ shared with isCounting := false }, none, returned⟩ where
  accurate := hr
  next := nofun
  items := .inl rfl
  flag := nofun

theorem nextChunk_recounts {rest : List (List (String × T))} {yields : Bool}
    (h : nextChunk rest yields = some c) : c.recounts = false := by
  cases rest with
  | nil => cases h
  | cons chunk rest =>
    obtain rfl := some.inj h
    rfl

/-- A page of `deleteBefore` leaves the entries and the counter alone. -/
theorem listPage_shared {timestamp : ℤ} {batch : List TimelineKey}
    (h : listPage shared timestamp after batch size last = some out) :
    out.shared = shared ∧ ∀ c, out.next = some c → c.recounts = false := by
  simp only [listPage] at h
  split at h
  · cases h
  · obtain ⟨hrepo, -⟩ := deleteKeys_spec shared.repo batch
      (((((shared.repo.items.above after).filter fun e ↦ keyBefore timestamp e.1).take size)).map
        Prod.fst)
    split at h
    all_goals
      rename_i heq
      rw [heq] at hrepo
      obtain rfl := hrepo
    · obtain rfl := some.inj h
      exact ⟨rfl, nofun⟩
    · split at h
      · obtain rfl := some.inj h
        rw [deleteRest_eq]
        exact ⟨rfl, nofun⟩
      · obtain rfl := some.inj h
        refine ⟨rfl, fun c hc ↦ ?_⟩
        obtain rfl := some.inj hc
        rfl

/-- A page of `count`: what was counted and what is left still make up all entries. -/
theorem scanPage_spec {count : ℕ} (hok : (scanning count after).Ok shared.repo.items)
    (h : scanPage shared count after size last = some out) :
    out.shared = shared ∧ out.returned = none ∧
      ∃ c, out.next = some c ∧ c.recounts = true ∧ c.Ok shared.repo.items := by
  have hsum : count + (shared.repo.items.above after).length =
      shared.repo.items.entries.length := hok
  simp only [scanPage] at h
  split at h
  · split at h
    · cases h
    · rename_i hall
      obtain rfl := some.inj h
      refine ⟨rfl, rfl, _, rfl, rfl, ?_⟩
      show count + ((shared.repo.items.above after).take size).length = _
      rw [List.length_take] at hall ⊢
      omega
  · obtain rfl := some.inj h
    refine ⟨rfl, rfl, _, rfl, rfl, ?_⟩
    show count + ((shared.repo.items.above after).take size).length +
      (shared.repo.items.above _).length = _
    rw [OrderedStore.above_cursor, List.length_take, List.length_drop]
    omega

/-- A transaction with new keys keeps the counter accurate. -/
theorem accurate_setChunk {chunk : List (String × T)} (hr : r.Accurate)
    (hnodup : ((chunk.map (keyed time)).map Prod.fst).Nodup)
    (hfresh : ∀ k ∈ (chunk.map (keyed time)).map Prod.fst, k ∉ r.items.keys)
    (hcnt : r.count.isSome = true ∨ r.items.entries = [])
    (hbound : r.items.entries.length + chunk.length ≤ 2 ^ 53) :
    (setChunk time r chunk).Accurate := by
  have hlen : (setChunk time r chunk).items.entries.length =
      r.items.entries.length + chunk.length := by
    rw [setChunk, OrderedStore.length_setAll_of_fresh hnodup hfresh, List.length_map]
  refine ⟨hlen.trans_le hbound, fun c hc ↦ ?_⟩
  obtain rfl := some.inj hc
  -- without a counter the sum starts at zero, which is right for an empty store
  have hold : (r.count.getD 0).toNat = r.items.entries.length := by
    rcases hcase : r.count with - | c
    · rcases hcnt with hsome | hempty
      · rw [hcase] at hsome
        cases hsome
      · rw [hempty]
        rfl
    · exact hr.counter c hcase
  rw [UInt64.toNat_add, UInt64.toNat_ofNat']
  omega

/-- Storing the number of entries keeps the counter accurate. -/
theorem accurate_recount (hr : r.Accurate) :
    { r with count := some (UInt64.ofNat r.items.entries.length) }.Accurate := by
  refine ⟨hr.bound, fun c hc ↦ ?_⟩
  obtain rfl := some.inj hc
  have hbound := hr.bound
  show r.items.entries.length % 2 ^ 64 = r.items.entries.length
  omega

/-- A resumption keeps the counter accurate and the listings right, when a commit can be counted. -/
theorem resumed_of_resume (hr : shared.repo.Accurate) (hok : call.Ok shared.repo.items)
    (hcom : ∀ chunk rest yields, call = .committing chunk rest yields → reply = .committed →
      (setChunk time shared.repo chunk).Accurate)
    (h : call.resume time shared reply = some out) : Resumed shared call reply out := by
  unfold resume at h
  split at h
  · -- a transaction
    rename_i chunk rest yields
    obtain rfl := some.inj h
    refine ⟨hcom chunk rest yields rfl rfl, fun c hc ↦ ok_of_not_recounts _ ?_,
      .inr ⟨rfl, chunk, rest, yields, rfl⟩, fun hflag ↦ .inr ⟨hflag, rfl⟩⟩
    cases yields with
    | true =>
      obtain rfl := some.inj hc
      rfl
    | false => exact nextChunk_recounts hc
  · obtain rfl := some.inj h
    exact .of_idle hr (fun c ↦ nextChunk_recounts) rfl
  · obtain ⟨hshared, hnext⟩ := listPage_shared h
    obtain ⟨shared', next, returned⟩ := out
    obtain rfl : shared' = shared := hshared
    exact .of_idle hr hnext rfl
  · obtain rfl := some.inj h
    refine .of_idle hr (fun c hc ↦ ?_) rfl
    obtain rfl := some.inj hc
    rfl
  · obtain rfl := some.inj h
    exact .of_done hr rfl
  · -- `count` finds no counter
    split at h
    · obtain rfl := some.inj h
      exact .of_done hr rfl
    · obtain rfl := some.inj h
      refine .of_counts hr rfl rfl ?_ rfl
      show 0 + (shared.repo.items.above none).length = _
      rw [OrderedStore.above_none, Nat.zero_add]
  · obtain ⟨hshared, -, c, hnext, hrecounts, hc⟩ := scanPage_spec hok h
    obtain ⟨shared', next, returned⟩ := out
    obtain rfl : shared' = shared := hshared
    exact .of_counts hr rfl hnext hc (counts_of_recounts hrecounts)
  · -- the counter is stored
    rename_i count
    obtain rfl := some.inj h
    obtain rfl : count = shared.repo.items.entries.length := hok
    exact .of_counts (accurate_recount hr) rfl rfl trivial rfl
  case h_9 | h_10 | h_11 =>
    obtain rfl := some.inj h
    exact .of_finally hr
  case h_12 | h_13 | h_14 =>
    obtain rfl := some.inj h
    exact .of_done hr rfl
  · cases h

end TimelineCall

namespace Timeline

variable {T : Type} {time : T → WithTop ℤ} {s t : Timeline T}

/-! ### The invariant along a run -/

/-- The counter is accurate, the listings for it are right, and the flag is set only while a call
counts. -/
structure Sound (s : Timeline T) : Prop where
  accurate : s.shared.repo.Accurate
  calls : ∀ call ∈ s.calls, call.Ok s.shared.repo.items
  flag : s.shared.isCounting = true → ∃ call ∈ s.calls, call.counts = true

theorem sound_start {r : TimelineRepository T} (hr : r.Accurate) : Sound (start r) :=
  ⟨hr, nofun, nofun⟩

variable {call c : TimelineCall T} {out : TimelineOutcome T} {chunk : List (String × T)}
  {shared shared' : TimelineShared T} {reply : TimelineReply} {replies : List TimelineReply}

/-- A new call that does not count yet. -/
theorem Sound.begin (hs : Sound s) (hcall : call.recounts = false) : Sound (s.begin call) where
  accurate := hs.accurate
  calls c hc := by
    rcases List.mem_append.1 hc with hc | hc
    · exact hs.calls c hc
    · obtain rfl := List.mem_singleton.1 hc
      exact TimelineCall.ok_of_not_recounts _ hcall
  flag hflag := by
    obtain ⟨c, hc, hcnts⟩ := hs.flag hflag
    exact ⟨c, List.mem_append_left _ hc, hcnts⟩

variable {i : ℕ} {u : Timeline T} {counted : List ℕ}

/-- A call after a resumption is the resumed one or an old one. -/
theorem mem_proceed (h : c ∈ (s.proceed i out).calls) : out.next = some c ∨ c ∈ s.calls := by
  rcases hnext : out.next with - | next
  · rw [proceed, hnext] at h
    exact .inr (List.mem_of_mem_eraseIdx h)
  · rw [proceed, hnext] at h
    rcases List.mem_or_eq_of_mem_set h with hc | rfl
    · exact .inr hc
    · exact .inl rfl

/-- The resumed call, if it goes on, is in flight. -/
theorem next_mem_proceed (hi : s.calls[i]? = some call) (hnext : out.next = some c) :
    c ∈ (s.proceed i out).calls := by
  rw [proceed, hnext]
  exact List.mem_set (List.getElem?_eq_some_iff.1 hi).1 c

/-- Other calls stay in flight. -/
theorem mem_proceed_of_ne (hi : s.calls[i]? = some call) (hc : c ∈ s.calls) (hne : c ≠ call) :
    c ∈ (s.proceed i out).calls := by
  obtain ⟨j, hj⟩ := List.mem_iff_getElem?.1 hc
  have hij : i ≠ j := by
    rintro rfl
    exact hne (some.inj (hj.symm.trans hi))
  rcases hnext : out.next with - | next
  · rw [proceed, hnext]
    exact List.mem_eraseIdx_iff_getElem?.2 ⟨j, hij.symm, hj⟩
  · rw [proceed, hnext]
    refine List.mem_iff_getElem?.2 ⟨j, ?_⟩
    rw [List.getElem?_set_ne hij, hj]

theorem countable_iff : s.countable time chunk = true ↔
      ((chunk.map (keyed time)).map Prod.fst).Nodup ∧
      (∀ k ∈ (chunk.map (keyed time)).map Prod.fst, k ∉ s.shared.repo.items.keys) ∧
      (∀ call ∈ s.calls, call.recounts = false) ∧
      (s.shared.repo.count.isSome = true ∨ s.shared.repo.items.entries = []) ∧
      s.shared.repo.items.entries.length + chunk.length ≤ 2 ^ 53 := by
  simp only [countable, Bool.and_eq_true, Bool.or_eq_true, decide_eq_true_eq, List.all_eq_true,
    List.isEmpty_iff, Bool.not_eq_true', List.forall_mem_map, and_assoc]

section Resume

variable {i : ℕ} {reply : TimelineReply} {call : TimelineCall T} {out : TimelineOutcome T}
  (hs : Sound s)
  (hcountable : ∀ {chunk rest yields}, call = .committing chunk rest yields →
    reply = .committed → s.countable time chunk = true)
  (hout : call.resume time s.shared reply = some out)
include hs hcountable hout

theorem Sound.resumed (hmem : call ∈ s.calls) : call.Resumed s.shared reply out := by
  refine TimelineCall.resumed_of_resume hs.accurate (hs.calls call hmem) ?_ hout
  intro chunk rest yields hcall hreply
  obtain ⟨hnodup, hfresh, -, hcnt, hbound⟩ := countable_iff.1 (hcountable hcall hreply)
  exact TimelineCall.accurate_setChunk hs.accurate hnodup hfresh hcnt hbound

/-- The other calls stay right: a transaction is only committed if none of them is listing. -/
theorem Sound.ok_of_mem (hmem : call ∈ s.calls) (hc : c ∈ s.calls) :
    c.Ok out.shared.repo.items := by
  rcases (hs.resumed hcountable hout hmem).items with hitems | ⟨hreply, chunk, rest, yields, hcall⟩
  · rw [hitems]
    exact hs.calls c hc
  · obtain ⟨-, -, hidle, -⟩ := countable_iff.1 (hcountable hcall hreply)
    exact TimelineCall.ok_of_not_recounts _ (hidle c hc)

theorem Sound.proceed (hi : s.calls[i]? = some call) : Sound (s.proceed i out) := by
  have hmem : call ∈ s.calls := List.mem_of_getElem? hi
  have hres := hs.resumed hcountable hout hmem
  refine ⟨hres.accurate, fun c hc ↦ ?_, fun hflag ↦ ?_⟩
  · rcases mem_proceed hc with hnext | hold
    · exact hres.next c hnext
    · exact hs.ok_of_mem hcountable hout hmem hold
  · rcases hres.flag hflag with ⟨c, hnext, hcnts⟩ | ⟨hold, hcall⟩
    · exact ⟨c, next_mem_proceed hi hnext, hcnts⟩
    · obtain ⟨c, hc, hcnts⟩ := hs.flag hold
      refine ⟨c, mem_proceed_of_ne hi hc ?_, hcnts⟩
      rintro rfl
      rw [hcnts] at hcall
      cases hcall

end Resume

/-- One step. -/
theorem Sound.step (hs : Sound s) {a : TimelineAction T} (ha : s.countsRight time a = true)
    (h : s.step time a = some t) : Sound t := by
  cases a with
  | set id data | deleteBefore timestamp | count =>
    obtain rfl := some.inj h
    exact hs.begin rfl
  | setMany items =>
    rw [Timeline.step] at h
    split at h
    · rename_i hcall
      obtain rfl := some.inj h
      exact hs.begin (TimelineCall.nextChunk_recounts hcall)
    · obtain rfl := some.inj h
      exact hs
  | resume i reply =>
    obtain ⟨call, hi, hres⟩ := bind_eq_some_iff.1 h
    obtain ⟨out, hout, rfl⟩ := map_eq_some_iff.1 hres
    refine hs.proceed (fun hcall hreply ↦ ?_) hout hi
    subst hcall hreply
    simpa only [countsRight, hi] using ha

/-! ### What `count` returns -/

variable (time) in
/-- `count` is called in `s` and runs to its end in `t`, alone and without a failing operation. -/
def CountRun (s : Timeline T) (replies : List TimelineReply) (t : Timeline T) : Prop :=
  Machine.run (Timeline.step time) s (.count :: replies.map (.resume s.calls.length)) = some t ∧
    t.calls = s.calls ∧ TimelineReply.refused ∉ replies

variable (time) in
/-- `count`, called in `s`, returns, and what it returns is `n`. -/
def CountReturns (s : Timeline T) (n : ℕ) : Prop :=
  (∃ replies t, CountRun time s replies t) ∧
    ∀ replies t, CountRun time s replies t → t.counted = s.counted ++ [n]

/-- What a call of `count` that was made in `s` knows. -/
def Knows (s t : Timeline T) : TimelineCall T → Prop
  | .getting => t.shared = s.shared
  | .got value => t.shared = s.shared ∧ value = s.shared.repo.count
  | .scanning count after => (TimelineCall.scanning count after).Ok t.shared.repo.items
  | .storing count | .stored count => count = s.shared.repo.items.entries.length
  | _ => False

/-- `count` was called in `s` and is suspended in `t`, or has returned the number of entries. -/
def Counting (s t : Timeline T) : Prop :=
  t.shared.repo.items = s.shared.repo.items ∧
    ((∃ call, t.calls = [call] ∧ t.counted = s.counted ∧ Knows s t call) ∨
      (t.calls = [] ∧ t.counted = s.counted ++ [s.shared.repo.items.entries.length]))

section Counting

variable (hs : Sound s) (hidle : s.calls = [])

include hs hidle in
/-- Nothing is in flight, so nothing is counting. -/
theorem Sound.not_isCounting : s.shared.isCounting = false := by
  rw [Bool.eq_false_iff]
  intro hflag
  obtain ⟨c, hc, -⟩ := hs.flag hflag
  rw [hidle] at hc
  cases hc

section

variable (hcalls : t.calls = [call]) (hcounted : t.counted = s.counted)
include hcalls hcounted

theorem counting_goesOn (hnext : out.next = some c) (hreturned : out.returned = none)
    (hitems : out.shared.repo.items = s.shared.repo.items) (hknows : Knows s (t.proceed 0 out) c) :
    Counting s (t.proceed 0 out) := by
  refine ⟨hitems, .inl ⟨c, ?_, ?_, hknows⟩⟩
  · rw [proceed, hnext, hcalls]
    rfl
  · rw [proceed, hreturned, hcounted]
    exact List.append_nil _

theorem counting_ends (hnext : out.next = none)
    (hreturned : out.returned = some s.shared.repo.items.entries.length)
    (hitems : out.shared.repo.items = s.shared.repo.items) : Counting s (t.proceed 0 out) := by
  refine ⟨hitems, .inr ⟨?_, ?_⟩⟩
  · rw [proceed, hnext, hcalls]
    rfl
  · rw [proceed, hreturned, hcounted]
    rfl

variable (hitems : t.shared.repo.items = s.shared.repo.items)
include hitems

include hs hidle in
/-- The counter was read: it is returned, or the entries are listed. -/
theorem counting_got (hshared : t.shared = s.shared)
    (hout : (TimelineCall.got s.shared.repo.count).resume time t.shared .resumed = some out) :
    Counting s (t.proceed 0 out) := by
  rcases hvalue : s.shared.repo.count with - | c
  · rw [hvalue, TimelineCall.resume,
      if_neg (by rw [hshared, hs.not_isCounting hidle]; decide)] at hout
    obtain rfl := some.inj hout
    refine counting_goesOn hcalls hcounted rfl rfl hitems ?_
    show 0 + (t.shared.repo.items.above none).length = _
    rw [OrderedStore.above_none, Nat.zero_add]
    rfl
  · rw [hvalue] at hout
    obtain rfl := some.inj hout
    refine counting_ends hcalls hcounted rfl ?_ hitems
    have hctr := hs.accurate.counter c hvalue
    rw [hctr, toNumber_of_le hs.accurate.bound]

/-- A page of the entries was read. -/
theorem counting_scanned {count : ℕ} {after : Option TimelineKey} {size : ℕ} {last : Bool}
    (hok : (TimelineCall.scanning count after : TimelineCall T).Ok t.shared.repo.items)
    (hout : (TimelineCall.scanning count after).resume time t.shared (.fetched size last) =
      some out) : Counting s (t.proceed 0 out) := by
  obtain ⟨hshared, hret, c, hc, hrecounts, hok⟩ := TimelineCall.scanPage_spec hok hout
  have hi : out.shared.repo.items = s.shared.repo.items := by rw [hshared, hitems]
  refine counting_goesOn hcalls hcounted hc hret hi ?_
  cases c with
  | scanning count after =>
    show (TimelineCall.scanning count after).Ok out.shared.repo.items
    rwa [hshared]
  | storing count =>
    show count = s.shared.repo.items.entries.length
    rwa [← hitems]
  | _ => cases hrecounts

end

include hs hidle in
/-- One resumption of `count`. -/
theorem Counting.resume (hc : Counting s t)
    (hreply : reply ≠ .refused) (h : t.step time (.resume 0 reply) = some u) : Counting s u := by
  obtain ⟨call, hi, hres⟩ := bind_eq_some_iff.1 h
  obtain ⟨out, hout, rfl⟩ := map_eq_some_iff.1 hres
  obtain ⟨hitems, ⟨call', hcalls, hcounted, hknows⟩ | ⟨hcalls, -⟩⟩ := hc
  · obtain rfl : call' = call := by
      rw [hcalls] at hi
      exact some.inj hi
    cases call' with
    | committing | yielding | listing => cases hknows
    | getting =>
      cases reply with
      | read =>
        obtain rfl := some.inj hout
        have hshared : t.shared = s.shared := hknows
        exact counting_goesOn hcalls hcounted rfl rfl hitems ⟨hshared, by rw [hshared]⟩
      | refused => exact absurd rfl hreply
      | _ => cases hout
    | got value =>
      obtain ⟨hshared, rfl⟩ : t.shared = s.shared ∧ value = s.shared.repo.count := hknows
      cases reply with
      | resumed => exact counting_got hs hidle hcalls hcounted hitems hshared hout
      | refused => exact absurd rfl hreply
      | _ => cases hvalue : s.shared.repo.count <;> rw [hvalue] at hout <;> cases hout
    | scanning count after =>
      cases reply with
      | fetched size last => exact counting_scanned hcalls hcounted hitems hknows hout
      | refused => exact absurd rfl hreply
      | _ => cases hout
    | storing count =>
      cases reply with
      | committed =>
        obtain rfl := some.inj hout
        exact counting_goesOn hcalls hcounted rfl rfl hitems hknows
      | refused => exact absurd rfl hreply
      | _ => cases hout
    | stored count =>
      cases reply with
      | resumed =>
        obtain rfl := some.inj hout
        exact counting_ends hcalls hcounted rfl (congrArg some hknows) hitems
      | refused => exact absurd rfl hreply
      | _ => cases hout
  · rw [hcalls] at hi
    cases hi

include hidle in
/-- The call right after it was made. -/
theorem counting_begin : Counting s (s.begin .getting) :=
  ⟨rfl, .inl ⟨.getting, by rw [begin, hidle]; rfl, rfl, rfl⟩⟩

include hs hidle in
/-- A run of `count` returns the number of entries. -/
theorem counting_run (hreps : TimelineReply.refused ∉ replies) (hc : Counting s t)
    (h : run (Timeline.step time) t (replies.map (.resume 0)) = some u) : Counting s u := by
  induction replies generalizing t with
  | nil =>
    obtain rfl := some.inj h
    exact hc
  | cons reply replies ih =>
    obtain ⟨v, hv, h⟩ := run_cons.1 h
    rw [List.mem_cons, not_or] at hreps
    exact ih hreps.2 (hc.resume hs hidle (Ne.symm hreps.1) hv) h

/-- The only call goes on. -/
theorem run_goesOn {next : TimelineCall T}
    (h : call.resume time shared reply = some ⟨shared', some next, none⟩) :
    run (Timeline.step time) ⟨shared, [call], counted⟩ ((reply :: replies).map (.resume 0)) =
      run (Timeline.step time) ⟨shared', [next], counted⟩ (replies.map (.resume 0)) := by
  rw [List.map_cons, run, step, List.getElem?_cons_zero, bind_some, h, map_some, bind_some, proceed]
  simp only [List.set_cons_zero, toList_none, List.append_nil]

/-- The only call returns. -/
theorem run_returns {n : ℕ} (h : call.resume time shared reply = some ⟨shared', none, some n⟩) :
    run (Timeline.step time) ⟨shared, [call], counted⟩ ([reply].map (.resume 0)) =
      some ⟨shared', [], counted ++ [n]⟩ := by
  rw [List.map_singleton, run, step, List.getElem?_cons_zero, bind_some, h]
  rfl

include hs hidle

/-- There is a run of `count`: read the counter, and list everything in one page if there is
none. -/
theorem exists_countRun : ∃ replies t, CountRun time s replies t := by
  have hbegin (replies : List TimelineReply) :
      run (Timeline.step time) s (.count :: replies.map (.resume s.calls.length)) =
        run (Timeline.step time) ⟨s.shared, [.getting], s.counted⟩ (replies.map (.resume 0)) := by
    rw [run, step, begin, hidle]
    rfl
  rcases hcnt : s.shared.repo.count with - | c
  · have hgot : (TimelineCall.got none).resume time s.shared .resumed =
        some ⟨{ s.shared with isCounting := true }, some (.scanning 0 none), none⟩ := by
      rw [TimelineCall.resume, hs.not_isCounting hidle]
      rfl
    obtain ⟨n, hn⟩ : ∃ n, n = s.shared.repo.items.entries.length := ⟨_, rfl⟩
    have hpage : (TimelineCall.scanning 0 none).resume time { s.shared with isCounting := true }
        (.fetched n true) =
          some ⟨{ s.shared with isCounting := true }, some (.storing n), none⟩ := by
      simp [TimelineCall.resume, TimelineCall.scanPage, hn]
    refine ⟨[.read, .resumed, .fetched n true, .committed, .resumed], ⟨⟨{ s.shared.repo with
      count := some (UInt64.ofNat n) }, false⟩, [], s.counted ++ [n]⟩, ?_, hidle.symm, by simp⟩
    rw [hbegin, run_goesOn rfl, hcnt, run_goesOn hgot, run_goesOn hpage, run_goesOn rfl,
      run_returns rfl]
  · refine ⟨[.read, .resumed], ⟨s.shared, [], s.counted ++ [toNumber c.toNat]⟩, ?_, hidle.symm,
      by decide⟩
    rw [hbegin, run_goesOn rfl, hcnt, run_returns rfl]

/-- With an accurate counter and nothing in flight, `count` returns the number of entries. -/
theorem Sound.countReturns : CountReturns time s s.shared.repo.items.entries.length := by
  refine ⟨exists_countRun hs hidle, fun replies t ⟨hrun, hended, hreps⟩ ↦ ?_⟩
  obtain ⟨u, hu, hrun⟩ := run_cons.1 hrun
  obtain rfl := some.inj hu
  rw [hidle] at hrun
  obtain ⟨-, ⟨call, hcalls, -⟩ | ⟨-, hcounted⟩⟩ :=
    counting_run hs hidle hreps (counting_begin hidle) hrun
  · rw [hended, hidle] at hcalls
    cases hcalls
  · exact hcounted

end Counting

/-- Along every run in which each committed transaction can be counted, from any repository whose
counter is accurate or absent: whenever no call is in flight, `count` returns the number of
entries. -/
theorem count_eq_length {r : TimelineRepository T} (hr : r.Accurate)
    {as : List (TimelineAction T)}
    (hg : Machine.Guarded (Timeline.step time) (fun s a ↦ s.countsRight time a = true) (start r) as)
    (hrun : Machine.run (Timeline.step time) (start r) as = some s) (hidle : s.calls = []) :
    CountReturns time s s.shared.repo.items.entries.length :=
  (run_invariant (fun hs ha h ↦ Sound.step hs ha h) (sound_start hr) hg hrun).countReturns hidle

/-- The counter is accurate where nothing was stored. -/
theorem accurate_empty : (TimelineRepository.empty : TimelineRepository T).Accurate :=
  ⟨Nat.zero_le _, nofun⟩

/-- Items that are their own times. -/
def itemTime (data : ℤ) : WithTop ℤ := data

/-- Two items are stored in one transaction. -/
theorem count_eq_length_two_items :
    ∃ s, Machine.run (Timeline.step itemTime) (start .empty)
        [.setMany [("a", 1), ("b", 2)], .resume 0 .committed] = some s ∧
      s.calls = [] ∧ CountReturns itemTime s 2 := by
  have hrun : (run (Timeline.step itemTime) (start .empty)
      [.setMany [("a", 1), ("b", 2)], .resume 0 .committed]).map
        (fun s ↦ (s.calls.isEmpty, s.shared.repo.items.entries.length)) = some (true, 2) := by
    decide
  obtain ⟨s, hs, hend⟩ := map_eq_some_iff.1 hrun
  obtain ⟨hidle, hlength⟩ := Prod.mk.inj hend
  have hreturns : CountReturns itemTime s s.shared.repo.items.entries.length :=
    count_eq_length accurate_empty (by decide) hs (List.isEmpty_iff.1 hidle)
  rw [hlength] at hreturns
  exact ⟨s, hs, List.isEmpty_iff.1 hidle, hreturns⟩

/-- The same item is stored twice: there is one entry, and `count` returns two. -/
theorem count_after_overwrite :
    ∃ s, Machine.run (Timeline.step itemTime) (start .empty)
        [.set "a" 1, .resume 0 .committed, .set "a" 1, .resume 0 .committed] = some s ∧
      s.calls = [] ∧ s.shared.repo.items.entries.length = 1 ∧
      ¬CountReturns itemTime s s.shared.repo.items.entries.length := by
  have hrun : (run (Timeline.step itemTime) (start .empty)
      [.set "a" 1, .resume 0 .committed, .set "a" 1, .resume 0 .committed]).map
        (fun s ↦ (s.calls.isEmpty, s.shared.repo.items.entries.length, s.counted,
          (run (Timeline.step itemTime) s [.count, .resume 0 .read, .resume 0 .resumed]).map
              fun t ↦ (t.calls.isEmpty, t.counted))) =
      some (true, 1, [], some (true, [2])) := by decide
  obtain ⟨s, hs, hend⟩ := map_eq_some_iff.1 hrun
  simp only [Prod.mk.injEq] at hend
  obtain ⟨hidle, hlength, hcounted, hcount⟩ := hend
  have hidle := List.isEmpty_iff.1 hidle
  refine ⟨s, hs, hidle, hlength, fun hreturns ↦ ?_⟩
  obtain ⟨t, ht, hend⟩ := map_eq_some_iff.1 hcount
  obtain ⟨hended, htwo⟩ := Prod.mk.inj hend
  have hcountRun : CountRun itemTime s [.read, .resumed] t := by
    refine ⟨?_, ?_, by decide⟩
    · rw [hidle]
      exact ht
    · rw [hidle]
      exact List.isEmpty_iff.1 hended
  have hone := hreturns.2 _ _ hcountRun
  rw [hlength, hcounted, htwo] at hone
  exact absurd hone (by decide)

end Timeline

end Audit
