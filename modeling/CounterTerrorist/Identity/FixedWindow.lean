import CounterTerrorist.Identity.RateLimit

/-!
# The rate limiter is a fixed-window counter

What a rate limiter is for, without a store and without flushing: every key has a window with a
count and an end, and a request after the end opens the next one (`FixedWindow`). The service gives
the same answers in every run whose clock does not go back (`answers_eq_fixedWindow`).

## The relation

The service forgets what the counter keeps: a flush drops a window that is over. No request can tell
the difference, since for both the next one opens a new window. So a key that has no window in the
service has none in the counter, or one that was over when the clock was last read (`Matches`).
-/

namespace Identity

open Machine Option

/-! ### The counter -/

/-- A window: the requests so far, and its end. -/
structure Window where
  count : ℕ
  resetAt : ℚ
deriving DecidableEq

/-- A request. -/
structure Check where
  key : String
  limit : ℚ
  windowMs : ℚ
  now : ℚ

/-- The window of a request: the one that is there, unless it is over. -/
def Window.hit (window : Option Window) (windowMs now : ℚ) : Window :=
  match window with
  | some w => if now > w.resetAt then ⟨1, now + windowMs⟩ else ⟨w.count + 1, w.resetAt⟩
  | none => ⟨1, now + windowMs⟩

/-- The answer of a window. -/
def Window.status (w : Window) (limit now : ℚ) : RateLimitStatus where
  allowed := (w.count : ℚ) ≤ limit
  count := w.count
  resetAt := w.resetAt
  retryAfterMs := max 0 (w.resetAt - now)

/-- A window for every key that was asked for. -/
abbrev FixedWindow := String → Option Window

/-- Count a request. -/
def FixedWindow.check (windows : FixedWindow) (c : Check) : RateLimitStatus × FixedWindow :=
  let w := Window.hit (windows c.key) c.windowMs c.now
  (w.status c.limit c.now, Function.update windows c.key (some w))

namespace RateLimitService

/-- The requests among the steps. -/
def Label.checks : Label → List Check
  | .check key limit windowMs now => [⟨key, limit, windowMs, now⟩]
  | _ => []

/-- The clock does not go back. -/
def Forward (s : RateLimitService) : Label → Prop
  | .check _ _ _ now | .flush now => s.clock ≤ now
  | _ => True

instance (s : RateLimitService) : (l : Label) → Decidable (Forward s l)
  | .check _ _ _ now | .flush now => inferInstanceAs (Decidable (s.clock ≤ now))
  | .resume _ | .read .. | .commit .. | .wake _ | .settle _ => .isTrue trivial

/-! ### Windows of the service -/

/-- The window of an object. -/
def windowAt (s : RateLimitService) (addr : ℕ) : Window :=
  ⟨(s.objects addr).count, (s.objects addr).resetAt⟩

/-- The window of a key. -/
def window (s : RateLimitService) (key : String) : Option Window :=
  (s.memoryTier.get key).map s.windowAt

/-- Every key has an object of its own. -/
structure Wf (s : RateLimitService) : Prop where
  lt : ∀ {key addr}, s.memoryTier.get key = some addr → addr < s.allocated
  inj : ∀ {key key' addr}, s.memoryTier.get key = some addr →
    s.memoryTier.get key' = some addr → key = key'

/-- The counts and the ends are the same. -/
structure SameWindows (s t : RateLimitService) : Prop where
  memoryTier : t.memoryTier = s.memoryTier
  allocated : t.allocated = s.allocated
  windowAt : ∀ addr, t.windowAt addr = s.windowAt addr

section

variable {s t : RateLimitService} {key : String} {addr : ℕ} {limit windowMs now : ℚ}

theorem SameWindows.refl (s : RateLimitService) : SameWindows s s := ⟨rfl, rfl, fun _ ↦ rfl⟩

theorem SameWindows.window (h : SameWindows s t) (key : String) : t.window key = s.window key := by
  rw [RateLimitService.window, RateLimitService.window, h.memoryTier, funext h.windowAt]

theorem SameWindows.wf (h : SameWindows s t) (hs : Wf s) : Wf t where
  lt hget := h.allocated ▸ hs.lt (h.memoryTier ▸ hget)
  inj hget hget' := hs.inj (h.memoryTier ▸ hget) (h.memoryTier ▸ hget')

/-- An object changes in nothing but what was pushed. -/
theorem SameWindows.modify {f : RateLimitState → RateLimitState}
    (hf : ∀ state, (f state).count = state.count ∧ (f state).resetAt = state.resetAt) :
    SameWindows s (s.modify addr f) := by
  refine ⟨rfl, rfl, fun a ↦ ?_⟩
  rw [RateLimitService.windowAt, modify_objects]
  split
  · rw [(hf _).1, (hf _).2, RateLimitService.windowAt]
  · rfl

theorem SameWindows.syncKey (s : RateLimitService) (key : String) (addr : ℕ) :
    SameWindows s (s.syncKey key addr) := by
  rcases syncKey_cases s key addr with heq | ⟨-, -, heq⟩
  · rw [heq]
    exact .refl s
  · have hmodify : SameWindows s (s.modify addr fun state ↦
        { state with synced := state.count, inflight := some s.writes.length }) :=
      .modify fun _ ↦ ⟨rfl, rfl⟩
    rw [heq]
    exact ⟨hmodify.memoryTier, hmodify.allocated, hmodify.windowAt⟩

theorem SameWindows.settle (s : RateLimitService) (i : ℕ) (w : Write)
    (result : Except String ℕ) : SameWindows s (s.settle i w result) := by
  have hmodify : SameWindows s (s.finished i w) := .modify fun _ ↦ ⟨rfl, rfl⟩
  exact ⟨hmodify.memoryTier, hmodify.allocated, hmodify.windowAt⟩

/-! ### Requests -/

/-- What `locate` finds: an object that belongs to no other key, with the window that is there or a
new one. -/
structure Located (s : RateLimitService) (key : String) (windowMs now : ℚ) (addr : ℕ)
    (t : RateLimitService) : Prop where
  lt : addr < t.allocated
  grows : s.allocated ≤ t.allocated
  memoryTier : t.memoryTier = s.memoryTier
  own : ∀ {key'}, s.memoryTier.get key' = some addr → key' = key
  keeps : ∀ a < s.allocated, t.windowAt a = s.windowAt a
  hit : ⟨(t.windowAt addr).count + 1, (t.windowAt addr).resetAt⟩ =
    Window.hit (s.window key) windowMs now

/-- A new window. -/
theorem located_alloc (h : Wf s) (hover : ∀ w ∈ s.window key, now > w.resetAt) :
    Located s key windowMs now (s.alloc windowMs now).1 (s.alloc windowMs now).2 := by
  have hobj : ∀ a, (s.alloc windowMs now).2.objects a =
      if a = s.allocated then ⟨0, now + windowMs, 0, none⟩ else s.objects a :=
    modify_objects s s.allocated fun _ ↦ ⟨0, now + windowMs, 0, none⟩
  refine ⟨Nat.lt_succ_self _, Nat.le_succ _, rfl, fun hget ↦ ?_, fun a ha ↦ ?_, ?_⟩
  · exact absurd (h.lt hget) (lt_irrefl _)
  · rw [windowAt, hobj, if_neg ha.ne, windowAt]
  · show Window.mk (((s.alloc windowMs now).2.objects s.allocated).count + 1)
      ((s.alloc windowMs now).2.objects s.allocated).resetAt = _
    rw [hobj, if_pos rfl]
    rcases hw : s.window key with - | w
    · rfl
    · rw [Window.hit, if_pos (hover w hw)]

theorem located_locate (h : Wf s) (key : String) (windowMs now : ℚ) :
    Located s key windowMs now (s.locate key windowMs now).1 (s.locate key windowMs now).2 := by
  obtain ⟨heq, hover⟩ | ⟨addr, hget, hover, heq⟩ := locate_cases s key windowMs now
  · rw [heq]
    refine located_alloc h fun w hw ↦ ?_
    obtain ⟨addr, hget, rfl⟩ := map_eq_some_iff.1 hw
    exact hover addr hget
  · rw [heq]
    refine ⟨h.lt hget, le_rfl, rfl, fun hget' ↦ h.inj hget' hget, fun _ _ ↦ rfl, ?_⟩
    have hwin : s.window key = some (s.windowAt addr) := by rw [window, hget, map_some]
    rw [hwin]
    exact (if_neg hover).symm

theorem windowAt_increment (t : RateLimitService) (key : String) (addr a : ℕ) :
    (t.increment key addr).windowAt a =
      if a = addr then ⟨(t.windowAt a).count + 1, (t.windowAt a).resetAt⟩ else t.windowAt a := by
  have hobj : (t.increment key addr).objects a =
      if a = addr then { t.objects a with count := (t.objects a).count + 1 } else t.objects a :=
    modify_objects t addr (fun state ↦ { state with count := state.count + 1 }) a
  rw [windowAt, hobj]
  split <;> rfl

section Increment

variable (h : Wf s) (hloc : Located s key windowMs now addr t)
include hloc

theorem Located.get_increment (key' : String) : (t.increment key addr).memoryTier.get key' =
      if key' = key then some addr else s.memoryTier.get key' := by
  rw [increment, InsertionMap.get_set, hloc.memoryTier]

theorem Located.windowAt_self :
    (t.increment key addr).windowAt addr = Window.hit (s.window key) windowMs now := by
  rw [windowAt_increment, if_pos rfl, hloc.hit]

include h

theorem Located.wf_increment : Wf (t.increment key addr) := by
  refine ⟨fun {key' a} hk ↦ ?_, fun {key' key'' a} hk hk' ↦ ?_⟩
  · rw [hloc.get_increment] at hk
    split at hk
    · obtain rfl := some.inj hk
      exact hloc.lt
    · exact (h.lt hk).trans_le hloc.grows
  · rw [hloc.get_increment] at hk hk'
    split at hk <;> split at hk'
    · next h₁ h₂ => exact h₁.trans h₂.symm
    · next h₁ _ =>
      obtain rfl := some.inj hk
      exact h₁.trans (hloc.own hk').symm
    · next _ h₂ =>
      obtain rfl := some.inj hk'
      exact (hloc.own hk).trans h₂.symm
    · exact h.inj hk hk'

/-- Counting a request leaves the windows of the other keys as they are. -/
theorem Located.window_increment (key' : String) : (t.increment key addr).window key' =
      if key' = key then some (Window.hit (s.window key) windowMs now) else s.window key' := by
  rw [window, hloc.get_increment]
  split
  case isTrue => rw [map_some, hloc.windowAt_self]
  case isFalse hne =>
    rw [window]
    rcases hold : s.memoryTier.get key' with - | a
    · rfl
    · have ha : a ≠ addr := fun heq ↦ hne (hloc.own (heq ▸ hold))
      rw [map_some, map_some, windowAt_increment, if_neg ha, hloc.keeps a (h.lt hold)]

end Increment

/-- `checkLimit` counts and answers; if it pushes, that leaves the windows as they are. -/
theorem checkLimit_eq (s : RateLimitService) (key : String) (limit windowMs now : ℚ) :
    let located := s.locate key windowMs now
    let counted := located.2.increment key located.1
    (s.checkLimit key limit windowMs now).1 = (counted.windowAt located.1).status limit now ∧
      SameWindows counted (s.checkLimit key limit windowMs now).2 := by
  intro located counted
  rw [checkLimit]
  split
  · exact ⟨rfl, .syncKey counted key located.1⟩
  · exact ⟨rfl, .refl counted⟩

/-- `checkLimit` answers as the window of its key does, and counts in it. -/
theorem checkLimit_spec (h : Wf s) (key : String) (limit windowMs now : ℚ) :
    (s.checkLimit key limit windowMs now).1 =
        (Window.hit (s.window key) windowMs now).status limit now ∧
      Wf (s.checkLimit key limit windowMs now).2 ∧
      ∀ key', (s.checkLimit key limit windowMs now).2.window key' =
        if key' = key then some (Window.hit (s.window key) windowMs now) else s.window key' := by
  have hloc := located_locate h key windowMs now
  obtain ⟨hstat, hsame⟩ := checkLimit_eq s key limit windowMs now
  refine ⟨?_, hsame.wf (hloc.wf_increment h), fun key' ↦ ?_⟩
  · rw [hstat, hloc.windowAt_self]
  · exact (hsame.window key').trans (hloc.window_increment h key')

/-- `flushMemoryTier` drops the windows that are over. -/
theorem flush_window (s : RateLimitService) (now : ℚ) (key : String) :
    (s.flushMemoryTier now).window key =
      (s.window key).filter fun w ↦ !decide (now > w.resetAt) := by
  show ((s.memoryTier.filter fun addr ↦ !s.expired now addr).get key).map s.windowAt = _
  rw [InsertionMap.get_filter, window, Option.filter_map]
  rfl

theorem Wf.flush (h : Wf s) (now : ℚ) : Wf (s.flushMemoryTier now) := by
  have hget : ∀ {key addr}, (s.flushMemoryTier now).memoryTier.get key = some addr →
      s.memoryTier.get key = some addr := fun {key addr} hk ↦
    (filter_eq_some_iff.1 ((InsertionMap.get_filter _ _ key).symm.trans hk)).1
  exact ⟨fun hk ↦ h.lt (hget hk), fun hk hk' ↦ h.inj (hget hk) (hget hk')⟩

end

/-! ### The relation -/

/-- A key has the same window in both, or none in the service and one that is over. -/
def Matches (s : RateLimitService) (windows : FixedWindow) : Prop :=
  ∀ key, s.window key = windows key ∨
    s.window key = none ∧ ∃ w, windows key = some w ∧ w.resetAt < s.clock

variable {s t : RateLimitService} {l : Label} {windows : FixedWindow}

variable {now : ℚ}

section

variable (h : Matches s windows)
include h

/-- A request finds the same window in both. -/
theorem Matches.hit (key : String) (windowMs : ℚ) (hclock : s.clock ≤ now) :
    Window.hit (s.window key) windowMs now = Window.hit (windows key) windowMs now := by
  rcases h key with heq | ⟨hnone, w, hw, hover⟩
  · rw [heq]
  · rw [hnone, hw]
    exact (if_pos (hover.trans_le hclock)).symm

theorem Matches.of_sameWindows (hsame : SameWindows s t)
    (hclock : s.clock ≤ t.clock) : Matches t windows := by
  intro key
  rw [hsame.window]
  exact (h key).imp_right fun ⟨hnone, w, hw, hover⟩ ↦ ⟨hnone, w, hw, hover.trans_le hclock⟩

theorem Matches.check (hs : Wf s) (key : String) (limit windowMs : ℚ) (hclock : s.clock ≤ now) :
    Matches { (s.checkLimit key limit windowMs now).2 with clock := now }
      (FixedWindow.check windows ⟨key, limit, windowMs, now⟩).2 := by
  intro key'
  have hservice : { (s.checkLimit key limit windowMs now).2 with clock := now }.window key' =
      if key' = key then some (Window.hit (windows key) windowMs now) else s.window key' :=
    h.hit key windowMs hclock ▸ (checkLimit_spec hs key limit windowMs now).2.2 key'
  have hctr : (FixedWindow.check windows ⟨key, limit, windowMs, now⟩).2 key' =
      if key' = key then some (Window.hit (windows key) windowMs now) else windows key' :=
    Function.update_apply ..
  by_cases hkey : key' = key
  · exact .inl (by rw [hservice, hctr, if_pos hkey, if_pos hkey])
  · rw [hservice, hctr, if_neg hkey, if_neg hkey]
    exact (h key').imp_right fun ⟨hnone, w, hw, hover⟩ ↦ ⟨hnone, w, hw, hover.trans_le hclock⟩

theorem Matches.flush (hclock : s.clock ≤ now) :
    Matches { s.flushMemoryTier now with clock := now } windows := by
  intro key
  have hservice : { s.flushMemoryTier now with clock := now }.window key =
      (s.window key).filter fun w ↦ !decide (now > w.resetAt) := flush_window s now key
  rw [hservice]
  rcases h key with heq | ⟨hnone, w, hw, hover⟩
  · rcases hw : s.window key with - | w
    · exact .inl (heq ▸ hw.symm)
    · by_cases hover : now > w.resetAt
      · exact .inr ⟨by simp [hover], w, heq ▸ hw, hover⟩
      · exact .inl (by simp [hover, ← heq, hw])
  · exact .inr ⟨by rw [hnone, filter_none], w, hw, hover.trans_le hclock⟩

end

/-- One step of the service is matched by the requests in it. -/
theorem Matches.step (h : Wf s ∧ Matches s windows) (hfwd : Forward s l)
    (hstep : s.step l = some t) :
    s.answer l = (replay FixedWindow.check windows l.checks).1 ∧
      Wf t ∧ Matches t (replay FixedWindow.check windows l.checks).2 := by
  obtain ⟨hwf, hmatches⟩ := h
  have hquiet {u : RateLimitService} (hsame : SameWindows s u) (hclock : u.clock = s.clock) :
      Wf u ∧ Matches u windows :=
    ⟨hsame.wf hwf, hmatches.of_sameWindows hsame hclock.ge⟩
  cases Step.of_step hstep with
  | check key limit windowMs now =>
    obtain ⟨hstat, hwf', -⟩ := checkLimit_spec hwf key limit windowMs now
    refine ⟨?_, ⟨hwf'.lt, hwf'.inj⟩, hmatches.check hwf key limit windowMs hfwd⟩
    rw [answer, hstat, hmatches.hit key windowMs hfwd]
    rfl
  | flush now => exact ⟨rfl, ⟨(hwf.flush now).lt, (hwf.flush now).inj⟩, hmatches.flush hfwd⟩
  | resume i task =>
    have hsame := SameWindows.syncKey s task.key task.addr
    refine ⟨rfl, hquiet ⟨hsame.memoryTier, hsame.allocated, hsame.windowAt⟩ ?_⟩
    rcases syncKey_cases s task.key task.addr with heq | ⟨-, -, heq⟩
    · rw [heq]
    · rw [heq]
      rfl
  | advance l i w w' hw hmoves hl =>
    have hchecks : l.checks = [] := by
      cases l with
      | check => cases hl
      | _ => rfl
    rw [hl, hchecks]
    exact ⟨rfl, hquiet ⟨rfl, rfl, fun _ ↦ rfl⟩ rfl⟩
  | settle i w result => exact ⟨rfl, hquiet (.settle s i w result) rfl⟩

/-- **Decisions.** For any interleaving of requests, flushes and writes, whatever the store answers,
the service gives the answers of the fixed-window counter, as long as the clock does not go back. -/
theorem answers_eq_fixedWindow (now : ℚ) (as : List Label) {t : RateLimitService}
    (hforward : Machine.Guarded step Forward (init now) as)
    (hrun : Machine.run step (init now) as = some t) :
    Machine.trace step answer (init now) as =
      (Machine.replay FixedWindow.check (fun _ ↦ none) (as.flatMap Label.checks)).1 := by
  have hwf : Wf (init now) := ⟨(nomatch ·), nofun⟩
  have hmatches : Matches (init now) fun _ ↦ none := fun _ ↦ .inl rfl
  refine trace_eq_replay (R := fun s windows ↦ Wf s ∧ Matches s windows) ?_
    ⟨hwf, hmatches⟩ hforward hrun
  intro s windows l t h hforward hstep
  exact Matches.step h hforward hstep

/-- Two requests, a write that fails, a flush after the end of the window, and one more request. -/
def busyKey : List Label :=
  [.check "10.0.0.1" 2 1000 0, .check "10.0.0.1" 2 1000 5, .read 0 (.error "busy") 6, .flush 1001,
    .check "10.0.0.1" 2 1000 1001]

theorem answers_eq_fixedWindow_busyKey :
    Machine.trace step answer (init 0) busyKey =
      (Machine.replay FixedWindow.check (fun _ ↦ none) (busyKey.flatMap Label.checks)).1 := by
  obtain ⟨t, ht⟩ := isSome_iff_exists.1
    (show (run step (init 0) busyKey).isSome from by decide +kernel)
  exact answers_eq_fixedWindow 0 busyKey (by decide +kernel) ht

/-! ### No more than the limit -/

variable {key : String} {limit : ℕ}

/-- What a window leaves of the limit to answers with an end. -/
def room (limit : ℕ) (resetAt : ℚ) : Option Window → ℕ
  | some w =>
    if resetAt < w.resetAt then 0 else if resetAt = w.resetAt then limit - w.count else limit
  | none => limit

/-- An answer that allows a request takes from the room. -/
theorem room_hit (resetAt : ℚ) (window : Option Window) {c : Check} (hlimit : c.limit ≤ limit)
    (hwindow : 0 ≤ c.windowMs) :
    let w := Window.hit window c.windowMs c.now
    (if (w.count : ℚ) ≤ c.limit ∧ w.resetAt = resetAt then 1 else 0) + room limit resetAt (some w) ≤
      room limit resetAt window := by
  intro w
  have hcount : (w.count : ℚ) ≤ c.limit → w.count ≤ limit := fun h ↦ mod_cast h.trans hlimit
  rcases window with - | old <;> grind [Window.hit, room]

/-- How many requests of a key are allowed in the window with an end. -/
def allowedIn (key : String) (resetAt : ℚ) (answers : List (Check × RateLimitStatus)) : ℕ :=
  answers.countP fun a ↦ a.1.key = key ∧ a.2.allowed ∧ a.2.resetAt = resetAt

theorem allowedIn_le_room (resetAt : ℚ) (cs : List Check) (windows : FixedWindow)
    (hcs : ∀ c ∈ cs, c.key = key → c.limit ≤ limit ∧ 0 ≤ c.windowMs) :
    allowedIn key resetAt (cs.zip (replay FixedWindow.check windows cs).1) ≤
      room limit resetAt (windows key) := by
  induction cs generalizing windows with
  | nil => exact Nat.zero_le _
  | cons c cs ih =>
    obtain ⟨hc, hcs⟩ := List.forall_mem_cons.1 hcs
    have hrest := ih (FixedWindow.check windows c).2 hcs
    simp only [FixedWindow.check] at hrest
    simp only [allowedIn, replay] at hrest ⊢
    by_cases hkey : c.key = key
    · have hthis := room_hit resetAt (windows c.key) (hc hkey).1 (hc hkey).2
      grind [FixedWindow.check, Window.status]
    · grind [FixedWindow.check]

/-- **No more than the limit.** In any run whose clock does not go back, at most `limit` requests of
a key are allowed in one window. -/
theorem allowed_le_limit (as : List Label) (hforward : Guarded step Forward (init now) as)
    (hrun : run step (init now) as = some t)
    (hcs : ∀ c ∈ as.flatMap Label.checks, c.key = key → c.limit ≤ limit ∧ 0 ≤ c.windowMs)
    (resetAt : ℚ) :
    allowedIn key resetAt ((as.flatMap Label.checks).zip (trace step answer (init now) as)) ≤
      limit := by
  have hwf : Wf (init now) := ⟨(nomatch ·), nofun⟩
  have htrace : trace step answer (init now) as =
      (replay FixedWindow.check (fun _ ↦ none) (as.flatMap Label.checks)).1 := by
    refine trace_eq_replay (R := fun s windows ↦ Wf s ∧ Matches s windows) ?_
      ⟨hwf, fun _ ↦ .inl rfl⟩ hforward hrun
    exact fun h hfwd hstep ↦ Matches.step h hfwd hstep
  rw [htrace]
  exact allowedIn_le_room resetAt _ _ hcs

theorem allowed_le_limit_busyKey : allowedIn "10.0.0.1" 1000
    ((busyKey.flatMap Label.checks).zip (trace step answer (init 0) busyKey)) ≤ 2 := by
  obtain ⟨t, ht⟩ := isSome_iff_exists.1
    (show (run step (init 0) busyKey).isSome from by decide +kernel)
  exact allowed_le_limit busyKey (by decide +kernel) ht (by decide +kernel) 1000

end RateLimitService

end Identity
