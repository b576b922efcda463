import CounterTerrorist.Logging.Service

/-!
# Every log entry, once

A call of `log` with a message, from a source and with a text that are not on the ignore lists,
should leave one record in the buffers or the store.

A call that comes while another one is at work leaves none (`overlapping_call_dropped`), whoever
made it: the flag against recursion is up while the first call waits. Records are also lost when the
store refuses an entry from the time before it was there, and doubled when it refuses a later chunk
of a batch, since the whole batch is put back. Otherwise records only move from one place to
another, so every call that should be recorded is recorded once if and only if none of this happens
on the way (`recorded_once_iff`).

The count is taken over all the places where a record can be (`copies`).
-/

namespace Logging

open List Option

namespace LoggingService

open Core

/-! ### The condition -/

/-- A call that should be recorded. -/
def Wanted (entry : LogEntry) : Prop := entry.message ≠ [] ∧ ¬Ignored entry

instance (entry : LogEntry) : Decidable (Wanted entry) := inferInstanceAs (Decidable (_ ∧ _))

/-- The call with this number should be recorded. -/
def Wants (s : LoggingService) (i : ℕ) : Prop := ∃ entry, s.calls[i]? = some entry ∧ Wanted entry

/-- The buffers have room for what a step puts into them. -/
def Bounded (s : LoggingService) : Label → Prop
  | .log _ => s.diagnosticRepo = true ∨ s.preInitBuffer.length < 500
  | .commit false => ∀ f, s.flush = some f → f.toFlush.length + s.kvBuffer.length ≤ 1000
  | _ => True

instance (s : LoggingService) (i : ℕ) : Decidable (s.Wants i) :=
  inferInstanceAs (Decidable (∃ entry ∈ s.calls[i]?, Wanted entry))

instance (s : LoggingService) : (a : Label) → Decidable (s.Bounded a)
  | .log _ => inferInstanceAs (Decidable (_ ∨ _))
  | .commit false =>
    inferInstanceAs (Decidable (∀ f ∈ s.flush, f.toFlush.length + s.kvBuffer.length ≤ 1000))
  | .commit true | .setConfig _ | .setKv | .resume | .tick | .added _ _ => .isTrue trivial

variable (process : List Text → LogEntry → Option LogEntry)

/-- A step that neither drops nor doubles a record that is wanted. A call comes when no other one is
at work, and is written. If a chunk fails, nothing of its batch was saved. Nothing that came before
the store is refused by it. -/
def Kept (s : LoggingService) : Label → Prop
  | .log entry => Wanted entry → s.isLogging = false ∧ (s.toWrite process entry).isSome
  | .commit false => ∀ record ∈ s.saved, ¬s.Wants record.call
  | .added i false => ∀ record, s.adding[i]? = some record → ¬s.Wants record.call
  | _ => True

instance (s : LoggingService) : (a : Label) → Decidable (s.Kept process a)
  | .log _ => inferInstanceAs (Decidable (_ → _))
  | .commit false => inferInstanceAs (Decidable (∀ record ∈ s.saved, ¬s.Wants record.call))
  | .added i false =>
    inferInstanceAs (Decidable (∀ record ∈ s.adding[i]?, ¬s.Wants record.call))
  | .commit true | .added _ true | .setConfig _ | .setKv | .resume | .tick => .isTrue trivial

/-- Every call that should be recorded has one record somewhere. -/
def OneCopy (s : LoggingService) : Prop := ∀ i, s.Wants i → s.copies i = 1

/-! ### Steps -/

/-- What the store has of a flush is in the store. -/
def Covers (s : LoggingService) : Prop :=
  ∀ i, 0 < copiesIn i s.saved → 0 < copiesIn i s.store

/-- Records move. -/
structure Moves (s t : LoggingService) : Prop where
  calls : t.calls = s.calls
  copies : ∀ i, t.copies i = s.copies i
  early : ∀ i, t.early i ≤ s.early i
  covers : s.Covers → t.Covers

/-- A record is written. -/
structure Writes (s : LoggingService) (n : ℕ) (t : LoggingService) : Prop where
  calls : t.calls = s.calls
  copies : ∀ i, t.copies i = s.copies i + if n = i then 1 else 0
  early : ∀ i, t.early i ≤ s.early i + if n = i then 1 else 0
  covers : s.Covers → t.Covers

/-- A call is taken down. -/
def called (s : LoggingService) (entry : LogEntry) : LoggingService :=
  { s with calls := s.calls ++ [entry] }

/-- `log` writes the entry. -/
def Keeps (s : LoggingService) (entry : LogEntry) : Prop :=
  entry.message ≠ [] ∧ s.isLogging = false ∧ (s.toWrite process entry).isSome

/-- What a step does to the records. -/
inductive Step (s : LoggingService) : Label → LoggingService → Prop
  | moved (a : Label) (t : LoggingService) (hkept : s.Kept process a) (h : s.Moves t) : Step s a t
  | dropped (entry : LogEntry) (h : ¬s.Keeps process entry) :
    Step s (.log entry) (s.called entry)
  | written (entry : LogEntry) (t : LoggingService) (hkeeps : s.Keeps process entry)
    (h : (s.called entry).Writes s.calls.length t) : Step s (.log entry) t
  | putBack (t : LoggingService) (hcalls : t.calls = s.calls)
    (hcopies : ∀ i, t.copies i = s.copies i + copiesIn i s.saved)
    (hearly : ∀ i, t.early i = s.early i) (hcovers : t.Covers) : Step s (.commit false) t
  | lost (j : ℕ) (record : Record) (t : LoggingService) (hrecord : s.adding[j]? = some record)
    (hcalls : t.calls = s.calls)
    (hcopies : ∀ i, t.copies i + copiesIn i [record] = s.copies i)
    (hearly : ∀ i, t.early i + copiesIn i [record] = s.early i) (hcovers : s.Covers → t.Covers) :
    Step s (.added j false) t

variable {process} {s t : LoggingService}

theorem Moves.refl (s : LoggingService) : s.Moves s := ⟨rfl, fun _ ↦ rfl, fun _ ↦ le_rfl, id⟩

/-- A flush that starts moves records. -/
theorem moves_flushKvBuffer (s : LoggingService) : s.Moves s.flushKvBuffer := by
  rw [flushKvBuffer]
  split
  case isTrue => exact .refl s
  case isFalse hstart =>
    have hflush : s.flush = none := by
      cases hflush : s.flush with
      | none => rfl
      | some f => exact absurd (by simp [hflush]) hstart
    refine ⟨rfl, fun i ↦ ?_, fun i ↦ le_rfl, fun _ i hi ↦ ?_⟩
    · simp only [copies, unsaved, hflush, early, drop_zero]
      omega
    · simp [saved] at hi

theorem moves_setKv (s : LoggingService) : s.Moves s.setKv := by
  have hearly (i : ℕ) : s.setKv.early i = s.early i := by
    simp only [early, setKv, copiesIn_nil, copiesIn_append]
    omega
  refine ⟨rfl, fun i ↦ ?_, fun i ↦ (hearly i).le, id⟩
  rw [copies, hearly]
  rfl

variable {entry : LogEntry} {record : Record} {a : Label}

/-- A record is written, if there is room. -/
theorem writes_writeToKv {n : ℕ} (hroom : s.diagnosticRepo = true ∨ s.preInitBuffer.length < 500) :
    s.Writes n (s.writeToKv ⟨n, entry⟩) := by
  have hone (i : ℕ) : copiesIn i [⟨n, entry⟩] = if n = i then 1 else 0 := copiesIn_singleton
  rw [writeToKv]
  split
  case isTrue =>
    -- the buffer first, then perhaps a flush
    have hpush : s.Writes n { s with kvBuffer := s.kvBuffer ++ [⟨n, entry⟩] } := by
      refine ⟨rfl, fun i ↦ ?_, fun i ↦ Nat.le_add_right _ _, id⟩
      simp only [copies, unsaved, early, copiesIn_append, hone]
      omega
    dsimp only
    split
    · have hflush := moves_flushKvBuffer { s with kvBuffer := s.kvBuffer ++ [⟨n, entry⟩] }
      exact ⟨hflush.calls.trans hpush.calls, fun i ↦ (hflush.copies i).trans (hpush.copies i),
        fun i ↦ (hflush.early i).trans (hpush.early i), hflush.covers ∘ hpush.covers⟩
    · exact hpush
  case isFalse hrepo =>
    have hshort : ¬500 < (s.preInitBuffer ++ [(⟨n, entry⟩ : Record)]).length := by
      rw [length_append, length_singleton]
      have := hroom.resolve_left hrepo
      omega
    have hearly (i : ℕ) : ({ s with preInitBuffer := s.preInitBuffer ++ [⟨n, entry⟩] } :
        LoggingService).early i = s.early i + if n = i then 1 else 0 := by
      simp only [early, copiesIn_append, hone]
      omega
    simp only [hshort, if_false]
    refine ⟨rfl, fun i ↦ ?_, fun i ↦ (hearly i).le, id⟩
    rw [copies, hearly]
    simp only [copies, unsaved]
    omega

variable {f : Flush} {j i : ℕ} {l : List Record}

/-- A chunk that is saved is moved. -/
theorem moves_commit (hflush : s.flush = some f) : s.Moves (s.commit f true) := by
  have hchunk (i : ℕ) : copiesIn i ((f.toFlush.drop f.saved).take 100) +
      copiesIn i (f.toFlush.drop (f.saved + 100)) = copiesIn i (f.toFlush.drop f.saved) := by
    rw [← drop_drop, copiesIn_take_add_drop]
  rw [commit, if_pos rfl]
  split
  case isTrue hlast =>
    have hend : f.toFlush.drop (f.saved + 100) = [] := drop_eq_nil_of_le hlast
    refine ⟨rfl, fun i ↦ ?_, fun i ↦ le_rfl, fun _ i hi ↦ absurd hi (Nat.lt_irrefl 0)⟩
    have := hchunk i
    rw [hend, copiesIn_nil] at this
    simp only [copies, unsaved, hflush, early, copiesIn_append, copiesIn_nil]
    omega
  case isFalse =>
    refine ⟨rfl, fun i ↦ ?_, fun i ↦ le_rfl, fun hcovers i hi ↦ ?_⟩
    · have := hchunk i
      simp only [copies, unsaved, hflush, early, copiesIn_append]
      omega
    · have hsplit : f.toFlush.take (f.saved + 100) =
          f.toFlush.take f.saved ++ (f.toFlush.drop f.saved).take 100 := take_add
      have hold := hcovers i
      simp only [saved, hflush, hsplit, copiesIn_append] at hi hold ⊢
      omega

/-- A batch that fails is put back. -/
theorem step_commit_false (hflush : s.flush = some f)
    (hroom : f.toFlush.length + s.kvBuffer.length ≤ 1000) :
    Step process s (.commit false) (s.commit f false) := by
  have hbuf : (f.toFlush ++ s.kvBuffer).take 1000 = f.toFlush ++ s.kvBuffer :=
    take_of_length_le (by rwa [length_append])
  refine .putBack _ rfl (fun i ↦ ?_) (fun i ↦ rfl) fun i hi ↦ absurd hi (Nat.lt_irrefl 0)
  have hsplit := copiesIn_take_add_drop (i := i) f.saved f.toFlush
  simp only [copies, commit, Bool.false_eq_true, if_false, hbuf, copiesIn_append, unsaved, saved,
    hflush, early, copiesIn_nil]
  omega

section

variable (hrecord : s.adding[j]? = some record)
include hrecord

theorem early_eraseIdx (store : List Record) (i : ℕ) :
    ({ s with adding := s.adding.eraseIdx j, store := store } : LoggingService).early i +
      copiesIn i [record] = s.early i := by
  have herase := copiesIn_eraseIdx (i := i) hrecord
  simp only [early]
  omega

theorem moves_added :
    s.Moves { s with adding := s.adding.eraseIdx j, store := s.store ++ [record] } := by
  have hearly := early_eraseIdx hrecord (s.store ++ [record])
  refine ⟨rfl, fun i ↦ ?_, fun i ↦ ?_, fun hcovers i hi ↦ ?_⟩
  · have := hearly i
    rw [copies, copies]
    simp only [unsaved, copiesIn_append]
    omega
  · have := hearly i
    omega
  · have := hcovers i hi
    rw [copiesIn_append]
    omega

theorem step_added_false :
    Step process s (.added j false) { s with adding := s.adding.eraseIdx j } := by
  have hearly := early_eraseIdx hrecord s.store
  refine .lost j record _ hrecord rfl (fun i ↦ ?_) hearly id
  rw [copies, copies, ← hearly i]
  simp only [unsaved]
  omega

end

theorem step_log (hroom : s.diagnosticRepo = true ∨ s.preInitBuffer.length < 500) :
    Step process s (.log entry) (s.log process entry) := by
  rw [log]
  split
  case isTrue hempty => exact .dropped entry fun hkeeps ↦ hkeeps.1 hempty
  case isFalse hmsg =>
    split
    case isTrue hlogging =>
      exact .dropped entry fun hkeeps ↦ Bool.noConfusion (hlogging.symm.trans hkeeps.2.1)
    case isFalse hlogging =>
      cases hwrite : s.toWrite process entry with
      | none =>
        exact .dropped entry fun hkeeps ↦ isSome_iff_ne_none.1 hkeeps.2.2 hwrite
      | some written =>
        have hwrites : (s.called entry).Writes s.calls.length
            ((s.called entry).writeToKv ⟨s.calls.length, written⟩) := writes_writeToKv hroom
        exact .written entry _ ⟨hmsg, Bool.eq_false_iff.2 hlogging, by rw [hwrite]; rfl⟩
          ⟨hwrites.calls, hwrites.copies, hwrites.early, hwrites.covers⟩

/-- Every step is one of these. -/
theorem Step.of_step (hroom : s.Bounded a) (h : s.step process a = some t) :
    Step process s a t := by
  cases a with
  | setConfig config =>
    cases h
    exact .moved _ _ trivial ⟨rfl, fun _ ↦ rfl, fun _ ↦ le_rfl, id⟩
  | setKv =>
    cases h
    exact .moved _ _ trivial (moves_setKv s)
  | log entry =>
    cases h
    exact step_log hroom
  | resume =>
    rw [step] at h
    split at h
    · cases h
      exact .moved _ _ trivial ⟨rfl, fun _ ↦ rfl, fun _ ↦ le_rfl, id⟩
    · cases h
  | tick =>
    cases h
    exact .moved _ _ trivial (moves_flushKvBuffer s)
  | commit ok =>
    obtain ⟨f, hflush, rfl⟩ := map_eq_some_iff.1 h
    cases ok with
    | true => exact .moved _ _ trivial (moves_commit hflush)
    | false => exact step_commit_false hflush (hroom f hflush)
  | added j ok =>
    obtain ⟨record, hrecord, rfl⟩ := map_eq_some_iff.1 h
    cases ok with
    | true => exact .moved _ _ trivial (moves_added hrecord)
    | false => exact step_added_false hrecord

/-! ### What a step keeps -/

/-- Where records can be. -/
structure Sound (s : LoggingService) : Prop where
  /-- Only calls that were made have records. -/
  made : ∀ i, s.calls.length ≤ i → s.copies i = 0
  /-- A record from the time before the store is the only one of its call. -/
  once : ∀ i, 0 < s.early i → s.copies i = 1
  covers : s.Covers

theorem sound_start (diagnosticRepo : Bool) : (start diagnosticRepo).Sound where
  made _ _ := rfl
  once _ hi := absurd hi (Nat.lt_irrefl 0)
  covers _ hi := absurd hi (Nat.lt_irrefl 0)

theorem early_add_store_le (s : LoggingService) (i : ℕ) :
    s.early i + copiesIn i s.store ≤ s.copies i := by
  rw [copies]
  omega

/-- A call has nothing in the saved part of a flush if the store cannot have a record of it. -/
theorem Sound.saved_eq_zero (hs : s.Sound) (h : s.copies i ≤ s.early i) :
    copiesIn i s.saved = 0 := by
  by_contra hne
  have hstore := hs.covers i (Nat.pos_of_ne_zero hne)
  have := s.early_add_store_le i
  omega

/-- Soundness is kept by every step. -/
theorem Sound.step (hs : s.Sound) (h : Step process s a t) : t.Sound := by
  cases h with
  | moved a t _ h =>
    exact ⟨fun i hi ↦ (h.copies i).trans (hs.made i (h.calls ▸ hi)),
      fun i hi ↦ (h.copies i).trans (hs.once i (hi.trans_le (h.early i))), h.covers hs.covers⟩
  | dropped entry =>
    refine ⟨fun i hi ↦ hs.made i ?_, hs.once, hs.covers⟩
    rw [called, length_append] at hi
    exact (Nat.le_add_right _ _).trans hi
  | written entry t _ h =>
    have hfresh := hs.made _ le_rfl
    refine ⟨fun i hi ↦ ?_, fun i hi ↦ ?_, h.covers hs.covers⟩
    · rw [h.calls, called, length_append, length_singleton] at hi
      rw [h.copies, if_neg (by omega)]
      exact hs.made i (by omega)
    · have hcopies := h.copies i
      have hearly := h.early i
      split at hcopies
      case isTrue hi =>
        subst hi
        exact hcopies.trans (congrArg (· + 1) hfresh)
      case isFalse hne =>
        rw [if_neg hne] at hearly
        exact hcopies.trans (hs.once i (hi.trans_le hearly))
  | putBack t hcalls hcopies hearly hcovers =>
    refine ⟨fun i hi ↦ ?_, fun i hi ↦ ?_, hcovers⟩
    · rw [hcalls] at hi
      have hnone := hs.made i hi
      rw [hcopies, hnone, hs.saved_eq_zero (by omega)]
    · rw [hearly] at hi
      have hone := hs.once i hi
      rw [hcopies, hone, hs.saved_eq_zero (by omega)]
  | lost j record t hrecord hcalls hcopies hearly hcovers =>
    refine ⟨fun i hi ↦ ?_, fun i hi ↦ ?_, hcovers hs.covers⟩
    · have hnone := hs.made i (hcalls ▸ hi)
      have := hcopies i
      omega
    · have hone := hs.once i (by have := hearly i; omega)
      have hle := t.early_add_store_le i
      have := hcopies i
      omega

theorem Wants.lt (h : s.Wants i) : i < s.calls.length := by
  obtain ⟨entry, hentry, -⟩ := h
  exact (List.getElem?_eq_some_iff.1 hentry).1

/-- A call that is wanted is one more. -/
theorem wants_called :
    (s.called entry).Wants i ↔ s.Wants i ∨ i = s.calls.length ∧ Wanted entry := by
  simp only [Wants, called, getElem?_append]
  split
  case isTrue hi => exact (or_iff_left fun h ↦ Nat.ne_of_lt hi h.1).symm
  case isFalse hi =>
    rcases (Nat.not_lt.1 hi).eq_or_lt with rfl | hlt
    · simp
    · obtain ⟨k, rfl⟩ := Nat.exists_eq_add_of_lt hlt
      simp [Nat.add_assoc]

/-- The calls after a call of `log`: those before, and it. -/
theorem oneCopy_of_calls (hcalls : t.calls = (s.called entry).calls) : t.OneCopy ↔
      (∀ i, s.Wants i → t.copies i = 1) ∧ (Wanted entry → t.copies s.calls.length = 1) := by
  have hwants (i : ℕ) : t.Wants i ↔ s.Wants i ∨ i = s.calls.length ∧ Wanted entry := by
    rw [← wants_called, Wants, hcalls]
    rfl
  simp only [OneCopy, hwants, or_imp, forall_and, and_imp, forall_eq]

/-- The records of a list are of other calls. -/
theorem forall_copiesIn_eq_zero_iff :
    (∀ i, s.Wants i → copiesIn i l = 0) ↔ ∀ record ∈ l, ¬s.Wants record.call := by
  constructor
  · exact fun h record hmem hwants ↦ Nat.ne_of_gt (copiesIn_pos hmem) (h _ hwants)
  · intro h i hwants
    by_contra hne
    obtain ⟨record, hmem, rfl⟩ := exists_of_copiesIn_pos (Nat.pos_of_ne_zero hne)
    exact h record hmem hwants

/-- A step that changes the number of records of some calls. -/
theorem oneCopy_of_records (hcalls : t.calls = s.calls)
    (h : ∀ i, t.copies i = 1 ↔ s.copies i = 1 ∧ copiesIn i l = 0) :
    t.OneCopy ↔ s.OneCopy ∧ ∀ record ∈ l, ¬s.Wants record.call := by
  have hwants (i : ℕ) : t.Wants i ↔ s.Wants i := by rw [Wants, Wants, hcalls]
  rw [← forall_copiesIn_eq_zero_iff]
  simp only [OneCopy, hwants, h, forall_and]

/-- What was saved is in the store, so a second record of it would be too many. -/
theorem Sound.add_saved_eq_one_iff (hs : s.Sound) (i : ℕ) :
    s.copies i + copiesIn i s.saved = 1 ↔ s.copies i = 1 ∧ copiesIn i s.saved = 0 := by
  have hstore (hne : copiesIn i s.saved ≠ 0) : 0 < copiesIn i s.store :=
    hs.covers i (Nat.pos_of_ne_zero hne)
  have hle := s.early_add_store_le i
  omega

/-- A step leaves one record of every call that should have one if and only if it did so before and
the step is kept. -/
theorem oneCopy_iff (hs : s.Sound) (h : Step process s a t) :
    t.OneCopy ↔ s.OneCopy ∧ s.Kept process a := by
  have hfresh := hs.made _ le_rfl
  cases h with
  | moved a t hkept h =>
    rw [and_iff_left hkept]
    simp only [OneCopy, Wants, h.calls, h.copies]
  | dropped entry h =>
    refine (oneCopy_of_calls rfl).trans (and_congr_right fun _ ↦ imp_congr_right fun hwanted ↦ ?_)
    exact iff_of_false (fun hone ↦ Nat.zero_ne_one (hfresh.symm.trans hone))
      fun hwritten ↦ h ⟨hwanted.1, hwritten⟩
  | written entry t hkeeps h =>
    rw [oneCopy_of_calls h.calls]
    refine and_congr (forall₂_congr fun i hi ↦ ?_) (imp_congr_right fun _ ↦ ?_)
    · rw [h.copies, if_neg (Nat.ne_of_gt hi.lt)]
      exact Iff.rfl
    · refine iff_of_true ?_ hkeeps.2
      rw [h.copies, if_pos rfl]
      exact congrArg (· + 1) hfresh
  | putBack t hcalls hcopies hearly hcovers =>
    refine oneCopy_of_records hcalls fun i ↦ ?_
    rw [hcopies]
    exact hs.add_saved_eq_one_iff i
  | lost j record t hrecord hcalls hcopies hearly hcovers =>
    have hone : s.copies record.call = 1 := by
      refine hs.once _ ?_
      rw [← hearly]
      exact Nat.add_pos_right _ (copiesIn_pos mem_cons_self)
    have hkept : s.Kept process (.added j false) ↔ ∀ other ∈ [record], ¬s.Wants other.call := by
      show (∀ other, s.adding[j]? = some other → _) ↔ _
      simp only [hrecord, Option.some.injEq, forall_eq', mem_singleton, forall_eq]
    rw [hkept]
    refine oneCopy_of_records hcalls fun i ↦ ?_
    have hcnt := hcopies i
    rw [copiesIn_singleton] at hcnt ⊢
    split at hcnt
    case isTrue hi =>
      subst hi
      rw [if_pos rfl]
      omega
    case isFalse hi =>
      rw [if_neg hi]
      omega

/-! ### Runs -/

/-- Nothing is in flight to the store. -/
def Settled (s : LoggingService) : Prop := s.flush = none ∧ s.adding = []

/-- At rest, records are in three places. -/
theorem Settled.copies_eq (h : s.Settled) (i : ℕ) :
    s.copies i = copiesIn i (s.kvBuffer ++ s.preInitBuffer ++ s.store) := by
  simp only [copies, unsaved, early, h.1, h.2, copiesIn_append, copiesIn_nil]
  omega

theorem oneCopy_start (diagnosticRepo : Bool) : (start diagnosticRepo).OneCopy := by
  rintro i ⟨entry, hentry, -⟩
  cases hentry

/-- **Recorded once.** In every run that does not overfill a buffer, once nothing is in flight,
every call that should be recorded has one record in the buffers and the store, if and only if all
steps of the run were kept. -/
theorem recorded_once_iff {diagnosticRepo : Bool} {as : List Label} {s : LoggingService}
    (hbounded : Machine.Guarded (step process) Bounded (start diagnosticRepo) as)
    (hrun : Machine.run (step process) (start diagnosticRepo) as = some s) (hsettled : s.Settled) :
    (∀ i entry, s.calls[i]? = some entry → Wanted entry →
        (s.kvBuffer ++ s.preInitBuffer ++ s.store).countP (·.call = i) = 1) ↔
      Machine.Guarded (step process) (Kept process) (start diagnosticRepo) as := by
  have hiff : s.OneCopy ↔ (start diagnosticRepo).OneCopy ∧
      Machine.Guarded (step process) (Kept process) (start diagnosticRepo) as :=
    Machine.run_iff_guarded (fun hs hok hstep ↦ Sound.step hs (Step.of_step hok hstep))
      (fun hs hok hstep ↦ oneCopy_iff hs (.of_step hok hstep)) (sound_start diagnosticRepo)
      hbounded hrun
  rw [and_iff_right (oneCopy_start diagnosticRepo)] at hiff
  rw [← hiff]
  refine forall_congr' fun i ↦ ?_
  rw [hsettled.copies_eq]
  exact ⟨fun h ⟨entry, hentry, hwanted⟩ ↦ h entry hentry hwanted,
    fun h entry hentry hwanted ↦ h ⟨entry, hentry, hwanted⟩⟩

/-- The processor of the service, on some machine. -/
def processor (secrets : List Text) (entry : LogEntry) : Option LogEntry :=
  some (Logging.process decimal ⟨"node-a".toList, 42⟩ secrets entry).entry

/-- A message of the mesh. -/
def report (message : String) : LogEntry where
  timestamp := "2024-01-01T00:00:00.000Z".toList
  type := some .generic
  severity := some .info
  caller := "orchestrator:infra:mesh".toList
  message := message.toList
  payload := none
  formatted := none
  fromAudit := false

/-- A report before the store is there, and one afterwards. -/
def inTurn : List Label :=
  [.log (report "starting"), .resume, .setKv, .log (report "joined"), .added 0 true, .resume, .tick,
    .commit true]

/-- Two reports at once. -/
def atOnce : List Label := [.log (report "peer a is down"), .log (report "peer b is down"), .resume]

/-- What is left of a run: the messages, and whether all of them are settled. -/
def summary (s : LoggingService) : List Text × Bool × Bool :=
  (s.calls.map (·.message), s.flush.isNone, s.adding.isEmpty)

theorem settled_of_summary {messages : List Text} (h : s.summary = (messages, true, true)) :
    s.Settled := by
  obtain ⟨-, hrest⟩ := Prod.mk.inj h
  obtain ⟨hflush, hadding⟩ := Prod.mk.inj hrest
  exact ⟨isNone_iff_eq_none.1 hflush, List.isEmpty_iff.1 hadding⟩

theorem recorded_once_iff_inTurn :
    ∃ s, Machine.run (step processor) (start false) inTurn = some s ∧ s.Settled ∧
      ∀ i entry, s.calls[i]? = some entry → Wanted entry →
        (s.kvBuffer ++ s.preInitBuffer ++ s.store).countP (·.call = i) = 1 := by
  obtain ⟨s, hrun, hsummary⟩ := Option.map_eq_some_iff.1 (show
    (Machine.run (step processor) (start false) inTurn).map summary =
      some (["starting".toList, "joined".toList], true, true) from by decide +kernel)
  have hsettled := settled_of_summary hsummary
  exact ⟨s, hrun, hsettled,
    (recorded_once_iff (by decide +kernel) hrun hsettled).2 (by decide +kernel)⟩

/-- Of two calls that two callers make at once, the second leaves no record. -/
theorem overlapping_call_dropped :
    Machine.Guarded (step processor) Bounded (start true) atOnce ∧
      Wanted (report "peer b is down") ∧
      (Machine.run (step processor) (start true) atOnce).map (fun s ↦
        (s.summary, (s.kvBuffer ++ s.preInitBuffer ++ s.store).countP (·.call = 1))) =
        some ((["peer a is down".toList, "peer b is down".toList], true, true), 0) := by
  decide +kernel

end LoggingService

end Logging
