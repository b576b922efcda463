import CounterTerrorist.Audit.Steps

/-!
# Remote events

`syncEvents` takes a list of events from another node and saves those that extend the chain. Each
one it saves moves the chain head, so whether an event is accepted depends on all earlier ones.

## One call on its own

`acceptedEvents` is the list a call saves when nothing else runs in between and no promise is
rejected. `CallState` ties it to the machine: at every await point of such a call, what has been
saved and what the rest of the call will save together are that list. A rejected promise ends the
call with a part of it (`CutState`).

## What follows

* The saved events carry their digests and extend the chain, and only a checkpoint whose signature
  the TPM accepts may break it.
* Stored events are safe exactly as long as no accepted event has the key of a stored one and other
  contents. The sender chooses timestamp and id, which are the key.
-/

namespace Audit

open List Machine Option

namespace AuditService

variable (p : Ports)

/-- Whether an event is saved when the chain head is `lastHash`. -/
def acceptsRemote (lastHash : String) (e : AuditEvent) : Bool :=
  e.hash != lastHash &&
    match screen p e with
    | .reject => false
    | .verify => signatureValid p e
    | .link => e.prevHash == lastHash

/-- The events a call saves, in order. -/
def acceptedEvents : String → List AuditEvent → List AuditEvent
  | _, [] => []
  | lastHash, e :: es =>
    if acceptsRemote p lastHash e then e :: acceptedEvents e.hash es
    else acceptedEvents lastHash es

/-- A checkpoint that may follow anything. -/
def SignedBoundary (e : AuditEvent) : Prop :=
  e.prevHash = "TRUNCATED" ∧ e.type = "CHECKPOINT" ∧ signatureValid p e = true

variable {p}

/-! ### What the checks establish -/

variable {e : AuditEvent} {h : String} {es events saved rest : List AuditEvent} {sync : Sync}
  {s t u : AuditService} {replies : List SyncReply} {before : List Sync}

theorem screen_eq_link : screen p e = .link ↔ p.HashOk e ∧ e.prevHash ≠ "TRUNCATED" := by
  unfold screen Ports.HashOk
  by_cases hh : e.hash = p.computeHash e.hashInput
  · by_cases ht : e.prevHash = "TRUNCATED"
    · by_cases hc : e.type = "CHECKPOINT"
      · cases htpm : p.tpm <;> cases hs : Core.strTruthy e.hwSignature <;> simp [hh, hc]
      · simp [ht, hc]
    · simp [ht]
  · simp [hh]

theorem screen_eq_verify (h : screen p e = .verify) :
    p.HashOk e ∧ e.prevHash = "TRUNCATED" ∧ e.type = "CHECKPOINT" := by
  unfold screen at h
  split at h
  · exact nomatch h
  · rename_i hh
    split at h
    · exact nomatch h
    · rename_i hc
      split at h
      · rename_i ht
        exact ⟨not_not.1 hh, ht, not_not.1 fun hne ↦ hc ⟨ht, hne⟩⟩
      · exact nomatch h

/-- An accepted event carries its digest, and extends the chain or is a signed boundary. -/
theorem acceptsRemote_spec (ha : acceptsRemote p h e = true) :
    p.HashOk e ∧ (SignedBoundary p e ∨ (e.prevHash = h ∧ e.prevHash ≠ "TRUNCATED")) := by
  rw [acceptsRemote, Bool.and_eq_true] at ha
  obtain ⟨-, ha⟩ := ha
  rcases hs : screen p e with - | - | - <;> rw [hs] at ha
  · exact nomatch ha
  · obtain ⟨hh, ht, hc⟩ := screen_eq_verify hs
    exact ⟨hh, .inl ⟨ht, hc, ha⟩⟩
  · obtain ⟨hh, ht⟩ := screen_eq_link.1 hs
    exact ⟨hh, .inr ⟨eq_of_beq ha, ht⟩⟩

/-- Each event was accepted at some chain head. -/
theorem acceptsRemote_of_mem (he : e ∈ acceptedEvents p h es) :
    ∃ h, acceptsRemote p h e = true := by
  induction es generalizing h with
  | nil => exact nomatch he
  | cons a es ih =>
    rw [acceptedEvents] at he
    split at he
    · rename_i ha
      rcases mem_cons.1 he with rfl | he
      · exact ⟨h, ha⟩
      · exact ih he
    · exact ih he

theorem acceptedEvents_hashOk : ∀ e ∈ acceptedEvents p h es, p.HashOk e := by
  intro e he
  obtain ⟨h, ha⟩ := acceptsRemote_of_mem he
  exact (acceptsRemote_spec ha).1

/-- A truncation mark is only accepted on a signed boundary. -/
theorem acceptedEvents_truncated :
    ∀ e ∈ acceptedEvents p h es, e.prevHash = "TRUNCATED" → SignedBoundary p e := by
  intro e he ht
  obtain ⟨h, ha⟩ := acceptsRemote_of_mem he
  exact (acceptsRemote_spec ha).2.resolve_right fun hlink ↦ hlink.2 ht

/-- The accepted events extend the chain, up to signed boundaries. -/
theorem acceptedEvents_linked :
    HashChain.Linked AuditEvent.prevHash AuditEvent.hash (SignedBoundary p) h
      (acceptedEvents p h es) := by
  induction es generalizing h with
  | nil => exact HashChain.linked_nil
  | cons a es ih =>
    rw [acceptedEvents]
    split
    · rename_i ha
      refine ⟨?_, ih⟩
      rcases (acceptsRemote_spec ha).2 with hb | ⟨hp, -⟩
      · exact .inr hb
      · exact .inl hp
    · exact ih

/-- Nothing is saved that was not sent, and the order is kept. -/
theorem acceptedEvents_sublist : (acceptedEvents p h es).Sublist es := by
  induction es generalizing h with
  | nil => exact Sublist.refl _
  | cons a es ih =>
    rw [acceptedEvents]
    split
    · exact ih.cons_cons a
    · exact ih.cons a

/-! ### One call of the machine -/

variable (p)

/-- What the rest of a suspended call will save, when nothing else runs. -/
def remaining (lastHash : String) (sync : Sync) : List AuditEvent :=
  match sync.stage with
  | .hashing => acceptedEvents p lastHash (sync.event :: sync.rest)
  | .verifying =>
    if signatureValid p sync.event then
      sync.event :: acceptedEvents p sync.event.hash sync.rest
    else acceptedEvents p lastHash sync.rest
  | .saving => sync.event :: acceptedEvents p sync.event.hash sync.rest

/-- What is known at an await point: an event that is being hashed is not the chain head, and one
whose signature is being verified is a boundary. -/
def StageOk (lastHash : String) (sync : Sync) : Prop :=
  match sync.stage with
  | .hashing => sync.event.hash ≠ lastHash
  | .verifying => sync.event.prevHash = "TRUNCATED"
  | .saving => True

/-- Between `s` and `t` exactly the events `saved` were saved. -/
structure Saved (s t : AuditService) (saved : List AuditEvent) : Prop where
  ledger : t.history.ledger = s.history.ledger ++ saved
  repo : t.repo = saved.foldl p.save s.repo
  lastHash : t.lastHash = HashChain.headOf AuditEvent.hash s.lastHash saved

/-- A call on `events`, made in `s`, is suspended in `t`, or has ended there by itself. -/
def CallState (s : AuditService) (events : List AuditEvent) (t : AuditService) : Prop :=
  ∃ saved, Saved p s t saved ∧
    ((∃ sync, t.syncs = s.syncs ++ [sync] ∧ StageOk t.lastHash sync ∧
        saved ++ remaining p t.lastHash sync = acceptedEvents p s.lastHash events) ∨
      (t.syncs = s.syncs ∧ saved = acceptedEvents p s.lastHash events))

/-- A call on `events`, made in `s`, was ended by a rejected promise. -/
def CutState (s : AuditService) (events : List AuditEvent) (t : AuditService) : Prop :=
  ∃ saved, Saved p s t saved ∧ t.syncs = s.syncs ∧ saved <+: acceptedEvents p s.lastHash events

variable {p}

theorem syncNext_none (hn : syncNext h es = none) : acceptedEvents p h es = [] := by
  induction es with
  | nil => rfl
  | cons e es ih =>
    rw [syncNext] at hn
    split at hn
    · rename_i he
      rw [acceptedEvents, if_neg (by simp [acceptsRemote, he])]
      exact ih hn
    · cases hn

theorem syncNext_some (hn : syncNext h es = some sync) :
    StageOk h sync ∧ remaining p h sync = acceptedEvents p h es := by
  induction es with
  | nil => exact nomatch hn
  | cons e es ih =>
    rw [syncNext] at hn
    split at hn
    · rename_i he
      rw [acceptedEvents, if_neg (by simp [acceptsRemote, he])]
      exact ih hn
    · rename_i he
      obtain rfl := some.inj hn
      exact ⟨he, rfl⟩

section

variable (hs : Saved p s t saved) (hsyncs : t.syncs = s.syncs ++ [sync])
include hs hsyncs

/-- Going on with the rest of the list. -/
theorem callState_advance
    (hrest : saved ++ acceptedEvents p t.lastHash rest = acceptedEvents p s.lastHash events) :
    CallState p s events (t.advance s.syncs.length rest) := by
  unfold advance
  rcases hn : syncNext t.lastHash rest with - | next
  · rw [syncNext_none hn, append_nil] at hrest
    refine ⟨saved, ⟨hs.ledger, hs.repo, hs.lastHash⟩, .inr ⟨?_, hrest⟩⟩
    simp [hsyncs, eraseIdx_append_of_length_le]
  · obtain ⟨hst, hrem⟩ := syncNext_some (p := p) hn
    refine ⟨saved, ⟨hs.ledger, hs.repo, hs.lastHash⟩, .inl ⟨next, ?_, hst, ?_⟩⟩
    · simp [hsyncs]
    · exact (congrArg (saved ++ ·) hrem).trans hrest

/-- Changing only where the call waits. -/
theorem callState_wait {next : Sync} (hst : StageOk t.lastHash next)
    (hrest : saved ++ remaining p t.lastHash next = acceptedEvents p s.lastHash events) :
    CallState p s events { t with syncs := t.syncs.set s.syncs.length next } :=
  ⟨saved, ⟨hs.ledger, hs.repo, hs.lastHash⟩, .inl ⟨next, by simp [hsyncs], hst, hrest⟩⟩

/-- The link test, for an event that is accepted exactly when the test passes. -/
theorem callState_checkLink
    (hrest : saved ++ (if e.prevHash = t.lastHash ∨ e.prevHash = "TRUNCATED" then
      e :: acceptedEvents p e.hash rest else acceptedEvents p t.lastHash rest) =
        acceptedEvents p s.lastHash events) :
    CallState p s events (t.checkLink s.syncs.length e rest) := by
  unfold checkLink
  by_cases hlink : e.prevHash = t.lastHash ∨ e.prevHash = "TRUNCATED"
  · rw [if_pos hlink] at hrest
    rw [if_neg (by tauto)]
    exact callState_wait hs hsyncs trivial hrest
  · rw [if_neg hlink] at hrest
    rw [if_pos (by tauto)]
    exact callState_advance hs hsyncs hrest

end

section

variable {stage : SyncStage}

/-- What a resumption reads of the waiting call. -/
theorem getElem?_waiting (hsyncs : t.syncs = s.syncs ++ [⟨e, rest, stage⟩]) :
    t.syncs[s.syncs.length]? = some ⟨e, rest, stage⟩ := by simp [hsyncs]

variable (hs : Saved p s t saved) (hsyncs : t.syncs = s.syncs ++ [⟨e, rest, stage⟩])
  (hrest : saved ++ remaining p t.lastHash ⟨e, rest, stage⟩ = acceptedEvents p s.lastHash events)
include hs hsyncs hrest

section

variable (hst : StageOk t.lastHash ⟨e, rest, stage⟩)
include hst

/-- The hash is there: the event is screened. -/
theorem callState_hashed
    (hr : t.resumeSync p s.syncs.length .hashed = some u) : CallState p s events u := by
  rw [resumeSync, getElem?_waiting hsyncs] at hr
  cases stage with
  | hashing =>
    have hne : (e.hash != t.lastHash) = true := bne_iff_ne.2 hst
    simp only [remaining, acceptedEvents, acceptsRemote, hne] at hrest
    simp only [bind_eq_bind, bind_some] at hr
    rcases hscreen : screen p e with - | - | - <;> rw [hscreen] at hr hrest <;>
      obtain rfl := some.inj hr
    · exact callState_advance hs hsyncs hrest
    · exact callState_wait hs hsyncs (screen_eq_verify hscreen).2.1 hrest
    · refine callState_checkLink hs hsyncs ?_
      simpa [(screen_eq_link.1 hscreen).2] using hrest
  | verifying | saving => cases hr

/-- The signature is checked: the link is tested next, or the event is left out. -/
theorem callState_verified
    (hr : t.resumeSync p s.syncs.length .verified = some u) : CallState p s events u := by
  rw [resumeSync, getElem?_waiting hsyncs] at hr
  cases stage with
  | hashing | saving => cases hr
  | verifying =>
    simp only [remaining] at hrest
    simp only [bind_eq_bind, bind_some] at hr
    cases hv : signatureValid p e <;> rw [hv] at hr hrest <;> obtain rfl := some.inj hr
    · exact callState_advance hs hsyncs hrest
    · refine callState_checkLink hs hsyncs ?_
      rw [if_pos (.inr hst)]
      exact hrest

end

/-- The event is stored: it is appended to the ledger. -/
theorem callState_saved (hr : t.resumeSync p s.syncs.length .saved = some u) :
    CallState p s events u := by
  rw [resumeSync, getElem?_waiting hsyncs] at hr
  cases stage with
  | hashing | verifying => cases hr
  | saving =>
    obtain rfl := some.inj hr
    have hsaved : Saved p s (withRemote p t e) (saved ++ [e]) := by
      refine ⟨?_, ?_, ?_⟩
      · simp [withRemote, hs.ledger]
      · simp [withRemote, hs.repo]
      · simp [withRemote]
    refine callState_advance hsaved hsyncs ?_
    simpa [remaining] using hrest

/-- A rejected promise: the call ends where it is. -/
theorem cutState_rejected (hr : t.resumeSync p s.syncs.length .rejected = some u) :
    CutState p s events u := by
  rw [resumeSync, getElem?_waiting hsyncs] at hr
  obtain rfl : { t with syncs := t.syncs.eraseIdx s.syncs.length } = u := by
    cases stage <;> exact some.inj hr
  refine ⟨saved, ⟨hs.ledger, hs.repo, hs.lastHash⟩, ?_, ?_⟩
  · simp [hsyncs, eraseIdx_append_of_length_le]
  · rw [← hrest]
    exact prefix_append _ _

end

/-- Resuming the call: it goes on, or a rejected promise ends it. -/
theorem callState_resume {reply : SyncReply} (hc : CallState p s events t)
    (hr : t.resumeSync p s.syncs.length reply = some u) :
    (reply ≠ .rejected → CallState p s events u) ∧ (reply = .rejected → CutState p s events u) := by
  obtain ⟨saved, hs, ⟨⟨e, rest, stage⟩, hsyncs, hst, hrest⟩ | ⟨hsyncs, -⟩⟩ := hc
  · cases reply with
    | rejected => exact ⟨fun hne ↦ absurd rfl hne, fun _ ↦ cutState_rejected hs hsyncs hrest hr⟩
    | hashed => exact ⟨fun _ ↦ callState_hashed hs hsyncs hrest hst hr, nofun⟩
    | verified => exact ⟨fun _ ↦ callState_verified hs hsyncs hrest hst hr, nofun⟩
    | saved => exact ⟨fun _ ↦ callState_saved hs hsyncs hrest hr, nofun⟩
  · have hget : t.syncs[s.syncs.length]? = none := by simp [hsyncs]
    rw [resumeSync, hget] at hr
    cases hr

/-- A call of `syncEvents` that nothing else interrupts. -/
def syncCall (s : AuditService) (events : List AuditEvent) (replies : List SyncReply) :
    List Action :=
  .syncEvents events :: replies.map (.sync s.syncs.length)

/-- An ended call cannot be resumed. -/
theorem run_sync_of_ended (hsyncs : t.syncs = s.syncs)
    (hr : run (step p) t (replies.map (.sync s.syncs.length)) = some u) :
    replies = [] ∧ u = t := by
  cases replies with
  | nil => exact ⟨rfl, (some.inj hr).symm⟩
  | cons reply replies =>
    obtain ⟨v, hv, -⟩ := run_cons.1 hr
    have hget : t.syncs[s.syncs.length]? = none := by simp [hsyncs]
    rw [step, resumeSync, hget] at hv
    cases hv

theorem callState_run (hc : CallState p s events t)
    (hr : run (step p) t (replies.map (.sync s.syncs.length)) = some u) :
    (SyncReply.rejected ∉ replies → CallState p s events u) ∧
      (SyncReply.rejected ∈ replies → CutState p s events u) := by
  induction replies generalizing t with
  | nil =>
    obtain rfl := some.inj hr
    exact ⟨fun _ ↦ hc, fun hmem ↦ nomatch hmem⟩
  | cons reply replies ih =>
    obtain ⟨v, hv, hr⟩ := run_cons.1 hr
    obtain ⟨hgoes, hcut⟩ := callState_resume hc hv
    by_cases hrej : reply = .rejected
    · obtain ⟨saved, hsaved, hsyncs, hpre⟩ := hcut hrej
      obtain ⟨-, rfl⟩ := run_sync_of_ended hsyncs hr
      exact ⟨fun hnot ↦ absurd (hrej ▸ mem_cons_self) hnot, fun _ ↦ ⟨saved, hsaved, hsyncs, hpre⟩⟩
    · obtain ⟨hcall, hend⟩ := ih (hgoes hrej) hr
      refine ⟨fun hnot ↦ hcall fun hmem ↦ hnot (mem_cons_of_mem _ hmem), fun hmem ↦ hend ?_⟩
      exact (mem_cons.1 hmem).resolve_left fun heq ↦ hrej heq.symm

/-- The state right after the call was made. -/
theorem callState_start (ht : step p s (.syncEvents events) = some t) : CallState p s events t := by
  rw [step] at ht
  rcases hn : syncNext s.lastHash events with - | sync <;> rw [hn] at ht <;>
    obtain rfl := some.inj ht
  · exact ⟨[], ⟨by simp, rfl, rfl⟩, .inr ⟨rfl, (syncNext_none hn).symm⟩⟩
  · obtain ⟨hst, hrem⟩ := syncNext_some (p := p) hn
    exact ⟨[], ⟨by simp, rfl, rfl⟩, .inl ⟨sync, rfl, hst, hrem⟩⟩

/-- Whatever point an uninterrupted call has reached, it has saved a first part of the accepted
list; all of it, when it has ended and no promise was rejected. -/
theorem syncCall_saved (hr : run (step p) s (syncCall s events replies) = some t) :
    ∃ saved, Saved p s t saved ∧ saved <+: acceptedEvents p s.lastHash events ∧
      (SyncReply.rejected ∉ replies → t.syncs = s.syncs →
        saved = acceptedEvents p s.lastHash events) := by
  obtain ⟨u, hu, hr⟩ := run_cons.1 hr
  obtain ⟨hcall, hcut⟩ := callState_run (callState_start hu) hr
  by_cases hrej : SyncReply.rejected ∈ replies
  · obtain ⟨saved, hsaved, -, hpre⟩ := hcut hrej
    exact ⟨saved, hsaved, hpre, fun hnot ↦ absurd hrej hnot⟩
  · obtain ⟨saved, hsaved, ⟨sync, hsyncs, -, hrest⟩ | ⟨-, heq⟩⟩ := hcall hrej
    · refine ⟨saved, hsaved, hrest ▸ prefix_append _ _, fun _ hended ↦ ?_⟩
      rw [hsyncs] at hended
      exact absurd hended (by simp)
    · exact ⟨saved, hsaved, heq ▸ prefix_refl _, fun _ _ ↦ heq⟩

/-! ### A call can end -/

/-- The last call in flight can be brought to its end without a rejected promise. -/
def Finishes (p : Ports) (before : List Sync) (t : AuditService) : Prop :=
  ∃ (replies : List SyncReply) (u : AuditService), SyncReply.rejected ∉ replies ∧
    u.syncs = before ∧
    Machine.run (step p) t (replies.map (.sync before.length)) = some u

theorem syncNext_rest_lt (hn : syncNext h es = some sync) : sync.rest.length < es.length := by
  induction es with
  | nil => cases hn
  | cons e es ih =>
    rw [syncNext] at hn
    split at hn
    · exact Nat.lt_succ_of_lt (ih hn)
    · obtain rfl := some.inj hn
      exact Nat.lt_succ_self _

theorem Finishes.of_step (h : Finishes p before u) (reply : SyncReply)
    (hreply : reply ≠ .rejected) (hu : step p t (.sync before.length reply) = some u) :
    Finishes p before t := by
  obtain ⟨replies, v, hrej, hend, hrun⟩ := h
  refine ⟨reply :: replies, v, ?_, hend, run_cons.2 ⟨u, hu, hrun⟩⟩
  rw [mem_cons, not_or]
  exact ⟨fun heq ↦ hreply heq.symm, hrej⟩

/-- A call that goes on with a list ends, if calls with shorter lists do. -/
theorem finishes_advance (hsyncs : t.syncs = before ++ [sync])
    (ih : ∀ {u next}, next.rest.length < rest.length → u.syncs = before ++ [next] →
      Finishes p before u) :
    Finishes p before (t.advance before.length rest) := by
  rcases hn : syncNext t.lastHash rest with - | next
  · refine ⟨[], _, by simp, ?_, rfl⟩
    simp [advance, hn, hsyncs, eraseIdx_append_of_length_le]
  · refine ih (syncNext_rest_lt hn) ?_
    simp [advance, hn, hsyncs]

/-- Wherever a call waits, it can be brought to its end. -/
theorem finishes_of_suspended (hsyncs : t.syncs = before ++ [sync]) : Finishes p before t := by
  -- the induction is on the rest of the list; within one event the stages follow one another
  obtain ⟨n, hn⟩ : ∃ n, sync.rest.length = n := ⟨_, rfl⟩
  induction n using Nat.strong_induction_on generalizing t sync with
  | _ n ih =>
    have hshorter {u : AuditService} {next : Sync} (hlt : next.rest.length < n)
        (hu : u.syncs = before ++ [next]) : Finishes p before u := ih _ hlt hu rfl
    have hget {t : AuditService} {sync : Sync} (hsyncs : t.syncs = before ++ [sync]) :
        t.syncs[before.length]? = some sync := by simp [hsyncs]
    have hsaving {t : AuditService} {e : AuditEvent} {rest : List AuditEvent}
        (hrest : rest.length = n) (hsyncs : t.syncs = before ++ [⟨e, rest, .saving⟩]) :
        Finishes p before t := by
      subst hrest
      refine (finishes_advance (t := withRemote p t e) hsyncs hshorter).of_step .saved (by simp) ?_
      rw [step, resumeSync, hget hsyncs]
      rfl
    have hlink {t : AuditService} {e : AuditEvent} {rest : List AuditEvent} {sync : Sync}
        (hrest : rest.length = n) (hsyncs : t.syncs = before ++ [sync]) :
        Finishes p before (t.checkLink before.length e rest) := by
      rw [checkLink]
      split
      · subst hrest
        exact finishes_advance hsyncs hshorter
      · exact hsaving (e := e) hrest (by simp [hsyncs])
    have hverifying {t : AuditService} {e : AuditEvent} {rest : List AuditEvent}
        (hrest : rest.length = n) (hsyncs : t.syncs = before ++ [⟨e, rest, .verifying⟩]) :
        Finishes p before t := by
      have hstep : step p t (.sync before.length .verified) =
          if signatureValid p e then some (t.checkLink before.length e rest)
          else some (t.advance before.length rest) := by
        rw [step, resumeSync, hget hsyncs]
        rfl
      cases hvalid : signatureValid p e with
      | true => exact (hlink hrest hsyncs).of_step .verified (by simp) (by rw [hstep, hvalid]; rfl)
      | false =>
        subst hrest
        exact (finishes_advance hsyncs hshorter).of_step .verified (by simp)
          (by rw [hstep, hvalid]; rfl)
    obtain ⟨e, rest, stage⟩ := sync
    cases stage with
    | saving => exact hsaving hn hsyncs
    | verifying => exact hverifying hn hsyncs
    | hashing =>
      rcases hscreen : screen p e with - | - | -
      · subst hn
        refine (finishes_advance hsyncs hshorter).of_step .hashed (by simp) ?_
        rw [step, resumeSync, hget hsyncs]
        simp only [bind_eq_bind, bind_some, hscreen]
      · refine (hverifying (t := { t with syncs := before ++ [⟨e, rest, .verifying⟩] }) hn
          rfl).of_step .hashed (by simp) ?_
        rw [step, resumeSync]
        simp [hscreen, hsyncs]
      · refine (hlink (e := e) hn hsyncs).of_step .hashed (by simp) ?_
        rw [step, resumeSync, hget hsyncs]
        simp only [bind_eq_bind, bind_some, hscreen]

/-- An uninterrupted call can always be brought to its end without a rejected promise. -/
theorem exists_syncCall (p : Ports) (s : AuditService) (events : List AuditEvent) :
    ∃ replies t, SyncReply.rejected ∉ replies ∧ t.syncs = s.syncs ∧
      run (step p) s (syncCall s events replies) = some t := by
  rcases hn : syncNext s.lastHash events with - | sync
  · refine ⟨[], s, by simp, rfl, ?_⟩
    simp only [syncCall, run, step, hn]
    rfl
  · have hsyncs : ({ s with syncs := s.syncs ++ [sync] } : AuditService).syncs =
      s.syncs ++ [sync] := rfl
    obtain ⟨replies, u, hrej, hend, hrun⟩ := finishes_of_suspended (p := p) hsyncs
    refine ⟨replies, u, hrej, hend, ?_⟩
    simp only [syncCall, run, step, hn]
    exact hrun

/-! ### The chain is only extended -/

/-- At every point of an uninterrupted call, whatever the list and the answers: the events saved so
far were sent, in this order; each carries its own digest; they extend the chain from the head
before the call, except that a signed boundary may follow anything; a truncation mark occurs on
signed boundaries only, so not at all without a TPM; and the chain head is the last hash saved
(`Saved`). -/
theorem syncCall_extends_chain {s t : AuditService} {events : List AuditEvent}
    {replies : List SyncReply}
    (hr : Machine.run (step p) s (syncCall s events replies) = some t) :
    ∃ saved, Saved p s t saved ∧ saved.Sublist events ∧ (∀ e ∈ saved, p.HashOk e) ∧
      HashChain.Linked AuditEvent.prevHash AuditEvent.hash (SignedBoundary p) s.lastHash saved ∧
      (∀ e ∈ saved, e.prevHash = "TRUNCATED" → SignedBoundary p e) ∧
      (p.tpm = none → ∀ e ∈ saved, e.prevHash ≠ "TRUNCATED") := by
  obtain ⟨saved, hsaved, hpre, -⟩ := syncCall_saved hr
  have htruncated : ∀ e ∈ saved, e.prevHash = "TRUNCATED" → SignedBoundary p e :=
    fun e he ↦ acceptedEvents_truncated e (hpre.subset he)
  refine ⟨saved, hsaved, hpre.sublist.trans acceptedEvents_sublist,
    fun e he ↦ acceptedEvents_hashOk e (hpre.subset he), ?_, htruncated, fun htpm e he ht ↦ ?_⟩
  · obtain ⟨later, hlater⟩ := hpre
    have hlinked : HashChain.Linked AuditEvent.prevHash AuditEvent.hash (SignedBoundary p)
        s.lastHash (acceptedEvents p s.lastHash events) := acceptedEvents_linked
    rw [← hlater] at hlinked
    exact (HashChain.linked_append.1 hlinked).1
  · have hvalid := (htruncated e he ht).2.2
    rw [signatureValid, htpm] at hvalid
    exact nomatch hvalid

/-- A remote event with the given id, message and predecessor; its hash is the two texts joined. -/
def remoteEvent (id message prevHash : String) : AuditEvent where
  toPayload := (LogEntry.plain message).toPayload
  id := id
  timestamp := .iso 1
  hash := id ++ message
  prevHash := prevHash
  hwSignature := none
  formatted := none

/-- Ports whose hash is the id and the message joined. -/
def joiningPorts : Ports := .sample (fun i ↦ i.id ++ i.message) none

/-- The service with one stored event. -/
def oneStored : AuditService :=
  .start "alogin" (joiningPorts.save .empty (remoteEvent "a" "login" "GENESIS"))

/-- A call on a list whose first event leaves a gap and whose second event extends the chain. -/
theorem syncCall_extends_chain_gap :
    ∃ t saved, Machine.run (step joiningPorts) oneStored (syncCall oneStored
        [remoteEvent "b" "gap" "nowhere", remoteEvent "c" "next" "alogin"]
        [.hashed, .hashed, .saved]) = some t ∧
      t.lastHash = "cnext" ∧ Saved joiningPorts oneStored t saved ∧
      HashChain.Linked AuditEvent.prevHash AuditEvent.hash (SignedBoundary joiningPorts) "alogin"
        saved := by
  have hrun : (run (step joiningPorts) oneStored (syncCall oneStored
      [remoteEvent "b" "gap" "nowhere", remoteEvent "c" "next" "alogin"]
      [.hashed, .hashed, .saved])).map AuditService.lastHash = some "cnext" := by decide
  obtain ⟨t, ht, hlast⟩ := map_eq_some_iff.1 hrun
  obtain ⟨saved, hsaved, -, -, hlinked, -⟩ := syncCall_extends_chain ht
  exact ⟨t, saved, ht, hlast, hsaved, hlinked⟩

/-! ### Stored events can be overwritten -/

/-- Saving keeps every stored entry exactly when the last saved event under a stored key, if there
is one, is the stored event. -/
theorem stored_kept_iff {r : KvAuditRepository} :
    (∀ kv ∈ r.items.entries, kv ∈ (saved.foldl p.save r).items.entries) ↔
      ∀ kv ∈ r.items.entries, ∀ e, OrderedStore.lastWrite (p.keyed saved) kv.1 = some e →
        e = kv.2 := by
  refine forall₂_congr fun kv hkv ↦ ?_
  rw [p.items_foldl_save, OrderedStore.mem_setAll]
  rcases hw : OrderedStore.lastWrite (p.keyed saved) kv.1 with - | e
  · exact iff_of_true (.inr ⟨rfl, hkv⟩) fun e he ↦ nomatch he
  · constructor
    · rintro (heq | ⟨hnone, -⟩) e' he'
      · exact some.inj (he'.symm.trans heq)
      · exact nomatch hnone
    · exact fun h ↦ .inl (congrArg some (h e rfl))

/-- An uninterrupted call saves the first `n` events of the accepted list, all of them when it ends
without a rejected promise, and it leaves every stored event in place exactly when no stored key is
last written, among those, with another event. -/
theorem syncCall_keeps_stored_iff {s t : AuditService} {events : List AuditEvent}
    {replies : List SyncReply}
    (hr : Machine.run (step p) s (syncCall s events replies) = some t) :
    ∃ n, Saved p s t ((acceptedEvents p s.lastHash events).take n) ∧
      (SyncReply.rejected ∉ replies → t.syncs = s.syncs →
        (acceptedEvents p s.lastHash events).length ≤ n) ∧
      ((∀ kv ∈ s.repo.items.entries, kv ∈ t.repo.items.entries) ↔
        ∀ kv ∈ s.repo.items.entries, ∀ e,
          OrderedStore.lastWrite
            (p.keyed ((acceptedEvents p s.lastHash events).take n)) kv.1 = some e → e = kv.2) := by
  obtain ⟨saved, hsaved, hpre, hall⟩ := syncCall_saved hr
  have htake : (acceptedEvents p s.lastHash events).take saved.length = saved :=
    (prefix_iff_eq_take.1 hpre).symm
  refine ⟨saved.length, htake.symm ▸ hsaved, fun hrej hended ↦ ?_, ?_⟩
  · rw [hall hrej hended]
  · rw [htake, hsaved.repo]
    exact stored_kept_iff

/-- A call whose one event extends the chain under a key of its own. -/
theorem syncCall_keeps_stored_iff_fresh :
    ∃ t n, Machine.run (step joiningPorts) oneStored (syncCall oneStored
        [remoteEvent "c" "next" "alogin"] [.hashed, .saved]) = some t ∧ 1 ≤ n ∧
      ((∀ kv ∈ oneStored.repo.items.entries, kv ∈ t.repo.items.entries) ↔
        ∀ kv ∈ oneStored.repo.items.entries, ∀ e,
          OrderedStore.lastWrite (joiningPorts.keyed ((acceptedEvents joiningPorts "alogin"
            [remoteEvent "c" "next" "alogin"]).take n)) kv.1 = some e → e = kv.2) := by
  have hrun : (run (step joiningPorts) oneStored (syncCall oneStored
      [remoteEvent "c" "next" "alogin"] [.hashed, .saved])).map
        (fun t ↦ t.syncs.isEmpty) = some true := by decide
  obtain ⟨t, ht, hended⟩ := map_eq_some_iff.1 hrun
  obtain ⟨n, -, hn, hiff⟩ := syncCall_keeps_stored_iff ht
  exact ⟨t, n, ht, hn (by decide) (List.isEmpty_iff.1 hended), hiff⟩

/-- The sender takes the id and timestamp of a stored event for an event that extends the chain:
the stored event is gone. -/
theorem syncCall_overwrites_stored :
    ∃ t, Machine.run (step joiningPorts) oneStored (syncCall oneStored
        [remoteEvent "a" "logout" "alogin"] [.hashed, .saved]) = some t ∧
      t.syncs = oneStored.syncs ∧
      ¬∀ kv ∈ oneStored.repo.items.entries, kv ∈ t.repo.items.entries := by
  have hrun : (run (step joiningPorts) oneStored (syncCall oneStored
      [remoteEvent "a" "logout" "alogin"] [.hashed, .saved])).map
        (fun t ↦ (t.syncs.isEmpty, t.repo.items.values.map fun e ↦ e.message)) =
      some (true, ["logout"]) := by decide
  obtain ⟨t, ht, hend⟩ := map_eq_some_iff.1 hrun
  obtain ⟨hended, hmessages⟩ := Prod.mk.inj hend
  refine ⟨t, ht, List.isEmpty_iff.1 hended, fun hkept ↦ ?_⟩
  have hmem := hkept (joiningPorts.key (remoteEvent "a" "login" "GENESIS"),
    remoteEvent "a" "login" "GENESIS") mem_cons_self
  have hlogin : "login" ∈ t.repo.items.values.map fun e ↦ e.message :=
    List.mem_map.2 ⟨_, List.mem_map.2 ⟨_, hmem, rfl⟩, rfl⟩
  rw [hmessages] at hlogin
  exact absurd hlogin (by decide)

end AuditService

end Audit
