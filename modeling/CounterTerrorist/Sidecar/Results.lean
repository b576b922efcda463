import CounterTerrorist.Sidecar.Matching

/-!
# What a command returns

The caller of `sendCommand` gets a result and no exception. There are two kinds. A failure says why,
and carries no data: the breaker refused, there was no sidecar, the command was not valid, nothing
came in time, or the response itself reported a failure. A success is what the line says that
answered the call (`result_of_done`).
-/

namespace Sidecar

open Core List Option

/-- Without a written command there is no success, and what is returned has gone through
`report`. -/
def Stage.Reported (env : Env) : Stage → Prop
  | returned _ written outcome => outcome.success = true → written = true
  | done _ written result =>
    ∃ outcome, result = env.report outcome ∧ (outcome.success = true → written = true)
  | _ => True

section

variable {env : Env} {stage : Stage}

theorem Stage.Reported.modify (f : Request → Request) (h : stage.Reported env) :
    (stage.modify f).Reported env := by
  cases stage <;> exact h

theorem Stage.Reported.settle (r : CommandResult) (h : stage.Reported env) :
    (stage.settle r).Reported env := by
  cases stage <;> exact h

variable {outcome : Outcome}

/-- A failure has no data. -/
theorem Env.data_report (h : (env.report outcome).success = false) :
    (env.report outcome).data = .undefined := by
  cases outcome with
  | thrown message => rfl
  | result r =>
    rw [Env.report] at h ⊢
    split at h
    · rename_i hsucc
      rw [hsucc] at h
      cases h
    · rename_i hfails
      rw [if_neg hfails]
      rfl

/-- A success is passed on as it is. -/
theorem Env.report_of_success (h : (env.report outcome).success = true) :
    outcome = .result (env.report outcome) := by
  cases outcome with
  | thrown message => cases h
  | result r =>
    rw [Env.report] at h ⊢
    split at h
    · rename_i hsucc
      rw [if_pos hsucc]
    · cases h

end

namespace SidecarManager

variable {env : Env} {s t : SidecarManager} {i : ℕ} {c : Call}

/-- Every call is. -/
def AllReported (env : Env) (s : SidecarManager) : Prop := ∀ c ∈ s.calls, c.stage.Reported env

theorem AllReported.put (h : AllReported env s) (i : ℕ) (c' : Call)
    (hc' : c'.stage.Reported env) : AllReported env (s.put i c') := by
  intro c hc
  rcases mem_or_eq_of_mem_set hc with hc | rfl
  · exact h c hc
  · exact hc'

theorem AllReported.resumed (h : AllReported env s) (hc : s.calls[i]? = some c)
    (hres : Resumed env s i c t) : AllReported env t := by
  cases hres with
  | gaveUp outcome hst hfails =>
    refine h.put i { c with stage := .returned none false outcome } fun hsucc ↦ ?_
    rw [hfails] at hsucc
    cases hsucc
  | enqueued id => exact h.put i { c with stage := .queued _ _ } trivial
  | @entered q => exact h.put i { c with stage := .writing q } trivial
  | @wroteSlot q | @wrote q => exact h.put i (c.startRace env q) trivial
  | @threwEarly q _ message | @threw q message =>
    exact h.put i (c.leave q false (.thrown message)) nofun
  | @settled q r => exact h.put i (c.leave q true (.result r)) fun _ ↦ rfl
  | @reported q written outcome now hst =>
    have hreturned := h c (mem_of_getElem? hc)
    rw [hst] at hreturned
    exact h.put i { c with stage := .done q written (env.report outcome) } ⟨outcome, rfl, hreturned⟩

/-- Every step keeps results as reported. -/
theorem AllReported.step {a : Action} (h : AllReported env s) (hstep : s.step env a = some t) :
    AllReported env t := by
  cases a with
  | sendCommand name cmd now =>
    obtain rfl := some.inj hstep
    rw [SidecarManager.sendCommand]
    intro c hc
    rcases mem_append.1 hc with hc | hc
    · exact h c hc
    · obtain rfl := mem_singleton.1 hc
      split
      · trivial
      · exact ⟨.thrown "Circuit breaker is OPEN. Request rejected for stability.", rfl,
          fun hsucc ↦ by cases hsucc⟩
  | resume i reply =>
    obtain ⟨c, hc, hres⟩ := resumed_of_resume hstep
    exact h.resumed hc hres
  | timeout i =>
    obtain ⟨c, q, hc, -, rfl⟩ := exists_of_fire hstep
    exact h.put i (c.expire env q) (((h c (mem_of_getElem? hc)).modify _).settle _)
  | line name text =>
    obtain rfl := some.inj hstep
    refine forall_handleIpcLine h fun data _ c hc ↦ ?_
    rw [Call.respond]
    split
    · exact hc
    · exact (hc.modify _).settle _

/-- In every run, a call that has ended has failed without data, or it returns what the line says
that answered it. -/
theorem result_of_done {as : List Action} (hrun : Machine.run (step env) init as = some t)
    (hc : t.calls[i]? = some c) {q : Option Request} {written : Bool} {r : CommandResult}
    (hst : c.stage = .done q written r) :
    r.success = false ∧ r.data = .undefined ∨
      r.success = true ∧ ∃ n, c.answer = some n ∧ AnsweredBy env t c n r := by
  have hreported : AllReported env t :=
    Machine.run_invariant' (P := AllReported env) (fun h hstep ↦ h.step hstep)
      (fun c hc ↦ by cases hc) hrun
  have hdone := hreported c (mem_of_getElem? hc)
  rw [hst] at hdone
  obtain ⟨outcome, rfl, hwritten⟩ := hdone
  cases hsucc : (env.report outcome).success with
  | false => exact .inl ⟨rfl, Env.data_report hsucc⟩
  | true =>
    have hout := Env.report_of_success hsucc
    obtain ⟨hmatched, hok⟩ := run_matched hrun
    have hcall := hok c (mem_of_getElem? hc)
    have hjust := hcall.justified
    rw [hst] at hjust
    obtain ⟨v, hv, q', rfl, horig⟩ := hjust (hwritten (by rw [hout]; exact hsucc))
    obtain rfl | ⟨response, hresp, rfl⟩ := horig
    · -- a timeout is no success
      rw [hv] at hsucc
      cases hsucc
    · have hreq : c.stage.request = some q' := by rw [hst]; rfl
      obtain ⟨hans, hby⟩ := answeredBy_of_response hmatched hcall hc hreq hresp
      have hsame := Env.report_of_success (hv ▸ hsucc)
      rw [← hv] at hsame
      rw [← (Outcome.result.inj hsame)]
      exact .inr ⟨rfl, _, hans, hby⟩

end SidecarManager

end Sidecar
