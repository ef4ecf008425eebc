import FactorSearch.Proofs.Lockstep

/-!
# Refused steps leave no trace

A step outside an active episode is refused, and so is an action that is no id.  Main statement: a
run without its refused steps gets the same answers to all other calls and ends in the same episode,
and its grammar is asked about exactly the tokens of the steps that remain
(`refused_steps_leave_no_trace`).
-/

namespace FactorSearch.Environment

variable {σ ι : Type}

/-- A step outside an active episode, or for an action that is no id. -/
def refused : Event ι → Bool
  | (.step _, .outcome (.error (.notActive _))) => true
  | (.step _, .outcome (.error (.action (.outOfRange _ _)))) => true
  | _ => false

/-- The calls of a log that were not refused, with their answers. -/
def kept (log : List (Event ι)) : List (Event ι) := log.filter fun x => !refused x

/-- What a call asks of the grammar if it is not refused. -/
def request? (v : Vocabulary) : Call → Option Grammar.Request
  | .reset => some .reset
  | .step action =>
    match v.decode action with
    | .ok t => some (.step t)
    | .error _ => none

variable {env : Environment σ ι} {e : Episode σ} {action : Int}

/-! ## One call -/

section Call

/-- In an active episode an action that is an id is put to the grammar and not refused. -/
theorem state_step {t : Token} (hp : e.phase = .active)
    (ht : env.vocabulary.decode action = .ok t) :
    (env.step e action).1.state = (env.grammar.step e.state t).1 ∧
      refused (.step action, .outcome (env.step e action).2) = false := by
  rcases hg : env.grammar.step e.state t with ⟨s, verdict⟩
  cases hd : verdict.done with
  | true =>
    rw [step_of_done hp ht hg hd]
    exact ⟨rfl, rfl⟩
  | false =>
    by_cases hl : e.filled < env.capacity
    · rw [step_of_room hp ht hg hd hl]
      exact ⟨rfl, rfl⟩
    · rw [step_of_full hp ht hg hd (Nat.le_of_not_lt hl)]
      exact ⟨rfl, rfl⟩

/-- Every other step is refused. -/
theorem refused_step_iff : refused (.step action, .outcome (env.step e action).2) = true ↔
    ¬ (e.phase = .active ∧ ∃ t, env.vocabulary.decode action = .ok t) := by
  by_cases hp : e.phase = .active
  · cases ht : env.vocabulary.decode action with
    | error fault =>
      obtain ⟨-, rfl⟩ := Vocabulary.decode_eq_error_iff.mp ht
      rw [step_of_decode_error hp ht]
      simp [refused]
    | ok t =>
      rw [(state_step hp ht).2]
      simp [hp]
  · rw [step_of_not_active hp]
    simp [refused, hp]

/-- A refused step changes nothing. -/
theorem step_of_refused (h : refused (.step action, .outcome (env.step e action).2) = true) :
    (env.step e action).1 = e := by
  rw [refused_step_iff] at h
  by_cases hp : e.phase = .active
  · cases ht : env.vocabulary.decode action with
    | error fault => rw [step_of_decode_error hp ht]
    | ok t => exact absurd ⟨hp, t, ht⟩ h
  · rw [step_of_not_active hp]

theorem call_of_refused {c : Call} (h : refused (c, (env.call e c).2) = true) :
    (env.call e c).1 = e := by
  cases c with
  | reset => cases h
  | step action => exact step_of_refused h

/-- The refusal names the phase, and no action is looked at before. -/
theorem notActive_iff {p : Phase} :
    (env.step e action).2 = .error (.notActive p) ↔ e.phase ≠ .active ∧ p = e.phase := by
  constructor
  · intro h
    by_cases hp : e.phase = .active
    · cases ht : env.vocabulary.decode action with
      | error fault =>
        rw [step_of_decode_error hp ht] at h
        cases h
      | ok t =>
        have hr : refused (.step action, .outcome (env.step e action).2) = true := by
          rw [h]
          rfl
        exact absurd ⟨hp, t, ht⟩ (refused_step_iff.mp hr)
    · rw [step_of_not_active hp] at h
      cases h
      exact ⟨hp, rfl⟩
  · rintro ⟨hp, rfl⟩
    rw [step_of_not_active hp]

end Call

/-! ## A whole run -/

section Run

theorem kept_cons_of_refused {x : Event ι} {log : List (Event ι)} (h : refused x = true) :
    kept (x :: log) = kept log := by
  rw [kept, List.filter_cons_of_neg (by simp [h]), kept]

theorem kept_cons_of_not_refused {x : Event ι} {log : List (Event ι)} (h : refused x = false) :
    kept (x :: log) = x :: kept log := by
  rw [kept, List.filter_cons_of_pos (by simp [h]), kept]

/-- Without the refused steps a run gets the same answers and ends in the same episode. -/
theorem run_kept (env : Environment σ ι) (e : Episode σ) (calls : List Call) :
    env.log e ((kept (env.log e calls)).map Prod.fst) = kept (env.log e calls) ∧
      env.after e ((kept (env.log e calls)).map Prod.fst) = env.after e calls := by
  -- a refused call changes nothing, so the calls behind it do not miss it
  induction calls generalizing e with
  | nil => exact ⟨rfl, rfl⟩
  | cons c calls ih =>
    rw [log, after]
    obtain ⟨hlog, hafter⟩ := ih (env.call e c).1
    cases hr : refused (c, (env.call e c).2) with
    | true =>
      rw [kept_cons_of_refused hr]
      rw [call_of_refused hr] at hlog hafter ⊢
      exact ⟨hlog, hafter⟩
    | false =>
      rw [kept_cons_of_not_refused hr, List.map_cons, log, after]
      exact ⟨congrArg _ hlog, hafter⟩

end Run

/-! ## What the grammar is asked -/

section Asked

variable (env) in
/-- The environment over the grammar with a record of what it has been asked. -/
def recorder : Environment (σ × List Grammar.Request) ι := env.withGrammar env.grammar.recording

/-- A call adds to the record what it asks, and nothing if it is refused. -/
theorem record_call (e : Episode (σ × List Grammar.Request)) (c : Call) :
    (env.recorder.call e c).1.state.2.map some = e.state.2.map some ++
      (kept [(c, (env.recorder.call e c).2)]).map fun x => request? env.vocabulary x.1 := by
  -- the record grows with the calls that reach the grammar, and those are the ones that are kept
  cases hr : refused (c, (env.recorder.call e c).2) with
  | true =>
    rw [call_of_refused hr, kept_cons_of_refused hr]
    exact (List.append_nil _).symm
  | false =>
    rw [kept_cons_of_not_refused hr]
    cases c with
    | reset => exact List.map_append
    | step action =>
      have hiff := refused_step_iff.not.mp (Bool.eq_false_iff.mp hr)
      obtain ⟨hp, t, ht⟩ := not_not.mp hiff
      obtain ⟨hstate, -⟩ := state_step hp ht
      have hv : env.vocabulary.decode action = .ok t := ht
      have hrequest : request? env.vocabulary (.step action) = some (.step t) := by
        rw [request?, hv]
      change List.map some (env.recorder.step e action).1.state.2 = _
      rw [hstate, List.map_cons, hrequest]
      exact List.map_append

/-- The record of a run is what its calls ask, but for the refused ones. -/
theorem record_after (env : Environment σ ι) (e : Episode (σ × List Grammar.Request))
    (calls : List Call) :
    (env.recorder.after e calls).state.2.map some = e.state.2.map some ++
      (kept (env.recorder.log e calls)).map fun x => request? env.vocabulary x.1 := by
  induction calls generalizing e with
  | nil => exact (List.append_nil _).symm
  | cons c calls ih =>
    have hkept : kept (env.recorder.log e (c :: calls)) = kept [(c, (env.recorder.call e c).2)] ++
        kept (env.recorder.log (env.recorder.call e c).1 calls) := List.filter_append [_] _
    rw [after, ih, record_call, hkept, List.map_append, List.append_assoc]

/-- The record changes nothing else. -/
theorem alike_recorder (env : Environment σ ι) (s : σ) (calls : List Call) :
    Alike (fun s s' => s = s'.1) (env.after (env.fresh s) calls)
        (env.recorder.after (env.recorder.fresh (s, [])) calls) ∧
      env.log (env.fresh s) calls = env.recorder.log (env.recorder.fresh (s, [])) calls := by
  have hg := Grammar.lockstep_recording env.grammar
  have he : Alike (fun s s' => s = s'.1) (env.fresh s) (env.recorder.fresh (s, [])) :=
    alike_fresh rfl
  exact ⟨he.after hg calls, he.log_eq hg calls⟩

end Asked

/-! ## Main statement -/

section Main

/-- Without the refused steps a run gets the same answers to its other calls and ends in the same
episode.  The grammar is asked once about each step that remains, and about no other; this is read
off the run over the grammar with a record, which answers as the grammar itself.  A step is refused
for the phase exactly outside an active episode, whatever the action. -/
theorem refused_steps_leave_no_trace (env : Environment σ ι) (s : σ) (calls : List Call) :
    let log := env.log (env.fresh s) calls
    let e := env.after (env.fresh s) calls
    let remaining := (kept log).map Prod.fst
    let recorded := env.recorder.after (env.recorder.fresh (s, [])) calls
    env.log (env.fresh s) remaining = kept log ∧ env.after (env.fresh s) remaining = e ∧
      env.recorder.log (env.recorder.fresh (s, [])) calls = log ∧ recorded.state.1 = e.state ∧
      recorded.state.2.map some = remaining.map (request? env.vocabulary) ∧
      ∀ action p, (env.step e action).2 = .error (.notActive p) ↔
        e.phase ≠ .active ∧ p = e.phase := by
  intro log e remaining recorded
  obtain ⟨hlog, hafter⟩ := run_kept env (env.fresh s) calls
  obtain ⟨halike, hlog'⟩ := alike_recorder env s calls
  have hrecord := record_after env (env.recorder.fresh (s, [])) calls
  rw [← hlog'] at hrecord
  refine ⟨hlog, hafter, hlog'.symm, halike.state.symm, ?_, fun action p => notActive_iff⟩
  rw [List.map_map]
  exact hrecord

end Main

end FactorSearch.Environment
