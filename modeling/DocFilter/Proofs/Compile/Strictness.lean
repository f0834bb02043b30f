import DocFilter.Proofs.Compile.Outcome
import Mathlib.Data.List.TakeWhile

/-!
# Strict and lenient compilations

A strict compilation is a lenient one that stops at its first diagnostic
(`compile_strict_eq_lenient_stopped`). Both go through the same clauses. A clause that makes no
sense is a step that reports in the one and fails in the other, and all other steps are the same
(`Clause.allSteps_strict`), so what happens follows from looking at lists of steps alone.
-/

namespace DocFilter

namespace Step

/-- The step of a strict compilation where a lenient one has a given step. -/
def harden : Step → Step
  | .report e => match e.diagnostic? with
    | some d => .fail d.toError
    | none => .report e
  | .fail e => .fail e

/-- Hardened steps fail at the first diagnostic, if nothing fails before it. -/
theorem failure?_map_harden (steps : List Step) : failure? (steps.map harden) =
    match (events steps).findSome? Event.diagnostic? with
    | some d => some d.toError
    | none => failure? steps := by
  induction steps with
  | nil => rfl
  | cons s steps ih =>
    cases s with
    | fail e => rfl
    | report e =>
      rw [List.map_cons, harden, events, List.findSome?_cons]
      cases e.diagnostic? with
      | none => exact ih
      | some d => rfl

theorem events_map_harden (steps : List Step) : events (steps.map harden) =
    (events steps).takeWhile fun e => e.diagnostic?.isNone := by
  induction steps with
  | nil => rfl
  | cons s steps ih =>
    cases s with
    | fail e => rfl
    | report e =>
      rw [List.map_cons, harden, events, List.takeWhile_cons]
      cases h : e.diagnostic? with
      | none => exact congrArg (e :: ·) ih
      | some d => rfl

theorem events_append_report (steps : List Step) (e : Event) : events (steps ++ [.report e]) =
    match failure? steps with
    | some _ => events steps
    | none => events steps ++ [e] := by
  induction steps with
  | nil => rfl
  | cons s steps ih =>
    cases s with
    | fail => rfl
    | report e' =>
      rw [List.cons_append, events, ih, failure?]
      cases failure? steps <;> rfl

end Step

namespace Clause

/-- The subqueries of a scope are no matter of strictness. -/
theorem flushing_harden (c : Connective) (clauses : List Clause) :
    (flushing c clauses).map Step.harden = flushing c clauses := by
  rw [flushing, List.map_map]
  rfl

mutual

theorem steps_strict (base : Column) :
    ∀ x : Clause, x.steps true base = (x.steps false base).map Step.harden
  | .own .. => by rw [steps, steps]; rfl
  | .related _ => by rw [steps, steps]; rfl
  | .skipped _ => by rw [steps, steps]; rfl
  | .unknown .. => by rw [steps, steps]; rfl
  | .group written inner clauses => by
    have hdropping : (if (scopePredicates base inner clauses).isEmpty then
        [Step.report (.dropping inner)] else []).map Step.harden =
          if (scopePredicates base inner clauses).isEmpty then [.report (.dropping inner)]
          else [] := by
      split <;> rfl
    rw [steps_group, steps_group, List.map_append, List.map_append, List.map_append, List.map_map,
      flushing_harden, allSteps_strict base clauses, hdropping]
    rfl

/-- The steps of a strict compilation are those of a lenient one, hardened. -/
theorem allSteps_strict (base : Column) :
    ∀ xs, allSteps true base xs = (allSteps false base xs).map Step.harden
  | [] => by rw [allSteps, allSteps]; rfl
  | x :: xs => by
    rw [allSteps, allSteps, List.map_append, steps_strict base x, allSteps_strict base xs]

end

end Clause

section

variable (marker : Char) (baseKey : String) (registry : Registry) (base : String) (d : Document)

theorem compileSteps_strict : compileSteps ⟨true, marker, baseKey⟩ registry base d =
    (compileSteps ⟨false, marker, baseKey⟩ registry base d).map Step.harden := by
  unfold compileSteps
  rw [List.map_append, Clause.flushing_harden, ← Clause.allSteps_strict]
  rfl

/-- The completed compilation is reported as if it were one more step. -/
theorem compile_events (options : Options) : (compile options registry base d).events =
    Step.events (compileSteps options registry base d ++
      [.report (.compiled base (compileFilter options registry base d).predicates.length)]) := by
  rw [compile_eq, Step.events_append_report]
  cases Step.failure? (compileSteps options registry base d) <;> rfl

theorem compile_strict_events : (compile ⟨true, marker, baseKey⟩ registry base d).events =
    (compile ⟨false, marker, baseKey⟩ registry base d).events.takeWhile
      fun e => e.diagnostic?.isNone := by
  rw [compile_events, compile_events, compileSteps_strict, ← Step.events_map_harden,
    List.map_append]
  rfl

/-- Without a diagnostic, strictness makes no difference to the compiled filter. -/
theorem compileFilter_strict
    (h : (compileFilter ⟨false, marker, baseKey⟩ registry base d).diagnostics = []) :
    compileFilter ⟨true, marker, baseKey⟩ registry base d =
      compileFilter ⟨false, marker, baseKey⟩ registry base d := by
  have hevents : (Step.events (compileSteps ⟨false, marker, baseKey⟩ registry base
      d)).takeWhile (fun e => e.diagnostic?.isNone) =
        Step.events (compileSteps ⟨false, marker, baseKey⟩ registry base d) := by
    rw [List.takeWhile_eq_self_iff]
    intro e he
    rw [List.filterMap_eq_nil_iff.mp h e he]
    rfl
  unfold compileFilter
  rw [compileSteps_strict, Step.events_map_harden, hevents]
  rfl

/-- The first failure of a strict compilation. -/
theorem failure?_strict : Step.failure? (compileSteps ⟨true, marker, baseKey⟩ registry base
    d) = match (Step.events (compileSteps ⟨false, marker, baseKey⟩ registry base
      d)).filterMap Event.diagnostic? with
    | first :: _ => some first.toError
    | [] => Step.failure? (compileSteps ⟨false, marker, baseKey⟩ registry base d) := by
  rw [compileSteps_strict, Step.failure?_map_harden, ← List.head?_filterMap]
  cases List.filterMap .. <;> rfl

theorem Diagnostic.toError_cases (d : Diagnostic) :
    (∃ operator path, d.toError = .unrecognizedOperator operator path) ∨
      ∃ path reason, d.toError = .malformed path reason := by
  unfold Diagnostic.toError
  cases d.cause with
  | unrecognizedOperator => exact .inl ⟨_, _, rfl⟩
  | malformed => exact .inr ⟨_, _, rfl⟩

/-- A strict compilation is a lenient one that is stopped at its first diagnostic. A lenient
compilation only fails at an unknown relation. -/
theorem compile_strict_eq_lenient_stopped :
    (∀ f, (compile ⟨false, marker, baseKey⟩ registry base d).result = .ok f → f.diagnostics = [] →
      (compile ⟨true, marker, baseKey⟩ registry base d).result = .ok f) ∧
    (∀ f first rest, (compile ⟨false, marker, baseKey⟩ registry base d).result = .ok f →
      f.diagnostics = first :: rest →
      (compile ⟨true, marker, baseKey⟩ registry base d).result = .error (match first.cause with
        | .unrecognizedOperator operator => .unrecognizedOperator operator first.path
        | .malformed reason => .malformed first.path reason)) ∧
    (∀ e, (compile ⟨false, marker, baseKey⟩ registry base d).result = .error e →
      (∃ relation field, e = .unknownRelation relation field) ∧
      ∃ e', (compile ⟨true, marker, baseKey⟩ registry base d).result = .error e' ∧ (e' = e ∨
        (∃ operator path, e' = .unrecognizedOperator operator path) ∨
        ∃ path reason, e' = .malformed path reason)) ∧
    (compile ⟨true, marker, baseKey⟩ registry base d).events =
      (compile ⟨false, marker, baseKey⟩ registry base d).events.takeWhile
        fun e => e.diagnostic?.isNone := by
  have hstrict := failure?_strict marker baseKey registry base d
  refine ⟨?_, ?_, ?_, compile_strict_events marker baseKey registry base d⟩
  · intro f hf hdiagnostics
    obtain ⟨hfailure, rfl⟩ := compile_result_eq_ok.mp hf
    have hfilter := compileFilter_strict marker baseKey registry base d hdiagnostics
    refine compile_result_eq_ok.mpr ⟨?_, hfilter⟩
    rw [hstrict, show List.filterMap _ _ = [] from hdiagnostics, hfailure]
  · intro f first rest hf hdiagnostics
    obtain ⟨-, rfl⟩ := compile_result_eq_ok.mp hf
    refine compile_result_eq_error.mpr ?_
    rw [hstrict, show List.filterMap _ _ = first :: rest from hdiagnostics]
    rfl
  · intro e he
    have hfailure := compile_result_eq_error.mp he
    refine ⟨unknownRelation_of_failure marker baseKey registry base d hfailure, ?_⟩
    cases hdiagnostics : (Step.events (compileSteps ⟨false, marker, baseKey⟩ registry base
      d)).filterMap Event.diagnostic? with
    | nil =>
      rw [hdiagnostics, hfailure] at hstrict
      exact ⟨e, compile_result_eq_error.mpr hstrict, .inl rfl⟩
    | cons first rest =>
      rw [hdiagnostics] at hstrict
      exact ⟨_, compile_result_eq_error.mpr hstrict, .inr first.toError_cases⟩

end

end DocFilter
