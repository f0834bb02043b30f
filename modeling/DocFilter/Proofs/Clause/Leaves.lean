import DocFilter.Compile

/-!
# The leaves of clauses

Groups only arrange clauses; what a document says is in the leaves below them. A lenient compilation
reports the diagnostics of the leaves in order (`Clause.diagnostics_allSteps`) and fails if and only
if a leaf refers to an unknown relation (`Clause.fail_mem_allSteps`), at the first that does
(`Clause.failure?_allSteps`).
-/

namespace DocFilter

namespace Clause

mutual

/-- The clauses below a clause that are no groups. -/
def leaves : Clause → List Clause
  | .group _ _ clauses => allLeaves clauses
  | .own column op operand => [.own column op operand]
  | .related p => [.related p]
  | .skipped d => [.skipped d]
  | .unknown relation field => [.unknown relation field]

/-- The clauses below several clauses that are no groups. -/
def allLeaves : List Clause → List Clause
  | [] => []
  | x :: xs => x.leaves ++ allLeaves xs

end

@[simp] theorem allLeaves_nil : allLeaves [] = [] := by
  rw [allLeaves]

@[simp] theorem allLeaves_cons (x : Clause) (xs : List Clause) :
    allLeaves (x :: xs) = x.leaves ++ allLeaves xs := by
  rw [allLeaves]

@[simp] theorem leaves_group (written : Option Nat) (inner : Connective) (clauses : List Clause) :
    (group written inner clauses).leaves = allLeaves clauses := by
  rw [leaves]

@[simp] theorem allLeaves_append (xs ys : List Clause) :
    allLeaves (xs ++ ys) = allLeaves xs ++ allLeaves ys := by
  induction xs with
  | nil => simp
  | cons x xs ih => simp [ih]

theorem allLeaves_eq_flatMap (xs : List Clause) : allLeaves xs = xs.flatMap leaves := by
  induction xs with
  | nil => rw [allLeaves, List.flatMap_nil]
  | cons x xs ih => rw [allLeaves, ih, List.flatMap_cons]

/-- Clauses without groups are their own leaves. -/
theorem allLeaves_of_forall {xs : List Clause} (h : ∀ x ∈ xs, x.leaves = [x]) :
    allLeaves xs = xs := by
  induction xs with
  | nil => rw [allLeaves]
  | cons x xs ih =>
    obtain ⟨hx, hxs⟩ := List.forall_mem_cons.mp h
    rw [allLeaves, hx, ih hxs]
    rfl

@[simp] theorem leaves_malformed (path reason : String) :
    (malformed path reason).leaves = [malformed path reason] := by
  rw [malformed, leaves]

@[simp] theorem leaves_unrecognized (path key : String) :
    (unrecognized path key).leaves = [unrecognized path key] := by
  rw [unrecognized, leaves]

@[simp] theorem leaves_test (field : Field) (op : Comparator) (path : String) (j : Json) :
    (test field op path j).leaves = [test field op path j] := by
  unfold test
  split
  · exact leaves_malformed ..
  · split
    · rw [leaves]
    · split
      · exact leaves_malformed ..
      · rw [leaves]

/-- Whether tests are put into a group does not change the leaves. -/
@[simp] theorem allLeaves_together (scope : Connective) (xs : List Clause) :
    allLeaves (together scope xs) = allLeaves xs := by
  unfold together
  split
  · simp
  · rfl

/-! ## Steps of a lenient compilation -/

/-- The diagnostic of a clause that makes no sense. -/
def diagnostic? : Clause → Option Diagnostic
  | .skipped d => some d
  | _ => none

theorem steps_group (strict : Bool) (base : Column) (written : Option Nat) (inner : Connective)
    (clauses : List Clause) : (group written inner clauses).steps strict base =
      written.toList.map (fun n => .report (.opening inner n)) ++ allSteps strict base clauses ++
        flushing inner clauses ++
        if (scopePredicates base inner clauses).isEmpty then [.report (.dropping inner)]
        else [] := by
  cases written <;> rw [steps] <;> rfl

end Clause

/-- The diagnostic that a step reports. -/
def Step.diagnostic? : Step → Option Diagnostic
  | .report e => e.diagnostic?
  | .fail _ => none

namespace Step

theorem failure?_eq_none {steps : List Step} : failure? steps = none ↔ ∀ e, .fail e ∉ steps := by
  induction steps with
  | nil => simp [failure?]
  | cons s steps ih =>
    cases s with
    | report e => simp [failure?, ih]
    | fail e => exact iff_of_false (by simp [failure?]) fun h => h e List.mem_cons_self

theorem failure?_append (xs ys : List Step) :
    failure? (xs ++ ys) = (failure? xs).or (failure? ys) := by
  induction xs with
  | nil => rfl
  | cons s xs ih =>
    cases s with
    | report e => exact ih
    | fail e => rfl

theorem fail_mem_of_failure? {steps : List Step} {e : FilterError} (h : failure? steps = some e) :
    .fail e ∈ steps := by
  induction steps with
  | nil => cases h
  | cons s steps ih =>
    cases s with
    | report => exact List.mem_cons_of_mem _ (ih h)
    | fail e' =>
      cases h
      exact List.mem_cons_self

/-- Steps that do not fail report all their diagnostics. -/
theorem filterMap_events {steps : List Step} (h : failure? steps = none) :
    (events steps).filterMap Event.diagnostic? = steps.filterMap diagnostic? := by
  induction steps with
  | nil => rfl
  | cons s steps ih =>
    cases s with
    | fail e => cases h
    | report e => rw [events, List.filterMap_cons, List.filterMap_cons, ih h]; rfl

end Step

namespace Clause

theorem fail_notMem_flushing {e : FilterError} {c : Connective} {clauses : List Clause} :
    Step.fail e ∉ flushing c clauses := by
  intro h
  obtain ⟨b, -, hb⟩ := List.mem_map.mp h
  cases hb

theorem diagnostics_flushing (c : Connective) (clauses : List Clause) :
    (flushing c clauses).filterMap Step.diagnostic? = [] := by
  rw [flushing, List.filterMap_map]
  exact List.filterMap_eq_nil_iff.mpr fun _ _ => rfl

mutual

theorem fail_mem_steps (base : Column) (e : FilterError) :
    ∀ x : Clause, .fail e ∈ x.steps false base ↔
      ∃ relation field, e = .unknownRelation relation field ∧ .unknown relation field ∈ x.leaves
  | .own .. => by simp [steps, leaves]
  | .related _ => by simp [steps, leaves]
  | .skipped _ => by simp [steps, leaves]
  | .unknown .. => by simp [steps, leaves]
  | .group written inner clauses => by
    rw [steps_group, leaves_group, ← fail_mem_allSteps base e clauses]
    simp [fail_notMem_flushing]

/-- A lenient compilation fails at unknown relations, and at nothing else. -/
theorem fail_mem_allSteps (base : Column) (e : FilterError) :
    ∀ xs, .fail e ∈ allSteps false base xs ↔
      ∃ relation field, e = .unknownRelation relation field ∧ .unknown relation field ∈ allLeaves xs
  | [] => by simp [allSteps]
  | x :: xs => by
    rw [allSteps, List.mem_append, fail_mem_steps base e x, fail_mem_allSteps base e xs,
      allLeaves]
    simp only [List.mem_append, and_or_left, exists_or]

end

mutual

theorem diagnostics_steps (base : Column) :
    ∀ x : Clause, (x.steps false base).filterMap Step.diagnostic? = x.leaves.filterMap diagnostic?
  | .own .. => by rw [steps, leaves]; rfl
  | .related _ => by rw [steps, leaves]; rfl
  | .skipped _ => by rw [steps, leaves]; rfl
  | .unknown .. => by rw [steps, leaves]; rfl
  | .group written inner clauses => by
    have hopening : (written.toList.map fun n => Step.report (.opening inner n)).filterMap
        Step.diagnostic? = [] := by
      rw [List.filterMap_map]
      exact List.filterMap_eq_nil_iff.mpr fun _ _ => rfl
    have hdropping : (if (scopePredicates base inner clauses).isEmpty then
        [Step.report (.dropping inner)] else []).filterMap Step.diagnostic? = [] := by
      split <;> rfl
    rw [steps_group, List.filterMap_append, List.filterMap_append, List.filterMap_append, hopening,
      diagnostics_allSteps base clauses, diagnostics_flushing, hdropping, leaves_group]
    simp

/-- A lenient compilation reports the diagnostics of the leaves. -/
theorem diagnostics_allSteps (base : Column) :
    ∀ xs, (allSteps false base xs).filterMap Step.diagnostic? =
      (allLeaves xs).filterMap diagnostic?
  | [] => by rw [allSteps, allLeaves]; rfl
  | x :: xs => by
    rw [allSteps, allLeaves, List.filterMap_append, List.filterMap_append,
      diagnostics_steps base x, diagnostics_allSteps base xs]

end

/-- The error of a clause that refers to an unknown relation. -/
def error? : Clause → Option FilterError
  | .unknown relation field => some (.unknownRelation relation field)
  | _ => none

mutual

theorem failure?_steps (base : Column) :
    ∀ x : Clause, Step.failure? (x.steps false base) = x.leaves.findSome? error?
  | .own .. => by rw [steps, leaves]; rfl
  | .related _ => by rw [steps, leaves]; rfl
  | .skipped _ => by rw [steps, leaves]; rfl
  | .unknown .. => by rw [steps, leaves]; rfl
  | .group written inner clauses => by
    -- what opens and closes a group only reports
    have hopening : Step.failure? (written.toList.map fun n => .report (.opening inner n)) =
        none := by
      cases written <;> rfl
    have hflushing : Step.failure? (flushing inner clauses) = none :=
      Step.failure?_eq_none.mpr fun _ => fail_notMem_flushing
    have hdropping : Step.failure? (if (scopePredicates base inner clauses).isEmpty then
        [.report (.dropping inner)] else []) = none := by
      split <;> rfl
    rw [steps_group, Step.failure?_append, Step.failure?_append, Step.failure?_append, hopening,
      failure?_allSteps base clauses, hflushing, hdropping, leaves_group, Option.none_or,
      Option.or_none, Option.or_none]

/-- A lenient compilation fails at the first leaf that refers to an unknown relation. -/
theorem failure?_allSteps (base : Column) :
    ∀ xs, Step.failure? (allSteps false base xs) = (allLeaves xs).findSome? error?
  | [] => by rw [allSteps, allLeaves]; rfl
  | x :: xs => by
    rw [allSteps, allLeaves, Step.failure?_append, List.findSome?_append, failure?_steps base x,
      failure?_allSteps base xs]

end

end Clause

end DocFilter
