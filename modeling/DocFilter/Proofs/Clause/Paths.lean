import DocFilter.Proofs.Clause.Leaves

/-!
# The paths of clauses

A path shows only in the diagnostic of a clause that makes no sense. Lists of clauses that are the
same without paths (`Clause.pathless`) become the same predicates, refer to the same unknown
relation first, and have diagnostics with the same causes.
-/

namespace DocFilter

namespace Clause

mutual

/-- A clause without the paths of its diagnostics. -/
def pathless : Clause → Clause
  | .skipped d => .skipped ⟨"", d.cause⟩
  | .group written inner clauses => .group written inner (allPathless clauses)
  | .own column op operand => .own column op operand
  | .related p => .related p
  | .unknown relation field => .unknown relation field

/-- Clauses without the paths of their diagnostics. -/
def allPathless : List Clause → List Clause
  | [] => []
  | x :: xs => x.pathless :: allPathless xs

end

theorem allPathless_eq_map (xs : List Clause) : allPathless xs = xs.map pathless := by
  induction xs with
  | nil => rw [allPathless, List.map_nil]
  | cons x xs ih => rw [allPathless, ih, List.map_cons]

theorem pathless_group (written : Option Nat) (inner : Connective) (clauses : List Clause) :
    (group written inner clauses).pathless = group written inner (clauses.map pathless) := by
  rw [pathless, allPathless_eq_map]

/-! ## What does not depend on paths -/

theorem pending?_pathless (c : Connective) (x : Clause) :
    x.pathless.pending? c = x.pending? c := by
  cases x <;> rw [pathless] <;> rfl

theorem memberships_pathless (base : Column) (c : Connective) (xs : List Clause) :
    memberships base c (xs.map pathless) = memberships base c xs := by
  have hpending : (xs.map pathless).filterMap (pending? c) = xs.filterMap (pending? c) := by
    rw [List.filterMap_map]
    exact congrArg (List.filterMap · xs) (funext (pending?_pathless c))
  rw [memberships, memberships, hpending]

mutual

theorem predicates_pathless (base : Column) (c : Connective) :
    ∀ x : Clause, x.pathless.predicates base c = x.predicates base c
  | .group written inner clauses => by
    rw [pathless_group, predicates, predicates, allPredicates_pathless base inner clauses,
      memberships_pathless]
  | .own .. => by rw [pathless]
  | .related _ => by rw [pathless]
  | .unknown .. => by rw [pathless]
  | .skipped _ => by rw [pathless, predicates, predicates]

theorem allPredicates_pathless (base : Column) (c : Connective) :
    ∀ xs : List Clause, allPredicates base c (xs.map pathless) = allPredicates base c xs
  | [] => rfl
  | x :: xs => by
    rw [List.map_cons, allPredicates, allPredicates, predicates_pathless base c x,
      allPredicates_pathless base c xs]

end

theorem scopePredicates_pathless (base : Column) (c : Connective) (xs : List Clause) :
    scopePredicates base c (xs.map pathless) = scopePredicates base c xs := by
  rw [scopePredicates, scopePredicates, allPredicates_pathless, memberships_pathless]

mutual

theorem leaves_pathless : ∀ x : Clause, x.pathless.leaves = x.leaves.map pathless
  | .group written inner clauses => by
    rw [pathless_group, leaves_group, leaves_group, allLeaves_pathless clauses]
  | .own .. => by rw [pathless, leaves, List.map_singleton, pathless]
  | .related _ => by rw [pathless, leaves, List.map_singleton, pathless]
  | .unknown .. => by rw [pathless, leaves, List.map_singleton, pathless]
  | .skipped _ => by rw [pathless, leaves, leaves, List.map_singleton, pathless]

theorem allLeaves_pathless : ∀ xs : List Clause,
    allLeaves (xs.map pathless) = (allLeaves xs).map pathless
  | [] => rfl
  | x :: xs => by
    rw [List.map_cons, allLeaves, allLeaves, List.map_append, leaves_pathless x,
      allLeaves_pathless xs]

end

theorem findSome?_error?_pathless (xs : List Clause) :
    (allLeaves (xs.map pathless)).findSome? error? = (allLeaves xs).findSome? error? := by
  have herror : ∀ x : Clause, x.pathless.error? = x.error? := by
    intro x
    cases x <;> rw [pathless] <;> rfl
  rw [allLeaves_pathless, List.findSome?_map]
  exact congrArg (List.findSome? · _) (funext herror)

/-- The causes of the diagnostics of clauses. -/
def causes (xs : List Clause) : List Diagnostic.Cause :=
  ((allLeaves xs).filterMap diagnostic?).map (·.cause)

theorem causes_pathless (xs : List Clause) : causes (xs.map pathless) = causes xs := by
  have hcause : ∀ x : Clause, x.pathless.diagnostic?.map (·.cause) =
      x.diagnostic?.map (·.cause) := by
    intro x
    cases x <;> rw [pathless] <;> rfl
  rw [causes, causes, allLeaves_pathless, List.map_filterMap, List.map_filterMap,
    List.filterMap_map]
  exact congrArg (List.filterMap · _) (funext hcause)

/-! ## Reading -/

theorem pathless_test (field : Field) (op : Comparator) (path path' : String) (j : Json) :
    (test field op path j).pathless = (test field op path' j).pathless := by
  unfold test
  split
  · rw [malformed, malformed, pathless, pathless]
  · split
    · rfl
    · split
      · rw [malformed, malformed, pathless, pathless]
      · rfl

theorem pathless_strayElements (path path' : String) (index index' : Nat) (items : List Json) :
    (strayElements path index items).map pathless =
      (strayElements path' index' items).map pathless := by
  induction items generalizing index index' with
  | nil => rfl
  | cons j js ih =>
    rw [strayElements, strayElements]
    split
    · exact ih _ _
    · rw [List.map_cons, List.map_cons, ih (index + 1) (index' + 1), malformed, malformed, pathless,
        pathless]

theorem map_pathless_together (scope : Connective) (xs : List Clause) :
    (together scope xs).map pathless = together scope (xs.map pathless) := by
  unfold together
  rw [List.length_map]
  split
  · rw [List.map_singleton, pathless_group]
  · rfl

end Clause

end DocFilter
