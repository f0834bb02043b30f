import DocFilter.Clause.Basic
import DocFilter.Pending.Partition

/-!
# Scopes

The clauses of a scope become predicates: the tests on the base table and the groups in the order of
the document, and after them the subqueries for the tests on relations. A group that holds nothing
is left out.
-/

namespace DocFilter

namespace Clause

/-- The predicate of a test on the base table, in a scope joined by `c`. A list with null asks for
the other items or for null, and a list to be avoided for neither. -/
def ownPredicate (c : Connective) (column : Column) (op : Comparator) (operand : Operand) :
    Predicate :=
  if operand.listsNull then
    match operand.value.toList with
    | [] => .nullTest c column op.isNegated
    | items =>
      let inner : Connective := if op.isNegated then .and else .or
      .group c inner
        [.comparison inner column op (.list items), .nullTest inner column op.isNegated]
  else if operand.value.isNull then .nullTest c column op.isNegated
  else .comparison c column op operand.value

/-- The test on a relation that a clause is, in a scope joined by `c`. -/
def pending? (c : Connective) : Clause → Option Pending
  | .related p => some ⟨p, c⟩
  | _ => none

/-- The predicates for the tests on relations among the clauses of a scope joined by `c`. -/
def memberships (base : Column) (c : Connective) (clauses : List Clause) : List Predicate :=
  (buckets (clauses.filterMap (pending? c))).flatMap (·.predicates c base)

mutual

/-- The predicates that a clause becomes at its place in a scope joined by `c`. -/
def predicates (base : Column) (c : Connective) : Clause → List Predicate
  | .own column op operand => [ownPredicate c column op operand]
  | .group _ inner clauses =>
    match allPredicates base inner clauses ++ memberships base inner clauses with
    | [] => []
    | ps => [.group c inner ps]
  | .related _ => []
  | .skipped _ => []
  | .unknown _ _ => []

/-- The predicates that clauses become at their places in a scope joined by `c`. -/
def allPredicates (base : Column) (c : Connective) : List Clause → List Predicate
  | [] => []
  | x :: xs => x.predicates base c ++ allPredicates base c xs

end

/-- The predicates of a scope joined by `c`. -/
def scopePredicates (base : Column) (c : Connective) (clauses : List Clause) : List Predicate :=
  allPredicates base c clauses ++ memberships base c clauses

end Clause

end DocFilter
