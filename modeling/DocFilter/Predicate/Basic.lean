import DocFilter.Diagnostic
import DocFilter.Operator
import DocFilter.Relation.Basic
import DocFilter.Value

/-!
# Predicates

What a filter is compiled to: a tree of tests on columns of the base table, groups, and tests
whether the key of the base row is among the results of a subquery. Every predicate carries the
connective that joins it to the ones before it.
-/

namespace DocFilter

/-- Whether a key has to be, or must not be, among the results of a subquery. -/
inductive Membership where
  | isIn
  | notIn
  deriving DecidableEq

namespace Membership

/-- The words for a membership. -/
def symbol : Membership → String
  | .isIn => "IN"
  | .notIn => "NOT IN"

/-- Whether it must not be there. -/
def isNegated : Membership → Bool
  | .isIn => false
  | .notIn => true

end Membership

/-- A condition of a subquery. -/
inductive SubqueryFilter where
  | comparison (column : Column) (comparator : Comparator) (value : Value)
  | nullTest (column : Column) (negated : Bool)
  deriving DecidableEq

/-- The column that a condition is about. -/
def SubqueryFilter.column : SubqueryFilter → Column
  | .comparison c _ _ => c
  | .nullTest c _ => c

/-- A table joined in a subquery, with the two columns that are equal in joined rows. -/
structure InnerJoin where
  /-- The table. -/
  table : String
  /-- A column. -/
  left : Column
  /-- The column it equals. -/
  right : Column
  deriving DecidableEq

/-- A subquery of one column. -/
structure Subquery where
  /-- The column of the result. -/
  select : Column
  /-- The table. -/
  source : String
  /-- The joined table. -/
  join : Option InnerJoin
  /-- The conditions, all of which hold. -/
  filters : List SubqueryFilter
  deriving DecidableEq

/-- A predicate. -/
inductive Predicate where
  | comparison (connective : Connective) (column : Column) (comparator : Comparator) (value : Value)
  | nullTest (connective : Connective) (column : Column) (negated : Bool)
  /-- Predicates in parentheses, joined by `inner`. -/
  | group (connective : Connective) (inner : Connective) (predicates : List Predicate)
  | membership (connective : Connective) (base : Column) (membership : Membership)
      (subquery : Subquery)

/-- What joins a predicate to the ones before it. -/
def Predicate.connective : Predicate → Connective
  | .comparison c _ _ _ => c
  | .nullTest c _ _ => c
  | .group c _ _ => c
  | .membership c _ _ _ => c

/-- A compiled filter. -/
structure CompiledFilter where
  /-- The table that is filtered. -/
  base : String
  /-- The predicates. -/
  predicates : List Predicate
  /-- The clauses that were passed over. -/
  diagnostics : List Diagnostic

end DocFilter
