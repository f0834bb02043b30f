import DocFilter.Field
import DocFilter.Predicate.Basic

/-!
# Pending tests

A test on a column of a relation is not compiled where it stands. It waits until its scope closes,
and then shares subqueries with other tests on the same relation.
-/

namespace DocFilter

/-- A test on a column of a relation. -/
structure RelatedTest where
  /-- The column. -/
  field : RelatedField
  /-- The comparator. -/
  op : Comparator
  /-- Null, a list without null for a comparator that takes one, or a single value. -/
  value : Value
  deriving DecidableEq

/-- What a test does in a subquery. -/
inductive Role where
  /-- It selects target rows. -/
  | positive
  /-- It excludes base rows that have a matching row, in either table. -/
  | negated
  /-- It selects rows of the join table, and so narrows whichever subquery it joins. -/
  | qualifier
  deriving DecidableEq

namespace RelatedTest

/-- What a test does in a subquery. -/
def role (p : RelatedTest) : Role :=
  if p.op.isNegated then .negated else if p.field.onJoinTable then .qualifier else .positive

/-- What tests are ordered by, wherever they stand. -/
def sortKey (p : RelatedTest) : List String := [p.field.ref.text, p.op.token, p.value.display]

/-- The condition of the test inside a subquery. A negated comparator is turned around there,
because the subquery selects what is excluded. -/
def filter (p : RelatedTest) : SubqueryFilter :=
  if p.value.isNull then .nullTest p.field.ref false
  else match p.op with
    | .ne => .comparison p.field.ref .isIn (.list [p.value])
    | .notIn => .comparison p.field.ref .isIn p.value
    | op => .comparison p.field.ref op p.value

end RelatedTest

/-- A test on a relation that waits for its scope to close. -/
structure Pending extends RelatedTest where
  /-- What joins the test to the others of its scope. -/
  connective : Connective
  deriving DecidableEq

/-- Whether a test does not come after another one in the order of their keys. -/
def Pending.precedes (a b : Pending) : Bool := !b.sortKey.lex a.sortKey

end DocFilter
