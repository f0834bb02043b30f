import DocFilter.Event
import DocFilter.Predicate.Basic
import DocFilter.Sql.Conditions

/-!
# Predicates in SQL

Predicates are added to a condition one after the other (`Where`), groups in parentheses. A subquery
is put together from its parts (`Subselect`); without a table it cannot be written, and a membership
test on it is left out.
-/

namespace DocFilter.Sql

/-- A column as an expression. -/
def columnExpr (c : Column) : Expr := .column (some c.table) c.name

/-- A comparison as an expression. -/
def comparisonExpr (column : Column) (comparator : Comparator) (v : Value) : Expr :=
  match comparator with
  | .eq => .binary (columnExpr column) .eq (.value v)
  | .ne => .binary (columnExpr column) .ne (.value v)
  | .gt => .binary (columnExpr column) .gt (.value v)
  | .ge => .binary (columnExpr column) .ge (.value v)
  | .lt => .binary (columnExpr column) .lt (.value v)
  | .le => .binary (columnExpr column) .le (.value v)
  | .isIn => .inList (columnExpr column) (v.toList.map .value) false
  | .notIn => .inList (columnExpr column) (v.toList.map .value) true

/-- A null test as an expression. -/
def nullTestExpr (column : Column) (negated : Bool) : Expr := .isNull (columnExpr column) negated

/-! ## Subqueries -/

/-- The parts of a subquery. -/
structure Subselect where
  /-- The column of the result. -/
  selected : Option Expr := none
  /-- The table. -/
  source : Option String := none
  /-- The joined tables. -/
  joins : List Join := []
  /-- The conditions, all of which hold. -/
  conditions : Conditions := {}

namespace Subselect

/-- Sets the column of the result, in place of any earlier one. -/
def select (s : Subselect) (c : Column) : Subselect := { s with selected := some (columnExpr c) }

/-- Sets the table, in place of any earlier one. -/
def fromTable (s : Subselect) (table : String) : Subselect := { s with source := some table }

/-- Joins one more table, with two columns that are equal in joined rows. -/
def innerJoin (s : Subselect) (table : String) (left right : Column) : Subselect :=
  let condition := .binary (columnExpr left) .eq (columnExpr right)
  { s with joins := s.joins ++ [⟨.inner, table, none, condition⟩] }

/-- Adds a comparison to the conditions. -/
def compare (s : Subselect) (column : Column) (comparator : Comparator) (v : Value) : Subselect :=
  { s with conditions := s.conditions.push .and (comparisonExpr column comparator v) }

/-- Adds a null test to the conditions. -/
def nullTest (s : Subselect) (column : Column) (negated : Bool) : Subselect :=
  { s with conditions := s.conditions.push .and (nullTestExpr column negated) }

/-- The query, if it has a table. -/
def build? (s : Subselect) : Option Select :=
  s.source.map fun table =>
    { columns := s.selected.toList
      source := some ⟨table, none⟩
      joins := s.joins
      condition := s.conditions.build? }

/-- Adds a condition of a subquery. -/
def filter (s : Subselect) : SubqueryFilter → Subselect
  | .comparison column comparator v => s.compare column comparator v
  | .nullTest column negated => s.nullTest column negated

/-- The parts of a subquery that a predicate holds. -/
def ofSubquery (q : Subquery) : Subselect :=
  let s : Subselect := ({} : Subselect).select q.select |>.fromTable q.source
  let s := match q.join with
    | none => s
    | some j => s.innerJoin j.table j.left j.right
  q.filters.foldl filter s

end Subselect

/-! ## Conditions -/

/-- The condition that a filter puts on a query. -/
structure Where where
  /-- The conditions. -/
  conditions : Conditions := {}
  /-- The base columns of the membership tests that were left out. -/
  tableless : List Column := []

namespace Where

/-- Whether there is no condition. -/
def isEmpty (w : Where) : Bool := w.conditions.isEmpty

/-- Adds a comparison. -/
def compare (w : Where) (c : Connective) (column : Column) (comparator : Comparator) (v : Value) :
    Where :=
  { w with conditions := w.conditions.push c (comparisonExpr column comparator v) }

/-- Adds a null test. -/
def nullTest (w : Where) (c : Connective) (column : Column) (negated : Bool) : Where :=
  { w with conditions := w.conditions.push c (nullTestExpr column negated) }

/-- Adds a group, if it holds a condition. -/
def group (w : Where) (c : Connective) (inner : Where) : Where :=
  ⟨w.conditions.pushGroup c inner.conditions, w.tableless ++ inner.tableless⟩

/-- Adds a membership test, if its subquery has a table. -/
def member (w : Where) (c : Connective) (base : Column) (m : Membership) (s : Subselect) : Where :=
  match s.build? with
  | none => { w with tableless := w.tableless ++ [base] }
  | some q =>
    { w with conditions := w.conditions.push c (.inSubquery (columnExpr base) q m.isNegated) }

/-- The condition as an expression, if there is one. -/
def build? (w : Where) : Option Expr := w.conditions.build?

/-- The query for the rows of a table that meet the condition. -/
def select (w : Where) (table : String) : Select :=
  (Select.ofTable [.wildcard (some table)] ⟨table, none⟩).filterOpt w.build?

/-- What is reported about membership tests that were left out. -/
def events (w : Where) : List Event := w.tableless.map .tableless

mutual

/-- Adds a predicate. -/
def add (w : Where) : Predicate → Where
  | .comparison c column comparator v => w.compare c column comparator v
  | .nullTest c column negated => w.nullTest c column negated
  | .group c _ ps => w.group c (addAll {} ps)
  | .membership c base m q => w.member c base m (.ofSubquery q)

/-- Adds predicates one after the other. -/
def addAll (w : Where) : List Predicate → Where
  | [] => w
  | p :: ps => addAll (add w p) ps

end

end Where

end DocFilter.Sql

namespace DocFilter.CompiledFilter

/-- The condition that a compiled filter puts on a query. -/
def toWhere (f : CompiledFilter) : Sql.Where := Sql.Where.addAll {} f.predicates

/-- The query for the rows that a compiled filter selects. -/
def select (f : CompiledFilter) : Sql.Select := f.toWhere.select f.base

end DocFilter.CompiledFilter
