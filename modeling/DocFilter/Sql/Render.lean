import DocFilter.Sql.Expr
import DocFilter.Sql.Fragment

/-!
# Writing expressions and selects

Operations on two expressions are always written in parentheses, so no precedence is ever relied on.
A membership test in an empty list is not valid SQL; it is written as a condition that is constantly
false, or true when it is negated.
-/

namespace DocFilter.Sql

/-- The sign of an operation, with a blank on either side. -/
def BinaryOp.text : BinaryOp → String
  | .eq => " = "
  | .ne => " <> "
  | .lt => " < "
  | .le => " <= "
  | .gt => " > "
  | .ge => " >= "
  | .and => " AND "
  | .or => " OR "

/-- The words before a joined table. -/
def JoinKind.text : JoinKind → String
  | .inner => "INNER JOIN "
  | .left => "LEFT JOIN "

/-- The name of the table that a column or a wildcard belongs to, with a point. -/
def qualifierFragments : Option String → List Fragment
  | none => []
  | some q => [.name q, .raw "."]

/-- The name that a table has in the query. -/
def aliasFragments : Option String → List Fragment
  | none => []
  | some a => [.raw " AS ", .name a]

/-- A `FROM` clause. -/
def From.fragments (f : From) : List Fragment :=
  .raw "FROM " :: .name f.table :: aliasFragments f.asName

/-- A value: a list is written with a mark for each of its items. -/
def valueFragments : Value → List Fragment
  | .list items => .raw "(" :: Fragment.separated ", " (items.map fun v => [.param v]) ++ [.raw ")"]
  | v => [.param v]

/-- The words of a membership test. -/
def membershipText (negated : Bool) : String := if negated then " NOT IN (" else " IN ("

/-- The words of a null test. -/
def nullTestText (negated : Bool) : String := if negated then " IS NOT NULL" else " IS NULL"

/-- The condition that stands for a membership test in an empty list. -/
def emptyListText (negated : Bool) : String := if negated then "(1 = 1)" else "(1 = 0)"

/-- Whether an expression is written in parentheses of its own. -/
def Expr.isBinary : Expr → Bool
  | .binary _ _ _ => true
  | _ => false

mutual

/-- The fragments of an expression. -/
def Expr.fragments : Expr → List Fragment
  | .column q n => qualifierFragments q ++ [.name n]
  | .value v => valueFragments v
  | .binary l op r => .raw "(" :: l.fragments ++ .raw op.text :: r.fragments ++ [.raw ")"]
  | .wildcard q => qualifierFragments q ++ [.raw "*"]
  | .inList _ [] negated => [.raw (emptyListText negated)]
  | .inList e (x :: xs) negated =>
    e.fragments ++ .raw (membershipText negated)
      :: Fragment.separated ", " (x.fragments :: exprsFragments xs) ++ [.raw ")"]
  | .inSubquery e q negated =>
    e.fragments ++ .raw (membershipText negated) :: q.fragments ++ [.raw ")"]
  | .isNull e negated => e.fragments ++ [.raw (nullTestText negated)]
  | .nested e => if e.isBinary then e.fragments else .raw "(" :: e.fragments ++ [.raw ")"]

/-- The fragments of each of several expressions. -/
def exprsFragments : List Expr → List (List Fragment)
  | [] => []
  | e :: es => e.fragments :: exprsFragments es

/-- The fragments of a joined table. -/
def Join.fragments : Join → List Fragment
  | ⟨kind, table, asName, condition⟩ =>
    .raw kind.text :: .name table :: aliasFragments asName ++ .raw " ON " :: condition.fragments

/-- The fragments of joined tables, with a blank before each. -/
def joinsFragments : List Join → List Fragment
  | [] => []
  | j :: js => .raw " " :: j.fragments ++ joinsFragments js

/-- The fragments of a `WHERE` clause, with a blank before it. -/
def conditionFragments : Option Expr → List Fragment
  | none => []
  | some e => .raw " WHERE " :: e.fragments

/-- The fragments of a query. -/
def Select.fragments : Select → List Fragment
  | ⟨columns, source, joins, condition⟩ =>
    .raw "SELECT " :: Fragment.separated ", " (exprsFragments columns)
      ++ (match source with
        | none => []
        | some f => .raw " " :: f.fragments)
      ++ joinsFragments joins ++ conditionFragments condition

end

/-- An expression in a dialect. -/
def Expr.statement (d : Dialect) (e : Expr) : Statement := .ofFragments d e.fragments

/-- A query in a dialect. -/
def Select.statement (d : Dialect) (s : Select) : Statement := .ofFragments d s.fragments

end DocFilter.Sql
