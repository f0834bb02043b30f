import DocFilter.Value

/-!
# SQL expressions and selects

The part of SQL that filters are compiled to.
-/

namespace DocFilter.Sql

/-- An operation on two expressions. -/
inductive BinaryOp where
  | eq
  | ne
  | lt
  | le
  | gt
  | ge
  | and
  | or
  deriving DecidableEq

/-- Which rows of the left side a join keeps. -/
inductive JoinKind where
  | inner
  | left
  deriving DecidableEq

/-- A table in a `FROM` clause. -/
structure From where
  /-- The table. -/
  table : String
  /-- The name it has in the query, when that is another one. -/
  asName : Option String
  deriving DecidableEq

mutual

/-- An expression. -/
inductive Expr where
  /-- A column, of a named table or of whichever table has it. -/
  | column (qualifier : Option String) (name : String)
  | value (v : Value)
  | binary (left : Expr) (op : BinaryOp) (right : Expr)
  /-- All columns, of a named table or of every table. -/
  | wildcard (qualifier : Option String)
  | inList (tested : Expr) (items : List Expr) (negated : Bool)
  | inSubquery (tested : Expr) (query : Select) (negated : Bool)
  | isNull (tested : Expr) (negated : Bool)
  /-- An expression in parentheses. -/
  | nested (inner : Expr)

/-- A joined table. -/
structure Join where
  /-- Which rows are kept. -/
  kind : JoinKind
  /-- The table. -/
  table : String
  /-- The name it has in the query, when that is another one. -/
  asName : Option String
  /-- The condition that joined rows meet. -/
  condition : Expr

/-- A query. -/
structure Select where
  /-- The columns of the result. -/
  columns : List Expr
  /-- The first table. -/
  source : Option From
  /-- The other tables. -/
  joins : List Join
  /-- The condition that rows of the result meet. -/
  condition : Option Expr

end

namespace Select

/-- A query of columns from a table. -/
def ofTable (columns : List Expr) (source : From) : Select := ⟨columns, some source, [], none⟩

/-- Joins one more table. -/
def join (s : Select) (j : Join) : Select := { s with joins := s.joins ++ [j] }

/-- Sets the condition, in place of any earlier one. -/
def filter (s : Select) (condition : Expr) : Select := { s with condition := some condition }

/-- Sets the condition if there is one to set. -/
def filterOpt (s : Select) : Option Expr → Select
  | none => s
  | some condition => s.filter condition

end Select

end DocFilter.Sql
