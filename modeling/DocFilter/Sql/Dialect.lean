import DocFilter.Quote

/-!
# Dialects of SQL

What differs between the databases: the quotes around names and the marks where parameters go.
-/

namespace DocFilter.Sql

/-- A dialect of SQL. -/
inductive Dialect where
  | postgres
  | mysql
  | sqlite
  deriving DecidableEq

namespace Dialect

/-- The name of the database. -/
def name : Dialect → String
  | .postgres => "PostgreSQL"
  | .mysql => "MySQL"
  | .sqlite => "SQLite"

/-- The dialect called by a short name, in letters of either case. -/
def ofName? (name : String) : Option Dialect :=
  match String.ofList (name.toList.map Char.toLower) with
  | "postgres" | "postgresql" | "pg" => some .postgres
  | "mysql" => some .mysql
  | "sqlite" => some .sqlite
  | _ => none

/-- The quote around names. -/
def quote : Dialect → Char
  | .postgres => '"'
  | .mysql => '\x60'
  | .sqlite => '"'

/-- A name between quotes. -/
def quoteName (d : Dialect) (name : String) : String := Quote.enclose d.quote name

/-- The mark for the parameter with the given index, counted from zero. -/
def placeholder : Dialect → Nat → String
  | .postgres, i => "$" ++ toString (i + 1)
  | .mysql, _ => "?"
  | .sqlite, _ => "?"

end Dialect

end DocFilter.Sql
