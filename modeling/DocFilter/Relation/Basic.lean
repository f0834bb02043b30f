/-!
# Relations

A relation leads from the base table of a filter to another table, its target. One base row has many
target rows: either each target row names its base row (`Link.oneToMany`), or a join table pairs the
two (`Link.manyToMany`).
-/

namespace DocFilter

/-- A column of a table. -/
structure Column where
  /-- The table. -/
  table : String
  /-- The column. -/
  name : String
  deriving DecidableEq

/-- A column as it is written in messages. -/
def Column.text (c : Column) : String := c.table ++ "." ++ c.name

/-- How the rows of a target belong to the rows of the base table. -/
inductive Link where
  /-- A column of the target holds the key of the base row. -/
  | oneToMany (foreignKey : String)
  /-- The rows of a join table hold the key of a base row and the key of a target row. -/
  | manyToMany (joinTable joinFrom joinTo : String)
  deriving DecidableEq

/-- A relation to a target table. -/
structure Relation where
  /-- The target table. -/
  target : String
  /-- The key of the target table. -/
  targetKey : String := "id"
  /-- How target rows belong to base rows. -/
  link : Link
  deriving DecidableEq

/-- The join table, if there is one. -/
def Relation.joinTable? (r : Relation) : Option String :=
  match r.link with
  | .oneToMany _ => none
  | .manyToMany joinTable _ _ => some joinTable

end DocFilter
