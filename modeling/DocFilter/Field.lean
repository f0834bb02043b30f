import DocFilter.Diagnostic
import DocFilter.Relation.Registry

/-!
# Fields

A field of a filter is a path. Without a point it is a column of the base table. Otherwise what
comes before the first point names the base table, a relation (the column is one of its target) or a
join table (the column is one of that table), looked up in this order; what comes after it is the
column, further points included.
-/

namespace DocFilter

/-- A column that belongs to a relation. -/
structure RelatedField where
  /-- The name of the relation. -/
  name : String
  /-- The relation. -/
  relation : Relation
  /-- The column. -/
  column : String
  /-- Whether the column is one of the join table, and not of the target. -/
  onJoinTable : Bool
  deriving DecidableEq

namespace RelatedField

/-- The table of the column. A relation without a join table only has its target. -/
def table (f : RelatedField) : String :=
  if f.onJoinTable then f.relation.joinTable?.getD f.relation.target else f.relation.target

/-- The column with its table. -/
def ref (f : RelatedField) : Column := ⟨f.table, f.column⟩

end RelatedField

/-- What a path refers to. -/
inductive Field where
  /-- A column of the base table. -/
  | own (c : Column)
  /-- A column that belongs to a relation. -/
  | related (f : RelatedField)
  deriving DecidableEq

/-- Why a path refers to nothing. -/
inductive Field.Failure where
  /-- The path is not one. -/
  | malformed (reason : String)
  /-- What comes before the first point names nothing. -/
  | unknownRelation (relation : String)
  deriving DecidableEq

/-- The error about a path that refers to nothing. -/
def Field.Failure.toError (path : String) : Field.Failure → FilterError
  | .malformed reason => .malformed path reason
  | .unknownRelation relation => .unknownRelation relation path

namespace Field

/-- The text before and after the first point. -/
def cut? (path : String) : Option (String × String) :=
  match path.toList.dropWhile (· != '.') with
  | _ :: rest => some (String.ofList (path.toList.takeWhile (· != '.')), String.ofList rest)
  | [] => none

/-- Whether two points follow one another, or one stands at an end, or there is no text. -/
def hasEmptySegment (path : String) : Bool := (path.toList.splitOn '.').any List.isEmpty

/-- Finds what a path refers to. -/
def resolve (registry : Registry) (base path : String) : Except Field.Failure Field :=
  match cut? path with
  | none =>
    if path.isEmpty then .error (.malformed "field name is empty")
    else .ok (.own ⟨base, path⟩)
  | some (head, column) =>
    if head.isEmpty || hasEmptySegment column then
      .error (.malformed "field path has an empty segment")
    else if head = base then .ok (.own ⟨base, column⟩)
    else match registry.get? head with
      | some relation => .ok (.related ⟨head, relation, column, false⟩)
      | none =>
        match registry.byJoinTable? head with
        | some (name, relation) => .ok (.related ⟨name, relation, column, true⟩)
        | none => .error (.unknownRelation head)

end Field

end DocFilter
