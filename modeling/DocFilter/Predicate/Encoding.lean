import DocFilter.Predicate.Basic

/-!
# Predicates as JSON
-/

namespace DocFilter

/-- A column as an object. -/
def Column.toJson (c : Column) : Json := .obj [("table", .str c.table), ("column", .str c.name)]

/-- A comparison as entries of an object. -/
def comparisonEntries (column : Column) (comparator : Comparator) (value : Value) :
    List (String × Json) :=
  [("column", column.toJson), ("comparator", .str comparator.symbol), ("value", value.toJson)]

/-- A null test as entries of an object. -/
def nullTestEntries (column : Column) (negated : Bool) : List (String × Json) :=
  [("column", column.toJson), ("negated", .bool negated)]

/-- A condition of a subquery as an object. -/
def SubqueryFilter.toJson : SubqueryFilter → Json
  | .comparison column comparator value =>
    .obj (("kind", .str "comparison") :: comparisonEntries column comparator value)
  | .nullTest column negated => .obj (("kind", .str "null_test") :: nullTestEntries column negated)

/-- A joined table as an object. -/
def InnerJoin.toJson (j : InnerJoin) : Json :=
  .obj [("table", .str j.table), ("on_left", j.left.toJson), ("on_right", j.right.toJson)]

/-- A subquery as an object. -/
def Subquery.toJson (s : Subquery) : Json :=
  let join := match s.join with
    | none => []
    | some j => [("inner_join", j.toJson)]
  .obj ([("select", s.select.toJson), ("from", .str s.source)] ++ join
    ++ [("filters", .arr (s.filters.map SubqueryFilter.toJson))])

mutual

/-- A predicate as an object. -/
def Predicate.toJson : Predicate → Json
  | .comparison connective column comparator value =>
    .obj (("kind", .str "comparison") :: ("connective", .str connective.token)
      :: comparisonEntries column comparator value)
  | .nullTest connective column negated =>
    .obj (("kind", .str "null_test") :: ("connective", .str connective.token) ::
      nullTestEntries column negated)
  | .group connective inner predicates =>
    .obj [("kind", .str "group"), ("connective", .str connective.token),
      ("inner", .str inner.token),
      ("predicates", .arr (predicatesToJson predicates))]
  | .membership connective base membership subquery =>
    .obj [("kind", .str "subquery"), ("connective", .str connective.token),
      ("base_column", base.toJson),
      ("membership", .str membership.symbol), ("subquery", subquery.toJson)]

/-- Several predicates as objects. -/
def predicatesToJson : List Predicate → List Json
  | [] => []
  | p :: ps => p.toJson :: predicatesToJson ps

end

/-- A compiled filter as an object. -/
def CompiledFilter.toJson (f : CompiledFilter) : Json :=
  .obj [("base_table", .str f.base), ("predicates", .arr (predicatesToJson f.predicates)),
    ("diagnostics", .arr (f.diagnostics.map Diagnostic.toJson))]

end DocFilter
