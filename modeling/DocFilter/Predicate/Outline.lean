import DocFilter.Predicate.Basic

/-!
# Predicates as an outline

A predicate tree for a reader: one line for each predicate, the lines of a group two blanks further
in than the line that opens it.
-/

namespace DocFilter

/-- A comparison on a line. -/
def comparisonLine (column : Column) (comparator : Comparator) (value : Value) : String :=
  column.text ++ " " ++ comparator.symbol ++ " " ++ value.display

/-- A null test on a line. -/
def nullTestLine (column : Column) (negated : Bool) : String :=
  column.text ++ " null=" ++ (if negated then "false" else "true")

/-- A condition of a subquery. -/
def SubqueryFilter.outline : SubqueryFilter → String
  | .comparison column comparator value => "where " ++ comparisonLine column comparator value
  | .nullTest column negated => "where " ++ nullTestLine column negated

/-- A subquery on a line. -/
def Subquery.outline (s : Subquery) : String :=
  let join := match s.join with
    | none => []
    | some j => ["join " ++ j.table ++ " on " ++ j.left.text ++ " = " ++ j.right.text]
  "; ".intercalate (["select " ++ s.select.text, "from " ++ s.source] ++ join
    ++ s.filters.map SubqueryFilter.outline)

mutual

/-- The lines of a predicate inside `level` groups. -/
def Predicate.outline (level : Nat) : Predicate → List String
  | .comparison connective column comparator value =>
    [margin level connective ++ comparisonLine column comparator value]
  | .nullTest connective column negated => [margin level connective ++ nullTestLine column negated]
  | .group connective inner predicates =>
    (margin level connective ++ "group(" ++ inner.token ++ ")") ::
      predicatesOutline (level + 1) predicates
  | .membership connective base membership subquery =>
    [margin level connective ++ base.text ++ " " ++ membership.symbol ++
      " [" ++ subquery.outline ++ "]"]
where
  /-- What a line starts with. -/
  margin (level : Nat) (connective : Connective) : String :=
    String.ofList (List.replicate (2 * level) ' ') ++ connective.token ++ " "

/-- The lines of several predicates inside `level` groups. -/
def predicatesOutline (level : Nat) : List Predicate → List String
  | [] => []
  | p :: ps => p.outline level ++ predicatesOutline level ps

end

/-- The lines of a compiled filter. -/
def CompiledFilter.outline (f : CompiledFilter) : List String := predicatesOutline 0 f.predicates

end DocFilter
