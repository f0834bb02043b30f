import DocFilter.NameMap
import DocFilter.Relation.Config

/-!
# The registry of relations

A registry holds relations under their names, and an index that leads from a join table to the
relation that uses it. A join table belongs to one relation only. Relations are added in place
(`Registry.enter`) or to a copy (`Registry.register`).
-/

namespace DocFilter

/-- What is wrong with a relation that cannot be registered. -/
inductive Relation.Flaw where
  | badName
  | emptyTarget
  | emptyForeignKey
  | emptyJoin
  | joinTableIsTarget
  deriving DecidableEq

/-- The flaw in words. -/
def Relation.Flaw.message : Relation.Flaw → String
  | .badName => "relation names must be non-empty and contain no `.`"
  | .emptyTarget => "target table and key must be non-empty"
  | .emptyForeignKey => "foreign key must be non-empty"
  | .emptyJoin => "join table and join columns must be non-empty"
  | .joinTableIsTarget => "join table must differ from the target table"

/-- The first flaw of a relation under a name. -/
def Relation.flaw? (name : String) (r : Relation) : Option Relation.Flaw :=
  if name.isEmpty || name.toList.contains '.' then some .badName
  else if r.target.isEmpty || r.targetKey.isEmpty then some .emptyTarget
  else match r.link with
    | .oneToMany foreignKey => if foreignKey.isEmpty then some .emptyForeignKey else none
    | .manyToMany joinTable joinFrom joinTo =>
      if joinTable.isEmpty || joinFrom.isEmpty || joinTo.isEmpty then some .emptyJoin
      else if joinTable = r.target then some .joinTableIsTarget
      else none

/-- Why a registry cannot be built. -/
inductive RegistryError where
  | duplicateRelation (name : String)
  | duplicateJoinTable (joinTable existing relation : String)
  | invalid (relation : String) (flaw : Relation.Flaw)
  /-- The configuration cannot be read. -/
  | json (p : Json.Problem)
  deriving DecidableEq

/-- The error in words. -/
def RegistryError.message : RegistryError → String
  | .duplicateRelation name => s!"Relation `{name}` is registered twice"
  | .duplicateJoinTable joinTable existing relation =>
    s!"Join table `{joinTable}` is already used by relation `{existing}`, " ++
      s!"cannot reuse it for `{relation}`"
  | .invalid relation flaw => s!"Invalid descriptor for relation `{relation}`: {flaw.message}"
  | .json p => s!"Failed to parse relation registry JSON: {p.message}"

/-- The relations that a filter can refer to. -/
structure Registry where
  /-- The relations by their names. -/
  relations : NameMap Relation := {}
  /-- The names of the relations by their join tables. -/
  joinTables : NameMap String := {}
  deriving DecidableEq

namespace Registry

/-- The relation of a name. -/
def get? (r : Registry) (name : String) : Option Relation := r.relations.find? name

/-- The relation that uses a join table, with its name. -/
def byJoinTable? (r : Registry) (table : String) : Option (String × Relation) := do
  let name ← r.joinTables.find? table
  let relation ← r.get? name
  return (name, relation)

/-- The number of relations. -/
def size (r : Registry) : Nat := r.relations.size

/-- Adds a relation in place. It has to be free of flaws, and its name and its join table have to be
new. What is changed before an error stays changed. -/
def enter (name : String) (relation : Relation) : EStateM RegistryError Registry Unit :=
  match relation.flaw? name with
  | some flaw => throw (.invalid name flaw)
  | none => do
    if (← get).relations.contains name then throw (.duplicateRelation name)
    match relation.joinTable? with
    | none => pure ()
    | some joinTable =>
      match (← get).joinTables.find? joinTable with
      | some existing => throw (.duplicateJoinTable joinTable existing name)
      | none => modify fun r => { r with joinTables := r.joinTables.insert joinTable name }
    modify fun r => { r with relations := r.relations.insert name relation }

/-- The registry with one more relation. -/
def register (r : Registry) (name : String) (relation : Relation) : Except RegistryError Registry :=
  match (enter name relation).run r with
  | .ok _ r' => .ok r'
  | .error e _ => .error e

/-- The registry of several relations, added in the given order. -/
def ofList (relations : List (String × Relation)) : Except RegistryError Registry :=
  relations.foldlM (fun r (name, relation) => r.register name relation) {}

/-- Reads named relations. Of two relations with the same name the later one counts. -/
def read : Json.Tree → Except Json.Problem (NameMap Relation)
  | .object entries stop => do
    let relations ← entries.foldlM (fun m (key, t) => do
      let name ← key.text
      return m.insert name (← Relation.read 1 t)) {}
    Json.noFault stop
    return relations
  | t => .error t.mismatch

/-- The registry that a configuration describes. Relations are added in the order of their names. -/
def ofText (text : String) : Except RegistryError Registry :=
  match Json.readText read text with
  | .error p => .error (.json p)
  | .ok relations => ofList relations.entries

end Registry

end DocFilter
