import DocFilter.Json.Reading
import DocFilter.Relation.Basic

/-!
# Relations in configuration files

A relation is written as an object. The target and its key are read when they come up. All other
entries are only collected, and looked at when the object is complete, because what they mean
depends on the type of the link. Every field has several names, may be given only once under any of
them, and is a string. Entries that mean nothing are passed over.
-/

namespace DocFilter

namespace Relation

/-- The names of the target table. -/
def targetNames : List String := ["tableName", "targetTable", "target_table"]

/-- The names of the key of the target table. -/
def targetKeyNames : List String := ["targetKey", "target_key"]

/-- The names of the foreign key. -/
def foreignKeyNames : List String := ["foreignKey", "foreign_key"]

/-- The names of the join table. -/
def joinTableNames : List String := ["joinTable", "join_table"]

/-- The names of the column of the join table that holds the key of the base row. -/
def joinFromNames : List String := ["joinFrom", "join_from", "joinFromColumn"]

/-- The names of the column of the join table that holds the key of the target row. -/
def joinToNames : List String := ["joinTo", "join_to", "joinToColumn"]

/-- A relation of which some entries were read. -/
structure Draft where
  /-- The target table. -/
  target : Option String := none
  /-- The key of the target table. -/
  targetKey : Option String := none
  /-- The other entries. -/
  others : List (String × Json) := []

namespace Draft

/-- Takes one more entry, inside `level` arrays and objects. -/
def add (level : Nat) (d : Draft) (key : String) (t : Json.Tree) : Except Json.Problem Draft :=
  if targetNames.contains key then
    if d.target.isSome then .error .mismatch
    else do return { d with target := some (← t.string?) }
  else if targetKeyNames.contains key then
    if d.targetKey.isSome then .error .mismatch
    else do return { d with targetKey := some (← t.string?) }
  else do return { d with others := d.others ++ [(key, ← t.json level)] }

/-- The field of the link that goes by one of the names. -/
def field (d : Draft) (names : List String) : Except Json.Problem String :=
  match d.others.filter fun entry => names.contains entry.1 with
  | [(_, .str s)] => .ok s
  | _ => .error .mismatch

/-- The link. Its type is given by a word, or by a number in the order of the types. -/
def link (d : Draft) : Except Json.Problem Link :=
  match d.others.filter fun entry => entry.1 == "type" with
  | [(_, .str "oneToMany")] => oneToMany
  | [(_, .num (.nat 0))] => oneToMany
  | [(_, .str "manyToMany")] => manyToMany
  | [(_, .num (.nat 1))] => manyToMany
  | _ => .error .mismatch
where
  /-- The fields of a link through a foreign key. -/
  oneToMany := do return .oneToMany (← d.field foreignKeyNames)
  /-- The fields of a link through a join table. -/
  manyToMany := do
    return .manyToMany (← d.field joinTableNames) (← d.field joinFromNames) (← d.field joinToNames)

/-- The relation, when all entries were read. -/
def relation (d : Draft) : Except Json.Problem Relation :=
  match d.target with
  | none => .error .mismatch
  | some target => do return { target, targetKey := d.targetKey.getD "id", link := ← d.link }

end Draft

/-- Takes all entries of an object inside `level` arrays and objects, itself counted. -/
def readEntries (level : Nat) (d : Draft) (entries : List (Json.Quoted × Json.Tree)) :
    Except Json.Problem Draft :=
  entries.foldlM (fun d (key, t) => do d.add level (← key.text) t) d

/-- Reads a relation inside `level` arrays and objects. -/
def read (level : Nat) : Json.Tree → Except Json.Problem Relation
  | .object entries stop => do
    let d ← readEntries (level + 1) {} entries
    Json.noFault stop
    d.relation
  | t => .error t.mismatch

/-- A relation as an object. -/
def toJson (r : Relation) : Json :=
  .obj (("tableName", .str r.target) :: ("targetKey", .str r.targetKey) ::
    match r.link with
    | .oneToMany foreignKey => [("type", .str "oneToMany"), ("foreignKey", .str foreignKey)]
    | .manyToMany joinTable joinFrom joinTo =>
      [("type", .str "manyToMany"), ("joinTable", .str joinTable), ("joinFrom", .str joinFrom),
        ("joinTo", .str joinTo)])

end Relation

end DocFilter
