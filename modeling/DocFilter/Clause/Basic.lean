import DocFilter.Clause.Operand
import DocFilter.Document
import DocFilter.Pending.Basic

/-!
# Clauses

A document is read as a list of clauses, in the order in which a compilation deals with them. Each
clause is a test, a group of clauses, or something that went wrong; nothing is decided yet about
what happens then. The entries of a logical operator's array that are no objects come before the
group, and the entries of a comparison object that are no comparators come before the tests of their
field.
-/

namespace DocFilter

/-- A part of a document. -/
inductive Clause where
  /-- A test on a column of the base table. -/
  | own (column : Column) (op : Comparator) (operand : Operand)
  /-- A test on a column of a relation. -/
  | related (p : RelatedTest)
  /-- Something that makes no sense. -/
  | skipped (d : Diagnostic)
  /-- A field that refers to an unknown relation. -/
  | unknown (relation field : String)
  /-- Clauses joined by `inner`. A group that the document writes has a number of elements; others
  arise where several clauses belong together inside an `or`. -/
  | group (written : Option Nat) (inner : Connective) (clauses : List Clause)

namespace Clause

/-- What the fields of a document are looked up in. -/
structure Context where
  /-- The base table. -/
  base : String
  /-- The relations. -/
  registry : Registry
  /-- The character that operators start with. -/
  marker : Char

/-- The path of a key below a path. -/
def joinPath (path key : String) : String := if path.isEmpty then key else path ++ "." ++ key

/-- The path of an element below a path. -/
def elementPath (path : String) (index : Nat) : String := path ++ "[" ++ toString index ++ "]"

/-- A malformed clause. -/
def malformed (path reason : String) : Clause := .skipped ⟨path, .malformed reason⟩

/-- An operator that is unknown or out of place. -/
def unrecognized (path key : String) : Clause := .skipped ⟨path, .unrecognizedOperator key⟩

/-! ## Fields -/

/-- The clause of a comparator and its operand. -/
def test (field : Field) (op : Comparator) (path : String) (j : Json) : Clause :=
  match Operand.read op j with
  | .error reason => malformed path reason
  | .ok operand =>
    match field with
    | .own column => .own column op operand
    | .related f =>
      if operand.listsNull then malformed path s!"`{op.token}` on a relation field cannot list null"
      else .related ⟨f, op, operand.value⟩

/-- The test of an entry of a comparison object. -/
def entryTest? (marker : Char) (field : Field) (path : String) (entry : String × Json) :
    Option Clause :=
  match Key.classify marker entry.1 with
  | .comparison op => some (test field op (joinPath path entry.1) entry.2)
  | _ => none

/-- The clause of an entry of a comparison object that is no test. -/
def entryStray? (marker : Char) (path : String) (entry : String × Json) : Option Clause :=
  match Key.classify marker entry.1 with
  | .comparison _ => none
  | _ => some (unrecognized (joinPath path entry.1) entry.1)

/-- Several tests of one field belong together, also inside an `or`. -/
def together (scope : Connective) (tests : List Clause) : List Clause :=
  if scope = .or && 1 < tests.length then [.group none .and tests] else tests

/-- The clauses of a field in a scope. -/
def ofField (ctx : Context) (scope : Connective) (path name : String) (value : Json) :
    List Clause :=
  match Field.resolve ctx.registry ctx.base name with
  | .error (.malformed reason) => [malformed path reason]
  | .error (.unknownRelation relation) => [.unknown relation name]
  | .ok field =>
    match value with
    | .obj [] => [malformed path "empty comparison object"]
    | .obj entries =>
      entries.filterMap (entryStray? ctx.marker path)
        ++ together scope (entries.filterMap (entryTest? ctx.marker field path))
    | .arr _ => [malformed path "a list of values needs an explicit `in` or `nin` operator"]
    | scalar => [test field .eq path scalar]

/-! ## Entries -/

/-- Whether a JSON value is an object. -/
def isObject : Json → Bool
  | .obj _ => true
  | _ => false

/-- The clauses of the elements of an array that are no objects, from an index on. -/
def strayElements (path : String) (index : Nat) : List Json → List Clause
  | [] => []
  | j :: js =>
    if isObject j then strayElements path (index + 1) js
    else malformed (elementPath path index) s!"expected an object, found {j.kind}"
      :: strayElements path (index + 1) js

mutual

/-- The clauses of an entry in a scope; `path` is the path of the entry itself. -/
def ofEntry (ctx : Context) (scope : Connective) (path key : String) : Json → List Clause
  | .arr items =>
    match Key.classify ctx.marker key with
    | .logical c =>
      strayElements path 0 items
        ++ [.group (some (items.filter isObject).length) c (ofElements ctx c path 0 items)]
    | .field name => ofField ctx scope path name (.arr items)
    | _ => [unrecognized path key]
  | .obj entries =>
    match Key.classify ctx.marker key with
    | .logical c => [.group (some entries.length) c (ofEntries ctx c path entries)]
    | .field name => ofField ctx scope path name (.obj entries)
    | _ => [unrecognized path key]
  | j =>
    match Key.classify ctx.marker key with
    | .logical _ => [malformed path s!"expected an object or an array, found {j.kind}"]
    | .field name => ofField ctx scope path name j
    | _ => [unrecognized path key]

/-- The clauses of the elements of an array joined by `c`, from an index on. -/
def ofElements (ctx : Context) (c : Connective) (path : String) (index : Nat) :
    List Json → List Clause
  | [] => []
  | j :: js => ofElement ctx c (elementPath path index) j ++ ofElements ctx c path (index + 1) js

/-- The clauses of an element of an array joined by `c`. Several entries of one element belong
together, also inside an `or`. -/
def ofElement (ctx : Context) (c : Connective) (path : String) : Json → List Clause
  | .obj entries =>
    if c = .or && 1 < entries.length then [.group none .and (ofEntries ctx .and path entries)]
    else ofEntries ctx c path entries
  | _ => []

/-- The clauses of entries in a scope, below a path. -/
def ofEntries (ctx : Context) (scope : Connective) (path : String) :
    List (String × Json) → List Clause
  | [] => []
  | (key, j) :: rest => ofEntry ctx scope (joinPath path key) key j ++ ofEntries ctx scope path rest

end

/-- The clauses of a document. -/
def ofDocument (ctx : Context) (d : Document) : List Clause := ofEntries ctx .and "" d.entries

end Clause

end DocFilter
