import DocFilter.Clause.Basic
import DocFilter.Proofs.Meaning.Sharing

/-!
# The meaning of documents

What a filter document says about a row of the base table, told without predicates, subqueries or
SQL. A node is the conjunction of its entries, `and` the conjunction of its elements, `or` the
disjunction of its elements. What makes no sense has no meaning and is left out, and so is a group
in which nothing is left.

Tests on relations that stand in one conjunction speak about related rows together (see
`Pending.together`). The meaning of a part of a conjunction is therefore a `Sense`: what the part
says by itself, and the tests on relations that it adds to the conjunction. A conjunction takes all
of its parts as one sense; a disjunction closes each part first.
-/

namespace DocFilter

/-- What a part of a conjunction says about a base row. -/
structure Sense where
  /-- What its tests on the base table and its groups say. -/
  facts : List Bool := []
  /-- Its tests on relations, joined by `and`. -/
  tests : List Pending := []

namespace Sense

variable {α : Type}

/-- Two parts of one conjunction. -/
def append (s t : Sense) : Sense := ⟨s.facts ++ t.facts, s.tests ++ t.tests⟩

/-- The parts of one conjunction. -/
def concat (ss : List Sense) : Sense := ss.foldr append {}

/-- A part that says one thing, or nothing. -/
def ofOption : Option Bool → Sense
  | none => {}
  | some b => { facts := [b] }

/-- What the tests on relations in a conjunction say about the base row with a key. -/
def testsHold (db : Database α) (key : α) (tests : List Pending) : Bool :=
  tests.all fun p => Pending.together db (p.field.relation.rowsOf db key)
    (tests.filter (·.field.name == p.field.name))

/-- What a conjunction says, unless nothing is left of it. -/
def close (db : Database α) (key : α) (s : Sense) : Option Bool :=
  if s.facts.isEmpty && s.tests.isEmpty then none
  else some (s.facts.all id && testsHold db key s.tests)

/-- What parts joined by a connective say, unless nothing is left of them. -/
def join (db : Database α) (key : α) : Connective → List Sense → Option Bool
  | .and, ss => (concat ss).close db key
  | .or, ss => match ss.filterMap (close db key) with
    | [] => none
    | bs => some (bs.any id)

end Sense

namespace Meaning

variable {α : Type} (ctx : Clause.Context) (db : Database α) (row : Row α) (key : α)

/-- What a comparator and its operand say about a field. A comparator that asks for an order does
not take null, only `in` and `nin` take lists, and a list for a relation has no null in it. -/
def test (field : Field) (op : Comparator) (operand : Json) : Sense :=
  match Value.ofJson operand with
  | .error _ => {}
  | .ok v =>
    if (v.isNull && op.isOrdering) || (v.isList && !op.takesList) then {}
    else match field with
      | .own c => { facts := [op.holds db (row c.name) v] }
      | .related f =>
        if v.isList && v.toList.any (·.isNull) then {}
        else if op.takesList && !v.isNull then { tests := [⟨⟨f, op, .list v.toList⟩, .and⟩] }
        else { tests := [⟨⟨f, op, v⟩, .and⟩] }

/-- What the operators of a comparison object say about a field. -/
def operators (field : Field) (entries : List (String × Json)) : Sense :=
  .concat (entries.map fun (k, operand) =>
    match Key.classify ctx.marker k with
    | .comparison op => test db row field op operand
    | _ => {})

/-- What a field with a value says. A value that is no object is to be equalled. -/
def field (name : String) (value : Json) : Sense :=
  match Field.resolve ctx.registry ctx.base name with
  | .error _ => {}
  | .ok field =>
    match value with
    | .obj entries => operators ctx db row field entries
    | .arr _ => {}
    | scalar => test db row field .eq scalar

mutual

/-- What an entry of a node says. -/
def entry (k : String) : Json → Sense
  | .arr items =>
    match Key.classify ctx.marker k with
    | .logical c => .ofOption (Sense.join db key c (elements items))
    | .field name => field ctx db row name (.arr items)
    | _ => {}
  | .obj entries =>
    match Key.classify ctx.marker k with
    | .logical c => .ofOption (Sense.join db key c (entrySenses entries))
    | .field name => field ctx db row name (.obj entries)
    | _ => {}
  | j =>
    match Key.classify ctx.marker k with
    | .field name => field ctx db row name j
    | _ => {}

/-- What the elements of an array say, each a node. -/
def elements : List Json → List Sense
  | [] => []
  | .obj entries :: js => .concat (entrySenses entries) :: elements js
  | _ :: js => elements js

/-- What the entries of a node say. -/
def entrySenses : List (String × Json) → List Sense
  | [] => []
  | (k, j) :: rest => entry k j :: entrySenses rest

end

/-- Whether a document is true of a base row with a key. -/
def holds (d : Document) : Bool :=
  (Sense.join db key .and (entrySenses ctx db row key d.entries)).getD true

end Meaning

end DocFilter
