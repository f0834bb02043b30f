import DocFilter.Diagnostic
import DocFilter.Operator
import DocFilter.Relation.Basic

/-!
# Events

What a compilation reports while it goes on, in the order in which it happens.
-/

namespace DocFilter

/-- How much an event matters. -/
inductive Level where
  | error
  | warn
  | info
  | debug
  deriving DecidableEq

namespace Level

/-- The word for a level. -/
def name : Level → String
  | .error => "ERROR"
  | .warn => "WARN"
  | .info => "INFO"
  | .debug => "DEBUG"

/-- Levels by how little they matter. -/
def rank : Level → Nat
  | .error => 1
  | .warn => 2
  | .info => 3
  | .debug => 4

end Level

/-- Something that happens during a compilation. -/
inductive Event where
  /-- A group that the document writes begins. -/
  | opening (c : Connective) (elements : Nat)
  /-- A test on a relation is put off. -/
  | deferring (column : Column) (op : Comparator) (relation : String)
  /-- The tests of a scope on a relation become subqueries. -/
  | flushing (tests : Nat) (relation : String) (subqueries : Nat)
  /-- A group holds nothing. -/
  | dropping (c : Connective)
  /-- A clause is passed over. -/
  | skipping (d : Diagnostic)
  /-- A membership test has no table to select from. -/
  | tableless (base : Column)
  /-- The compilation is complete. -/
  | compiled (base : String) (predicates : Nat)

namespace Event

/-- How much an event matters. -/
def level : Event → Level
  | .skipping _ => .warn
  | .tableless _ => .warn
  | _ => .debug

/-- The event in words. -/
def message : Event → String
  | .opening c n => s!"Opening `{c.token}` group with {n} element(s)"
  | .deferring column op relation =>
    s!"Deferring `{column.text}` {op.symbol} on relation `{relation}`"
  | .flushing n relation m =>
    s!"Flushing {n} predicate(s) on relation `{relation}` into {m} subquery(ies)"
  | .dropping c => s!"Dropping empty `{c.token}` group"
  | .skipping d => s!"Skipping clause: {d.message}"
  | .tableless base => s!"Subquery for `{base.text}` has no FROM clause. Skipping membership test."
  | .compiled base n => s!"Compiled filter on `{base}` into {n} top-level predicate(s)"

/-- The diagnostic of a clause that is passed over. -/
def diagnostic? : Event → Option Diagnostic
  | .skipping d => some d
  | _ => none

end Event

end DocFilter
