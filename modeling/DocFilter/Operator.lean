/-!
# Operators

The words a filter is written with. A key of a document that starts with the marker is an operator:
`and` and `or` join clauses, the others compare a column with an operand. Every other key names a
field.
-/

namespace DocFilter

/-- What joins the clauses of a scope. -/
inductive Connective where
  | and
  | or
  deriving DecidableEq

namespace Connective

/-- The word for a connective, without the marker. -/
def token : Connective → String
  | .and => "and"
  | .or => "or"

/-- The connective that a word stands for. -/
def ofToken? : String → Option Connective
  | "and" => some .and
  | "or" => some .or
  | _ => none

end Connective

/-- How a column is compared with an operand. -/
inductive Comparator where
  | eq
  | ne
  | gt
  | ge
  | lt
  | le
  | isIn
  | notIn
  deriving DecidableEq

namespace Comparator

/-- The word for a comparator in a document, without the marker. -/
def token : Comparator → String
  | .eq => "eq"
  | .ne => "ne"
  | .gt => "gt"
  | .ge => "gte"
  | .lt => "lt"
  | .le => "lte"
  | .isIn => "in"
  | .notIn => "nin"

/-- The sign for a comparator in a predicate. -/
def symbol : Comparator → String
  | .eq => "="
  | .ne => "!="
  | .gt => ">"
  | .ge => ">="
  | .lt => "<"
  | .le => "<="
  | .isIn => "IN"
  | .notIn => "NOT IN"

/-- All comparators. -/
def all : List Comparator := [.eq, .ne, .gt, .ge, .lt, .le, .isIn, .notIn]

/-- The comparator that a word stands for. -/
def ofToken? (token : String) : Option Comparator := all.find? (·.token == token)

/-- Whether a comparator excludes rather than selects. -/
def isNegated : Comparator → Bool
  | .ne | .notIn => true
  | _ => false

/-- Whether a comparator takes a list. -/
def takesList : Comparator → Bool
  | .isIn | .notIn => true
  | _ => false

/-- Whether a comparator asks for an order. -/
def isOrdering : Comparator → Bool
  | .gt | .ge | .lt | .le => true
  | _ => false

end Comparator

/-- What a key of a document stands for. -/
inductive Key where
  | logical (c : Connective)
  | comparison (op : Comparator)
  /-- A key with the marker that is no operator, kept whole. -/
  | unknown (key : String)
  | field (name : String)
  deriving DecidableEq

namespace Key

/-- What follows the marker at the start of a key. -/
def afterMarker? (marker : Char) (key : String) : Option String :=
  match key.toList with
  | c :: cs => if c = marker then some (String.ofList cs) else none
  | [] => none

/-- Whether a key starts with the marker. -/
def isMarked (marker : Char) (key : String) : Bool := (afterMarker? marker key).isSome

/-- Tells what a key stands for. -/
def classify (marker : Char) (key : String) : Key :=
  match afterMarker? marker key with
  | none => .field key
  | some token =>
    match Connective.ofToken? token with
    | some c => .logical c
    | none =>
      match Comparator.ofToken? token with
      | some op => .comparison op
      | none => .unknown key

end Key

end DocFilter
