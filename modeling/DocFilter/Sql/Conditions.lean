import DocFilter.Operator
import DocFilter.Sql.Expr

/-!
# Condition lists

Conditions in the order in which they were added, each with the connective that joins it to those
before it. They are joined from the left, without precedence; the connective of the first condition
has nothing to join.
-/

namespace DocFilter.Sql

/-- The operation that a connective stands for. -/
def connectiveOp : Connective → BinaryOp
  | .and => .and
  | .or => .or

/-- A list of conditions. -/
structure Conditions where
  /-- The conditions with their connectives. -/
  parts : List (Connective × Expr) := []

namespace Conditions

/-- Whether there is no condition. -/
def isEmpty (c : Conditions) : Bool := c.parts.isEmpty

/-- Adds a condition at the end. -/
def push (c : Conditions) (connective : Connective) (e : Expr) : Conditions :=
  ⟨c.parts ++ [(connective, e)]⟩

/-- The conditions as one expression, if there are any. -/
def build? (c : Conditions) : Option Expr :=
  match c.parts with
  | [] => none
  | (_, first) :: rest =>
    some (rest.foldl (fun acc (connective, e) => .binary acc (connectiveOp connective) e) first)

/-- Adds other conditions in parentheses, if there are any. -/
def pushGroup (c : Conditions) (connective : Connective) (group : Conditions) : Conditions :=
  match group.build? with
  | none => c
  | some e => c.push connective (.nested e)

end Conditions

end DocFilter.Sql
