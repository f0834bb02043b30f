import DocFilter.Operator
import DocFilter.Value

/-!
# Operands

What a column is compared with. A comparator that takes a list also takes a single value, as a list
of one. Null is no value that a column could equal: null itself asks whether the column is null, and
null in a list is set apart from the other items.
-/

namespace DocFilter

/-- The operand of a comparator. -/
structure Operand where
  /-- Null, a list without null for a comparator that takes one, or a single value. -/
  value : Value
  /-- Whether null was in the list. -/
  listsNull : Bool
  deriving DecidableEq

/-- Reads the operand of a comparator, or tells why it is none. -/
def Operand.read (op : Comparator) (j : Json) : Except String Operand :=
  match Value.ofJson j with
  | .error e => .error e.message
  | .ok .null =>
    if op.isOrdering then .error s!"`{op.token}` cannot compare against null"
    else .ok ⟨.null, false⟩
  | .ok v =>
    if op.takesList then .ok ⟨.list (v.toList.filter (!·.isNull)), v.toList.any (·.isNull)⟩
    else if v.isList then .error s!"`{op.token}` takes a single value, found a list"
    else .ok ⟨v, false⟩

end DocFilter
