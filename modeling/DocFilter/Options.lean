import DocFilter.Json.Reading

/-!
# Options

How a filter is compiled. Options are read from an object with any of the fields, or from an array
that gives them by position; what is missing has its default.
-/

namespace DocFilter

/-- How a filter is compiled. -/
structure Options where
  /-- Whether a clause that makes no sense is an error. -/
  strict : Bool := false
  /-- The character that operators start with. -/
  marker : Char := '$'
  /-- The key of the base table. -/
  baseKey : String := "id"
  deriving DecidableEq

namespace Options

/-- Options of which some fields were given. -/
structure Draft where
  /-- See `Options.strict`. -/
  strict : Option Bool := none
  /-- See `Options.marker`. -/
  marker : Option Char := none
  /-- See `Options.baseKey`. -/
  baseKey : Option String := none

namespace Draft

/-- The options, with defaults for what was not given. -/
def options (d : Draft) : Options :=
  let default : Options := {}
  ⟨d.strict.getD default.strict, d.marker.getD default.marker, d.baseKey.getD default.baseKey⟩

/-- Takes one more field. A field may be given once; an unknown one is passed over. -/
def add (d : Draft) (key : String) (t : Json.Tree) : Except Json.Problem Draft :=
  match key with
  | "strict" =>
    if d.strict.isSome then .error .mismatch else do return { d with strict := some (← t.bool?) }
  | "marker" =>
    if d.marker.isSome then .error .mismatch else do return { d with marker := some (← t.char?) }
  | "base_key" =>
    if d.baseKey.isSome then .error .mismatch
    else do return { d with baseKey := some (← t.string?) }
  | _ => do
    t.skip
    return d

end Draft

/-- Reads options that are given by position. A fourth item has no place there. -/
def readItems : List Json.Tree → Except Json.Problem Draft
  | [] => .ok {}
  | [strict] => do return { strict := some (← strict.bool?) }
  | [strict, marker] => do
    return { strict := some (← strict.bool?), marker := some (← marker.char?) }
  | strict :: marker :: baseKey :: rest => do
    let d : Draft :=
      { strict := some (← strict.bool?), marker := some (← marker.char?),
        baseKey := some (← baseKey.string?) }
    if rest.isEmpty then return d else .error .malformed

/-- Reads options. -/
def read : Json.Tree → Except Json.Problem Options
  | .object entries stop => do
    let d ← entries.foldlM (fun d (key, t) => do Draft.add d (← key.text) t) {}
    Json.noFault stop
    return d.options
  | .array items stop => do
    let d ← readItems items
    Json.noFault stop
    return d.options
  | t => .error t.mismatch

/-- The options that a text describes. -/
def ofText (text : String) : Except Json.Problem Options := Json.readText read text

end Options

end DocFilter
