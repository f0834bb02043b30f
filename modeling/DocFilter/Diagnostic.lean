import DocFilter.Json.Reading

/-!
# Diagnostics and errors

A clause that makes no sense gives a diagnostic, which says where it stands in the document and what
is wrong with it. A strict compilation turns the first diagnostic into an error. A reference to an
unknown relation is always an error.
-/

namespace DocFilter

/-- Why a filter cannot be compiled. -/
inductive FilterError where
  /-- A field refers to something that is neither the base table, nor a relation, nor a join table.
  -/
  | unknownRelation (relation field : String)
  | unrecognizedOperator (operator path : String)
  | malformed (path reason : String)
  /-- The text of the filter cannot be read. -/
  | json (p : Json.Problem)
  deriving DecidableEq

/-- The error in words. -/
def FilterError.message : FilterError → String
  | .unknownRelation relation field =>
    s!"Unknown relation `{relation}` referenced by field `{field}`"
  | .unrecognizedOperator operator path => s!"Unrecognized operator `{operator}` at `{path}`"
  | .malformed path reason => s!"Malformed filter at `{path}`: {reason}"
  | .json p => s!"Failed to parse filter JSON: {p.message}"

/-- What is wrong with a clause. -/
inductive Diagnostic.Cause where
  /-- A key with the marker is no operator that can stand there. -/
  | unrecognizedOperator (operator : String)
  | malformed (reason : String)
  deriving DecidableEq

/-- A clause that was passed over. -/
structure Diagnostic where
  /-- Where the clause stands in the document. -/
  path : String
  /-- What is wrong with it. -/
  cause : Diagnostic.Cause
  deriving DecidableEq

namespace Diagnostic

/-- The diagnostic in words. -/
def message (d : Diagnostic) : String :=
  match d.cause with
  | .unrecognizedOperator operator => s!"unrecognized operator `{operator}` at `{d.path}`"
  | .malformed reason => s!"malformed filter at `{d.path}`: {reason}"

/-- The error that a strict compilation ends with. -/
def toError (d : Diagnostic) : FilterError :=
  match d.cause with
  | .unrecognizedOperator operator => .unrecognizedOperator operator d.path
  | .malformed reason => .malformed d.path reason

/-- The diagnostic as an object. -/
def toJson (d : Diagnostic) : Json :=
  .obj (("path", .str d.path) ::
    match d.cause with
    | .unrecognizedOperator operator =>
      [("kind", .str "unrecognized_operator"), ("operator", .str operator)]
    | .malformed reason => [("kind", .str "malformed_filter"), ("reason", .str reason)])

end Diagnostic

end DocFilter
