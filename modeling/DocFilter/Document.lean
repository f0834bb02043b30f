import DocFilter.Diagnostic

/-!
# Filter documents

A filter is a JSON object: its entries are fields with their conditions, and operators that join
further entries.
-/

namespace DocFilter

/-- A filter document. -/
structure Document where
  /-- The entries, in order. -/
  entries : List (String × Json) := []

namespace Document

/-- The document that a JSON value is. -/
def ofJson : Json → Except FilterError Document
  | .obj entries => .ok ⟨entries⟩
  | j => .error (.malformed "(root)" s!"a filter must be an object, found {j.kind}")

/-- The document that a text holds. Whatever else it holds is read to its end before it is refused.
-/
def ofText (text : String) : Except FilterError Document :=
  match Json.parse text with
  | .error p => .error (.json p)
  | .ok j => ofJson j

/-- Reads a document where nothing else can stand: an array is refused at its opening bracket. -/
def read : Json.Tree → Except Json.Problem Document
  | .object entries stop => do
    match ← (Json.Tree.object entries stop).json 0 with
    | .obj entries => return ⟨entries⟩
    | _ => .error .mismatch
  | t => .error t.mismatch

/-- The document as JSON. -/
def toJson (d : Document) : Json := .obj d.entries

end Document

end DocFilter
