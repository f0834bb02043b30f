import DocFilter.Json.Token

/-!
# JSON syntax trees

A `Json.Tree` is what a text says, as far as it can be read. Reading never fails: where the text
stops being JSON the tree has a `broken` value, a string with a `stop`, or a container with a
`stop`. Whoever interprets the tree visits it in the order of the text, and so meets a problem of
its own before or after the fault, just as the two follow one another in the text.
-/

namespace DocFilter.Json

/-- A JSON value as it is written, as far as it can be read. -/
inductive Tree where
  | null
  | bool (b : Bool)
  | number (literal : Literal)
  | string (text : Quoted)
  /-- An array; `stop` says why a comma or the closing bracket was not found after the last item. -/
  | array (items : List Tree) (stop : Option Fault)
  /-- An object; `stop` says why a comma, a key or the closing brace was not found after the last
  entry. -/
  | object (entries : List (Quoted × Tree)) (stop : Option Fault)
  /-- No value can be read here. -/
  | broken (f : Fault)

namespace Tree

/-- The values between the brackets of an array or the entries of an object, with the tokens after
the closing bracket when it was reached. -/
structure Sequence (α : Type) where
  /-- What was read. -/
  members : List α
  /-- Why the sequence stops between two members. -/
  stop : Option Fault
  /-- The tokens after the closing bracket. -/
  rest : Option (List Token)

/-- Puts a member in front of a sequence. -/
def Sequence.cons {α : Type} (a : α) (s : Sequence α) : Sequence α :=
  { s with members := a :: s.members }

/-- A sequence whose last member is `a`, followed by tokens that do not go on with it. -/
def Sequence.last {α : Type} (a : α) : List Token → Sequence α
  | [] => ⟨[a], some .ended, none⟩
  | _ => ⟨[a], some .malformed, none⟩

mutual

/-- Reads one value, and gives the tokens after it unless the text is broken inside it. Every call
takes one from the first argument, which is enough when it is twice the number of tokens. -/
def value : Nat → List Token → Tree × Option (List Token)
  | 0, _ => (.broken .malformed, none)
  | n + 1, tokens =>
    match tokens with
    | [] => (.broken .ended, none)
    | .null :: rest => (.null, some rest)
    | .bool b :: rest => (.bool b, some rest)
    | .number l :: rest => (.number l, some rest)
    | .string ⟨pieces, none⟩ :: rest => (.string ⟨pieces, none⟩, some rest)
    | .string q :: _ => (.string q, none)
    | .openArray :: .closeArray :: rest => (.array [] none, some rest)
    | .openArray :: rest =>
      let s := items n rest
      (.array s.members s.stop, s.rest)
    | .openObject :: .closeObject :: rest => (.object [] none, some rest)
    | .openObject :: rest =>
      let s := entries n rest
      (.object s.members s.stop, s.rest)
    | .fault f :: _ => (.broken f, none)
    | _ :: _ => (.broken .malformed, none)

/-- Reads the items of an array, where one has to come. -/
def items : Nat → List Token → Sequence Tree
  | 0, _ => ⟨[], some .malformed, none⟩
  | n + 1, tokens =>
    match value n tokens with
    | (t, none) => ⟨[t], none, none⟩
    | (t, some (.comma :: rest)) => (items n rest).cons t
    | (t, some (.closeArray :: rest)) => ⟨[t], none, some rest⟩
    | (t, some rest) => .last t rest

/-- Reads the entries of an object, where one has to come. -/
def entries : Nat → List Token → Sequence (Quoted × Tree)
  | 0, _ => ⟨[], some .malformed, none⟩
  | n + 1, tokens =>
    match tokens with
    | [] => ⟨[], some .ended, none⟩
    | .string ⟨pieces, some f⟩ :: _ => ⟨[(⟨pieces, some f⟩, .broken f)], none, none⟩
    | .string key :: .colon :: rest =>
      match value n rest with
      | (t, none) => ⟨[(key, t)], none, none⟩
      | (t, some (.comma :: rest)) => (entries n rest).cons (key, t)
      | (t, some (.closeObject :: rest)) => ⟨[(key, t)], none, some rest⟩
      | (t, some rest) => .last (key, t) rest
    | [.string key] => ⟨[(key, .broken .ended)], none, none⟩
    | .string key :: _ => ⟨[(key, .broken .malformed)], none, none⟩
    | _ :: _ => ⟨[], some .malformed, none⟩

end

end Tree

/-- A text that should hold one JSON value. -/
structure Source where
  /-- The value. -/
  tree : Tree
  /-- Whether anything but blanks follows the value. -/
  trailing : Bool

/-- Reads a text. -/
def Source.ofString (text : String) : Source :=
  let tokens := Token.scan text.toList
  match Tree.value (2 * tokens.length + 1) tokens with
  | (tree, some (_ :: _)) => ⟨tree, true⟩
  | (tree, _) => ⟨tree, false⟩

end DocFilter.Json
