import DocFilter.Sql.Dialect
import DocFilter.Value

/-!
# Written SQL

A piece of SQL is written as a list of fragments, which is the same in every dialect: fixed text,
names and parameters. A dialect turns fragments into text (`Fragment.text`), with the names in its
quotes and a mark for each parameter in turn; the parameters themselves go beside the text
(`Fragment.params`).
-/

namespace DocFilter.Sql

/-- A fragment of written SQL. -/
inductive Fragment where
  /-- Fixed text: keywords, punctuation, constants. -/
  | raw (text : String)
  /-- The name of a table or a column. -/
  | name (name : String)
  /-- A parameter. -/
  | param (v : Value)

namespace Fragment

/-- The parameters among fragments, in order. -/
def params : List Fragment → List Value
  | [] => []
  | .param v :: fs => v :: params fs
  | .raw _ :: fs => params fs
  | .name _ :: fs => params fs

/-- The text of fragments after `index` parameters. -/
def textFrom (d : Dialect) (index : Nat) : List Fragment → String
  | [] => ""
  | .raw s :: fs => s ++ textFrom d index fs
  | .name n :: fs => d.quoteName n ++ textFrom d index fs
  | .param _ :: fs => d.placeholder index ++ textFrom d (index + 1) fs

/-- The text of fragments. -/
def text (d : Dialect) (fs : List Fragment) : String := textFrom d 0 fs

/-- Lists of fragments with a fixed text between them. -/
def separated (separator : String) : List (List Fragment) → List Fragment
  | [] => []
  | [fs] => fs
  | fs :: rest => fs ++ .raw separator :: separated separator rest

end Fragment

/-- A statement with its parameters. -/
structure Statement where
  /-- The text, with a mark for each parameter. -/
  sql : String
  /-- The parameters, in the order of their marks. -/
  params : List Value

/-- The statement that fragments make up in a dialect. -/
def Statement.ofFragments (d : Dialect) (fs : List Fragment) : Statement :=
  ⟨Fragment.text d fs, Fragment.params fs⟩

end DocFilter.Sql
