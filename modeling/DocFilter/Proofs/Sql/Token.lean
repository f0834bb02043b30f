import DocFilter.Sql.Dialect
import DocFilter.Value
import Mathlib.Data.List.Basic

/-!
# Tokens of written SQL

Written SQL is read character by character (`Sql.scan`). A name stands between the quotes of the
dialect and runs to the next quote that is not doubled; letters, digits and the signs of comparisons
make up one token as long as they follow one another; a placeholder is the mark of the dialect. All
else is a sign by itself or a blank, or it is nothing that SQL is written with, and then the scan
fails.
-/

namespace DocFilter.Sql

/-! ## Symbols -/

/-- A keyword, a sign or a constant: what written SQL has besides names and parameters. -/
inductive Symbol where
  | select
  | fromTable
  | asName
  | inner
  | left
  | join
  | on
  | whereRows
  | and
  | or
  | isIn
  | not
  | is
  | null
  | opening
  | closing
  | comma
  | point
  | star
  | eq
  | ne
  | lt
  | le
  | gt
  | ge
  | zero
  | one
  deriving DecidableEq

namespace Symbol

/-- A symbol as it is written. -/
def text : Symbol → String
  | .select => "SELECT"
  | .fromTable => "FROM"
  | .asName => "AS"
  | .inner => "INNER"
  | .left => "LEFT"
  | .join => "JOIN"
  | .on => "ON"
  | .whereRows => "WHERE"
  | .and => "AND"
  | .or => "OR"
  | .isIn => "IN"
  | .not => "NOT"
  | .is => "IS"
  | .null => "NULL"
  | .opening => "("
  | .closing => ")"
  | .comma => ","
  | .point => "."
  | .star => "*"
  | .eq => "="
  | .ne => "<>"
  | .lt => "<"
  | .le => "<="
  | .gt => ">"
  | .ge => ">="
  | .zero => "0"
  | .one => "1"

/-- All symbols. -/
def all : List Symbol :=
  [.select, .fromTable, .asName, .inner, .left, .join, .on, .whereRows, .and, .or, .isIn, .not, .is,
    .null, .opening, .closing, .comma, .point, .star, .eq, .ne, .lt, .le, .gt, .ge, .zero, .one]

/-- The symbol that a text is. -/
def ofText? (text : String) : Option Symbol := all.find? (·.text == text)

end Symbol

/-! ## Tokens -/

/-- A token of written SQL. -/
inductive Token (μ : Type) where
  /-- The name of a table or a column. -/
  | name (name : String)
  | symbol (s : Symbol)
  /-- The place of a parameter. -/
  | mark (m : μ)
  deriving DecidableEq

namespace Token

variable {μ : Type}

/-- What stands at the places of parameters, in order. -/
def marks (ts : List (Token μ)) : List μ :=
  ts.filterMap fun
    | .mark m => some m
    | _ => none

/-- The names among tokens, in order. -/
def names (ts : List (Token μ)) : List String :=
  ts.filterMap fun
    | .name n => some n
    | _ => none

/-- Symbols as tokens. -/
def symbols (ss : List Symbol) : List (Token μ) := ss.map .symbol

/-- Tokens with the placeholders of a dialect, after `index` parameters. -/
def number (d : Dialect) (index : Nat) : List (Token μ) → List (Token String)
  | [] => []
  | .name n :: ts => .name n :: number d index ts
  | .symbol s :: ts => .symbol s :: number d index ts
  | .mark _ :: ts => .mark (d.placeholder index) :: number d (index + 1) ts

/-- Puts parameters in the places of placeholders, if there are as many of the one as of the other.
-/
def fill? : List (Token String) → List μ → Option (List (Token μ))
  | [], [] => some []
  | [], _ :: _ => none
  | .name n :: ts, vs => (fill? ts vs).map (.name n :: ·)
  | .symbol s :: ts, vs => (fill? ts vs).map (.symbol s :: ·)
  | .mark _ :: _, [] => none
  | .mark _ :: ts, v :: vs => (fill? ts vs).map (.mark v :: ·)

theorem marks_append (ts us : List (Token μ)) : marks (ts ++ us) = marks ts ++ marks us :=
  List.filterMap_append

@[simp] theorem marks_symbols (ss : List Symbol) : marks (symbols ss : List (Token μ)) = [] := by
  simp [marks, symbols, List.filterMap_map]

@[simp] theorem number_symbols (d : Dialect) (index : Nat) (ss : List Symbol) :
    number d index (symbols ss : List (Token μ)) = symbols ss := by
  induction ss with
  | nil => rfl
  | cons s ss ih => exact congrArg _ ih

theorem number_append (d : Dialect) (index : Nat) (ts us : List (Token μ)) :
    number d index (ts ++ us) =
      number d index ts ++ number d (index + (marks ts).length) us := by
  induction ts generalizing index with
  | nil => rfl
  | cons t ts ih =>
    cases t with
    | name | symbol => exact congrArg _ (ih index)
    | mark m =>
      have hlength : index + (marks (.mark m :: ts)).length = index + 1 + (marks ts).length := by
        simp [marks]
        omega
      rw [List.cons_append, number, number, ih, hlength]
      rfl

/-- The parameters of tokens fit their placeholders. -/
theorem fill?_number (d : Dialect) (index : Nat) (ts : List (Token μ)) :
    fill? (number d index ts) (marks ts) = some ts := by
  induction ts generalizing index with
  | nil => rfl
  | cons t ts ih =>
    cases t with
    | name n =>
      have h := ih index
      simp_all [number, marks, fill?]
    | symbol s =>
      have h := ih index
      simp_all [number, marks, fill?]
    | mark m =>
      have h := ih (index + 1)
      simp_all [number, marks, fill?]

@[simp] theorem names_number (d : Dialect) (index : Nat) (ts : List (Token μ)) :
    names (number d index ts) = names ts := by
  induction ts generalizing index with
  | nil => rfl
  | cons t ts ih => cases t <;> simp_all [number, names]

/-- Placeholders are numbered from left to right. -/
theorem marks_number (d : Dialect) (index : Nat) (ts : List (Token μ)) :
    marks (number d index ts) =
      (List.range' index (marks ts).length).map d.placeholder := by
  induction ts generalizing index with
  | nil => rfl
  | cons t ts ih => cases t <;> simp_all [number, marks, List.range'_succ]

end Token

/-! ## Scanning -/

/-- Characters of one kind, which make up a token together. -/
inductive Run where
  | letters
  | digits
  | signs
  /-- A placeholder. -/
  | mark

/-- Where a scan is. -/
inductive ScanState where
  /-- Between two tokens. -/
  | between
  /-- In a token of which some characters were read. -/
  | within (run : Run) (read : List Char)
  /-- In a name of which some characters were read. -/
  | inName (read : List Char)
  /-- After a quote in a name: the name ends there, unless another quote follows. -/
  | atQuote (read : List Char)

/-- The sign that a placeholder starts with. -/
def Dialect.markSign : Dialect → Char
  | .postgres => '$'
  | .mysql => '?'
  | .sqlite => '?'

/-- Whether a character goes on with a token. A numbered placeholder goes on with digits. -/
def Run.takes (d : Dialect) : Run → Char → Bool
  | .letters, c => c.isAlpha
  | .digits, c => c.isDigit
  | .signs, c => c = '<' || c = '=' || c = '>'
  | .mark, c => decide (d = .postgres) && c.isDigit

/-- The token that characters of one kind make up. -/
def Run.token? (read : List Char) : Run → Option (Token String)
  | .mark => some (.mark (String.ofList read))
  | _ => (Symbol.ofText? (String.ofList read)).map .symbol

namespace ScanState

/-- Goes on with the token that the scan is in, if the character belongs to it. -/
def extend? (d : Dialect) (c : Char) : ScanState → Option ScanState
  | .between => none
  | .within run read => if run.takes d c then some (.within run (read ++ [c])) else none
  | .inName read => some (if c = d.quote then .atQuote read else .inName (read ++ [c]))
  | .atQuote read => if c = d.quote then some (.inName (read ++ [c])) else none

/-- Ends the token that the scan is in. A name does not end without a quote. -/
def close? : ScanState → Option (List (Token String))
  | .between => some []
  | .within run read => (run.token? read).map fun t => [t]
  | .inName _ => none
  | .atQuote read => some [.name (String.ofList read)]

/-- Begins a token with a character. Signs that make up a token by themselves end it, too. -/
def begin? (d : Dialect) (c : Char) : Option (List (Token String) × ScanState) :=
  if c = ' ' then some ([], .between)
  else if c = d.quote then some ([], .inName [])
  else if c = d.markSign then some ([], .within .mark [c])
  else if c.isAlpha then some ([], .within .letters [c])
  else if c.isDigit then some ([], .within .digits [c])
  else if c = '<' || c = '=' || c = '>' then some ([], .within .signs [c])
  else (Symbol.ofText? (String.singleton c)).map fun s => ([.symbol s], .between)

end ScanState

open ScanState in
/-- The tokens from a state on. -/
def scanFrom (d : Dialect) : ScanState → List Char → Option (List (Token String))
  | s, [] => s.close?
  | s, c :: cs =>
    match s.extend? d c with
    | some s' => scanFrom d s' cs
    | none =>
      s.close?.bind fun ts => (begin? d c).bind fun (us, s') =>
        (scanFrom d s' cs).map fun rest => ts ++ us ++ rest

/-- The tokens of a text, if it is nothing but tokens and blanks. -/
def scan (d : Dialect) (text : String) : Option (List (Token String)) :=
  scanFrom d .between text.toList

/-- The state at the end of a text. -/
def stateAfter (d : Dialect) : ScanState → List Char → Option ScanState
  | s, [] => some s
  | s, c :: cs =>
    match s.extend? d c with
    | some s' => stateAfter d s' cs
    | none => s.close?.bind fun _ => (ScanState.begin? d c).bind fun (_, s') => stateAfter d s' cs

variable {d : Dialect}

/-- A character that does not go on with a token ends it. -/
theorem scanFrom_eq_of_not_extend {s : ScanState} {cs : List Char}
    (h : ∀ c ∈ cs.head?, s.extend? d c = none) :
    scanFrom d s cs = s.close?.bind fun ts => (scanFrom d .between cs).map (ts ++ ·) := by
  cases cs with
  | nil => simp [scanFrom, ScanState.close?]
  | cons c cs =>
    rw [scanFrom, h c rfl, scanFrom]
    cases s.close? with
    | none => rfl
    | some ts =>
      cases ScanState.begin? d c <;>
        simp [ScanState.extend?, ScanState.close?, Function.comp_def]

theorem scanFrom_append {s : ScanState} {xs ys : List Char}
    (h : ∀ s', stateAfter d s xs = some s' → ∀ c ∈ ys.head?, s'.extend? d c = none) :
    scanFrom d s (xs ++ ys) =
      (scanFrom d s xs).bind fun ts => (scanFrom d .between ys).map (ts ++ ·) := by
  induction xs generalizing s with
  | nil => exact scanFrom_eq_of_not_extend (h s rfl)
  | cons c xs ih =>
    rw [List.cons_append, scanFrom, scanFrom]
    cases he : s.extend? d c with
    | some s' => exact ih fun s'' hs => h s'' (by rw [stateAfter, he]; exact hs)
    | none =>
      cases hc : s.close? with
      | none => rfl
      | some ts =>
        cases hb : ScanState.begin? d c with
        | none => rfl
        | some p =>
          obtain ⟨us, s'⟩ := p
          have hx := ih (s := s') fun s'' hs => h s'' (by simp [stateAfter, he, hc, hb, hs])
          simp only [Option.bind_some, hx]
          cases scanFrom d s' xs <;> simp [Function.comp_def]

/-! ## Names and placeholders -/

theorem scanFrom_within {run : Run} {cs : List Char} (h : ∀ c ∈ cs, run.takes d c = true)
    (read : List Char) :
    scanFrom d (.within run read) cs = (run.token? (read ++ cs)).map (fun t => [t]) ∧
      stateAfter d (.within run read) cs = some (.within run (read ++ cs)) := by
  induction cs generalizing read with
  | nil => simp [scanFrom, stateAfter, ScanState.close?]
  | cons c cs ih =>
    obtain ⟨hc, hcs⟩ := List.forall_mem_cons.mp h
    have hextend : (ScanState.within run read).extend? d c = some (.within run (read ++ [c])) := by
      simp [ScanState.extend?, hc]
    rw [scanFrom, stateAfter, hextend]
    simpa using ih hcs (read ++ [c])

theorem scanFrom_inName (cs read : List Char) :
    scanFrom d (.inName read) (Quote.double d.quote cs ++ [d.quote]) =
        some [.name (String.ofList (read ++ cs))] ∧
      stateAfter d (.inName read) (Quote.double d.quote cs ++ [d.quote]) =
        some (.atQuote (read ++ cs)) := by
  induction cs generalizing read with
  | nil => simp [Quote.double, scanFrom, stateAfter, ScanState.extend?, ScanState.close?]
  | cons c cs ih =>
    have hread := ih (read ++ [c])
    rw [List.append_assoc, List.singleton_append] at hread
    by_cases hc : c = d.quote
    · subst hc
      simpa [Quote.double, scanFrom, stateAfter, ScanState.extend?] using hread
    · simpa [Quote.double, scanFrom, stateAfter, ScanState.extend?, hc] using hread

/-- A quoted name is one token, unless a quote follows it. -/
theorem scanFrom_quoteName (n : String) {rest : List Char} (h : ∀ c ∈ rest.head?, c ≠ d.quote) :
    scanFrom d .between ((d.quoteName n).toList ++ rest) =
      (scanFrom d .between rest).map (.name n :: ·) := by
  have hquote : ScanState.begin? d d.quote = some ([], .inName []) := by cases d <;> rfl
  obtain ⟨hscan, hstate⟩ := scanFrom_inName (d := d) n.toList []
  have htext : (d.quoteName n).toList = d.quote :: (Quote.double d.quote n.toList ++ [d.quote]) :=
    String.toList_ofList
  have hbegin : scanFrom d .between (d.quoteName n).toList = some [.name n] ∧
      stateAfter d .between (d.quoteName n).toList = some (.atQuote n.toList) := by
    simp [htext, scanFrom, stateAfter, ScanState.extend?, ScanState.close?, hquote, hscan, hstate]
  have hjoin : ∀ s, stateAfter d .between (d.quoteName n).toList = some s →
      ∀ c ∈ rest.head?, s.extend? d c = none := by
    rw [hbegin.2]
    rintro _ ⟨⟩ c hc
    simp [ScanState.extend?, h c hc]
  rw [scanFrom_append hjoin, hbegin.1]
  rfl

/-- A placeholder is one token, unless a digit follows it. -/
theorem scanFrom_placeholder (i : Nat) {rest : List Char}
    (h : ∀ c ∈ rest.head?, c.isDigit = false) :
    scanFrom d .between ((d.placeholder i).toList ++ rest) =
      (scanFrom d .between rest).map (.mark (d.placeholder i) :: ·) := by
  have hmark : ScanState.begin? d d.markSign = some ([], .within .mark [d.markSign]) := by
    cases d <;> rfl
  obtain ⟨digits, htext, hdigits⟩ : ∃ digits, (d.placeholder i).toList = d.markSign :: digits ∧
      ∀ c ∈ digits, Run.mark.takes d c = true := by
    cases d with
    | postgres =>
      refine ⟨(toString (i + 1)).toList, by simp [Dialect.placeholder, Dialect.markSign], ?_⟩
      intro c hc
      have hdigit : c ∈ Nat.toDigits 10 (i + 1) := by simpa [Nat.toList_repr] using hc
      simpa [Run.takes] using Nat.isDigit_of_mem_toDigits (by omega) (by omega) hdigit
    | mysql | sqlite => exact ⟨[], by simp [Dialect.placeholder, Dialect.markSign], by simp⟩
  obtain ⟨hscan, hstate⟩ := scanFrom_within hdigits [d.markSign]
  have htoken : Run.mark.token? (d.markSign :: digits) = some (.mark (d.placeholder i)) := by
    rw [← htext, Run.token?, String.ofList_toList]
  have hbegin : scanFrom d .between (d.placeholder i).toList = some [.mark (d.placeholder i)] ∧
      stateAfter d .between (d.placeholder i).toList =
        some (.within .mark (d.placeholder i).toList) := by
    rw [List.singleton_append] at hscan hstate
    simp [htext, scanFrom, stateAfter, ScanState.extend?, ScanState.close?, hmark, hscan, hstate,
      htoken]
  have hjoin : ∀ s, stateAfter d .between (d.placeholder i).toList = some s →
      ∀ c ∈ rest.head?, s.extend? d c = none := by
    rw [hbegin.2]
    rintro _ ⟨⟩ c hc
    simp [ScanState.extend?, Run.takes, h c hc]
  rw [scanFrom_append hjoin, hbegin.1]
  rfl

end DocFilter.Sql
