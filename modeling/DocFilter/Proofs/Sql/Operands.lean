import DocFilter.Proofs.Sql.Scanning

/-!
# Names and operands in written SQL

The only parts of a statement that are not fixed are the names and the operands of the expression or
the query that it is written from. A name can only be read back as that name, and an operand is only
in the parameters: the text has a placeholder for it, so that it is the same for all operands.
-/

namespace DocFilter.Sql

open Token

/-! ## Names and operands from left to right -/

namespace Token

variable {μ : Type}

/-- The names and parameters among tokens, in order. -/
def leaves (ts : List (Token μ)) : List (Token μ) :=
  ts.filter fun
    | .symbol _ => false
    | _ => true

@[simp] theorem leaves_nil : leaves ([] : List (Token μ)) = [] := rfl

@[simp] theorem leaves_append (ts us : List (Token μ)) :
    leaves (ts ++ us) = leaves ts ++ leaves us :=
  List.filter_append ..

@[simp] theorem leaves_name_cons (n : String) (ts : List (Token μ)) :
    leaves (.name n :: ts) = .name n :: leaves ts := rfl

@[simp] theorem leaves_mark_cons (m : μ) (ts : List (Token μ)) :
    leaves (.mark m :: ts) = .mark m :: leaves ts := rfl

@[simp] theorem leaves_symbol_cons (s : Symbol) (ts : List (Token μ)) :
    leaves (.symbol s :: ts) = leaves ts := rfl

@[simp] theorem leaves_symbols (ss : List Symbol) : leaves (symbols ss : List (Token μ)) = [] := by
  induction ss with
  | nil => rfl
  | cons s ss ih => exact ih

@[simp] theorem leaves_separated (tss : List (List (Token μ))) :
    leaves (Token.separated tss) = tss.flatMap leaves := by
  induction tss with
  | nil => rfl
  | cons ts tss ih =>
    cases tss with
    | nil => simp [Token.separated]
    | cons us tss => simpa [Token.separated] using ih

theorem names_leaves (ts : List (Token μ)) : names (leaves ts) = names ts := by
  induction ts with
  | nil => rfl
  | cons t ts ih => cases t <;> simpa [names] using ih

end Token

/-- The operands of a value: a list has its items, any other value itself. -/
def valueLeaves : Value → List (Token Value)
  | .list items => items.map .mark
  | v => [.mark v]

/-- A name that may be missing. -/
def optionalName (n : Option String) : List (Token Value) := n.toList.map .name

mutual

/-- The names and operands of an expression, from left to right. What is tested for membership in an
empty list is not written and left out. -/
def Expr.leaves : Expr → List (Token Value)
  | .column q n => optionalName q ++ [.name n]
  | .value v => valueLeaves v
  | .binary l _ r => l.leaves ++ r.leaves
  | .wildcard q => optionalName q
  | .inList _ [] _ => []
  | .inList e (x :: xs) _ => e.leaves ++ (x.leaves ++ exprsLeaves xs)
  | .inSubquery e q _ => e.leaves ++ q.leaves
  | .isNull e _ => e.leaves
  | .nested e => e.leaves

/-- The names and operands of several expressions. -/
def exprsLeaves : List Expr → List (Token Value)
  | [] => []
  | e :: es => e.leaves ++ exprsLeaves es

/-- The names and operands of a joined table. -/
def Join.leaves : Join → List (Token Value)
  | ⟨_, table, asName, condition⟩ => .name table :: optionalName asName ++ condition.leaves

/-- The names and operands of joined tables. -/
def joinsLeaves : List Join → List (Token Value)
  | [] => []
  | j :: js => j.leaves ++ joinsLeaves js

/-- The names and operands of a `WHERE` clause. -/
def conditionLeaves : Option Expr → List (Token Value)
  | none => []
  | some e => e.leaves

/-- The names and operands of a query, from left to right. -/
def Select.leaves : Select → List (Token Value)
  | ⟨columns, source, joins, condition⟩ =>
    exprsLeaves columns ++ source.elim [] (fun f => .name f.table :: optionalName f.asName)
      ++ joinsLeaves joins ++ conditionLeaves condition

end

theorem leaves_qualifierTokens (q : Option String) :
    Token.leaves (qualifierTokens q) = optionalName q := by
  cases q <;> rfl

theorem leaves_aliasTokens (a : Option String) :
    Token.leaves (aliasTokens a) = optionalName a := by
  cases a <;> rfl

theorem leaves_sourceTokens (f : Option From) :
    Token.leaves (sourceTokens f) =
      f.elim [] (fun f => .name f.table :: optionalName f.asName) := by
  cases f with
  | none => rfl
  | some f => simp [sourceTokens, leaves_aliasTokens]

theorem leaves_valueTokens (v : Value) : Token.leaves (valueTokens v) = valueLeaves v := by
  cases v with
  | list items =>
    have hitems : (items.map fun v => [Token.mark v]).flatMap Token.leaves = items.map .mark := by
      rw [List.flatMap_map, List.map_eq_flatMap]
      rfl
    simp [valueTokens, valueLeaves, hitems]
  | _ => rfl

mutual

theorem Expr.leaves_tokens : (e : Expr) → Token.leaves e.tokens = e.leaves
  | .column q n => by simp [Expr.tokens, Expr.leaves, leaves_qualifierTokens]
  | .value v => by rw [Expr.tokens, Expr.leaves, leaves_valueTokens]
  | .binary l op r => by
    simp [Expr.tokens, Expr.leaves, l.leaves_tokens, r.leaves_tokens]
  | .wildcard q => by simp [Expr.tokens, Expr.leaves, leaves_qualifierTokens]
  | .inList _ [] negated => by simp [Expr.tokens, Expr.leaves]
  | .inList e (x :: xs) negated => by
    simp [Expr.tokens, Expr.leaves, e.leaves_tokens, x.leaves_tokens, leaves_exprsTokens xs]
  | .inSubquery e q negated => by
    simp [Expr.tokens, Expr.leaves, e.leaves_tokens, q.leaves_tokens]
  | .isNull e negated => by simp [Expr.tokens, Expr.leaves, e.leaves_tokens]
  | .nested e => by
    rw [Expr.tokens, Expr.leaves]
    cases e.isBinary <;> simp [e.leaves_tokens]

theorem leaves_exprsTokens : (es : List Expr) →
    (exprsTokens es).flatMap Token.leaves = exprsLeaves es
  | [] => by rw [exprsTokens, exprsLeaves, List.flatMap_nil]
  | e :: es => by
    rw [exprsTokens, exprsLeaves, List.flatMap_cons, e.leaves_tokens, leaves_exprsTokens es]

theorem Join.leaves_tokens : (j : Join) → Token.leaves j.tokens = j.leaves
  | ⟨kind, table, asName, condition⟩ => by
    simp [Join.tokens, Join.leaves, leaves_aliasTokens, condition.leaves_tokens]

theorem leaves_joinsTokens : (js : List Join) → Token.leaves (joinsTokens js) = joinsLeaves js
  | [] => by rw [joinsTokens, joinsLeaves, leaves_nil]
  | j :: js => by
    rw [joinsTokens, joinsLeaves, leaves_append, j.leaves_tokens, leaves_joinsTokens js]

theorem leaves_conditionTokens :
    (c : Option Expr) → Token.leaves (conditionTokens c) = conditionLeaves c
  | none => by rw [conditionTokens, conditionLeaves, leaves_nil]
  | some e => by rw [conditionTokens, conditionLeaves, leaves_symbol_cons, e.leaves_tokens]

theorem Select.leaves_tokens : (q : Select) → Token.leaves q.tokens = q.leaves
  | ⟨columns, source, joins, condition⟩ => by
    simp [Select.tokens, Select.leaves, leaves_exprsTokens columns, leaves_sourceTokens,
      leaves_joinsTokens joins, leaves_conditionTokens condition]

end

/-! ## Text without operands -/

/-- Forgets an operand, and keeps how many items a list has. -/
def blankValue : Value → Value
  | .list items => .list (items.map fun _ => .null)
  | _ => .null

mutual

/-- Forgets the operands of an expression. -/
def Expr.blank : Expr → Expr
  | .column q n => .column q n
  | .value v => .value (blankValue v)
  | .binary l op r => .binary l.blank op r.blank
  | .wildcard q => .wildcard q
  | .inList e items negated => .inList e.blank (exprsBlank items) negated
  | .inSubquery e q negated => .inSubquery e.blank q.blank negated
  | .isNull e negated => .isNull e.blank negated
  | .nested e => .nested e.blank

/-- Forgets the operands of several expressions. -/
def exprsBlank : List Expr → List Expr
  | [] => []
  | e :: es => e.blank :: exprsBlank es

/-- Forgets the operands of a joined table. -/
def Join.blank : Join → Join
  | ⟨kind, table, asName, condition⟩ => ⟨kind, table, asName, condition.blank⟩

/-- Forgets the operands of joined tables. -/
def joinsBlank : List Join → List Join
  | [] => []
  | j :: js => j.blank :: joinsBlank js

/-- Forgets the operands of a condition. -/
def conditionBlank : Option Expr → Option Expr
  | none => none
  | some e => some e.blank

/-- Forgets the operands of a query. -/
def Select.blank : Select → Select
  | ⟨columns, source, joins, condition⟩ =>
    ⟨exprsBlank columns, source, joinsBlank joins, conditionBlank condition⟩

end

namespace Fragment

/-- Forgets a parameter. -/
def blank : Fragment → Fragment
  | .raw s => .raw s
  | .name n => .name n
  | .param _ => .param .null

theorem textFrom_map_blank (d : Dialect) (i : Nat) (fs : List Fragment) :
    textFrom d i (fs.map blank) = textFrom d i fs := by
  induction fs generalizing i with
  | nil => rfl
  | cons f fs ih => cases f <;> simp [blank, textFrom, ih]

theorem map_blank_separated (s : String) (fss : List (List Fragment)) :
    (Fragment.separated s fss).map blank = Fragment.separated s (fss.map (List.map blank)) := by
  induction fss with
  | nil => rfl
  | cons fs fss ih =>
    cases fss with
    | nil => rfl
    | cons gs fss => simpa [Fragment.separated, blank] using ih

end Fragment

open Fragment

theorem qualifierFragments_blank (q : Option String) :
    (qualifierFragments q).map Fragment.blank = qualifierFragments q := by
  cases q <;> rfl

theorem aliasFragments_blank (a : Option String) :
    (aliasFragments a).map Fragment.blank = aliasFragments a := by
  cases a <;> rfl

theorem sourceFragments_blank (f : Option From) :
    (sourceFragments f).map Fragment.blank = sourceFragments f := by
  cases f with
  | none => rfl
  | some f => simp [sourceFragments, From.fragments, Fragment.blank, aliasFragments_blank]

theorem valueFragments_blank (v : Value) :
    valueFragments (blankValue v) = (valueFragments v).map Fragment.blank := by
  cases v with
  | list items =>
    simp only [blankValue, valueFragments, List.map_append, List.map_cons, List.map_nil,
      map_blank_separated, List.map_map]
    rfl
  | _ => rfl

theorem Expr.isBinary_blank (e : Expr) : e.blank.isBinary = e.isBinary := by
  cases e <;> simp [Expr.blank, Expr.isBinary]

mutual

theorem Expr.fragments_blank : (e : Expr) → e.blank.fragments = e.fragments.map Fragment.blank
  | .column q n => by simp [Expr.blank, Expr.fragments, qualifierFragments_blank, Fragment.blank]
  | .value v => by rw [Expr.blank, Expr.fragments, Expr.fragments, valueFragments_blank]
  | .binary l op r => by
    simp [Expr.blank, Expr.fragments, Fragment.blank, l.fragments_blank, r.fragments_blank]
  | .wildcard q => by simp [Expr.blank, Expr.fragments, qualifierFragments_blank, Fragment.blank]
  | .inList e [] negated => by
    simp [Expr.blank, Expr.fragments, exprsBlank, Fragment.blank]
  | .inList e (x :: xs) negated => by
    simp [Expr.blank, Expr.fragments, exprsBlank, Fragment.blank, map_blank_separated,
      e.fragments_blank, x.fragments_blank, exprsFragments_blank xs]
  | .inSubquery e q negated => by
    simp [Expr.blank, Expr.fragments, Fragment.blank, e.fragments_blank, q.fragments_blank]
  | .isNull e negated => by simp [Expr.blank, Expr.fragments, Fragment.blank, e.fragments_blank]
  | .nested e => by
    rw [Expr.blank, Expr.fragments, Expr.fragments, e.isBinary_blank, e.fragments_blank]
    cases e.isBinary <;> simp [Fragment.blank]

theorem exprsFragments_blank : (es : List Expr) →
    exprsFragments (exprsBlank es) = (exprsFragments es).map (List.map Fragment.blank)
  | [] => by rw [exprsBlank, exprsFragments, List.map_nil]
  | e :: es => by
    rw [exprsBlank, exprsFragments, exprsFragments, List.map_cons, e.fragments_blank,
      exprsFragments_blank es]

theorem Join.fragments_blank : (j : Join) → j.blank.fragments = j.fragments.map Fragment.blank
  | ⟨kind, table, asName, condition⟩ => by
    simp [Join.blank, Join.fragments, Fragment.blank, aliasFragments_blank,
      condition.fragments_blank]

theorem joinsFragments_blank : (js : List Join) →
    joinsFragments (joinsBlank js) = (joinsFragments js).map Fragment.blank
  | [] => by rw [joinsBlank, joinsFragments, List.map_nil]
  | j :: js => by
    simp [joinsBlank, joinsFragments, Fragment.blank, j.fragments_blank, joinsFragments_blank js]

theorem conditionFragments_blank : (c : Option Expr) →
    conditionFragments (conditionBlank c) = (conditionFragments c).map Fragment.blank
  | none => by rw [conditionBlank, conditionFragments, List.map_nil]
  | some e => by
    simp [conditionBlank, conditionFragments, Fragment.blank, e.fragments_blank]

theorem Select.fragments_blank : (q : Select) → q.blank.fragments = q.fragments.map Fragment.blank
  | ⟨columns, source, joins, condition⟩ => by
    simp [Select.blank, Select.fragments_eq, Fragment.blank, map_blank_separated,
      exprsFragments_blank columns, sourceFragments_blank, joinsFragments_blank joins,
      conditionFragments_blank condition]

end

/-- Fragments that differ in their parameters only have the same text. -/
theorem text_eq_of_map_blank {fs gs : List Fragment}
    (h : fs.map Fragment.blank = gs.map Fragment.blank) (d : Dialect) :
    Fragment.text d fs = Fragment.text d gs := by
  calc Fragment.text d fs = textFrom d 0 (fs.map Fragment.blank) := (textFrom_map_blank d 0 fs).symm
    _ = textFrom d 0 (gs.map Fragment.blank) := by rw [h]
    _ = Fragment.text d gs := textFrom_map_blank d 0 gs

/-! ## Statements -/

/-- A statement is scanned without fail. Its names are those given, its placeholders are numbered
from left to right with one for each parameter, and with the parameters in place of the placeholders
it has the names and the operands given. -/
def Statement.ScansTo (d : Dialect) (s : Statement) (leaves : List (Token Value)) : Prop :=
  ∃ ts, scan d s.sql = some ts ∧ names ts = names leaves ∧
    marks ts = (List.range s.params.length).map d.placeholder ∧
    (fill? ts s.params).map Token.leaves = some leaves

theorem Reads.scansTo {d : Dialect} {fs : List Fragment} {ts : List (Token Value)}
    (h : Reads d Parts fs ts) : (Statement.ofFragments d fs).ScansTo d (Token.leaves ts) := by
  refine ⟨number d 0 ts, h.scan_text, ?_, ?_, ?_⟩
  · rw [names_number, names_leaves]
  · rw [marks_number, List.range_eq_range', ← h.params_eq]
    rfl
  · rw [show (Statement.ofFragments d fs).params = marks ts from h.params_eq, fill?_number]
    rfl

/-- What is written can be scanned, and nothing but the names and the operands of what it is written
from is read from it beside fixed symbols; the text does not depend on the operands. -/
theorem statement_scansTo (d : Dialect) :
    (∀ e : Expr, (e.statement d).ScansTo d e.leaves) ∧
      (∀ q : Select, (q.statement d).ScansTo d q.leaves) ∧
      (∀ a b : Expr, a.blank = b.blank → (a.statement d).sql = (b.statement d).sql) ∧
      ∀ a b : Select, a.blank = b.blank → (a.statement d).sql = (b.statement d).sql := by
  refine ⟨fun e => ?_, fun q => ?_, fun a b h => ?_, fun a b h => ?_⟩
  · exact e.leaves_tokens ▸ (e.reads d).scansTo
  · exact q.leaves_tokens ▸ (q.reads d).scansTo
  · exact text_eq_of_map_blank (by rw [← a.fragments_blank, h, b.fragments_blank]) d
  · exact text_eq_of_map_blank (by rw [← a.fragments_blank, h, b.fragments_blank]) d

/-- A name with a quote and a placeholder in it, compared with a text that would end a literal. -/
theorem statement_scansTo_hostile :
    (Expr.binary (.column (some "t") "a\" = $1 OR ?") .eq (.value (.str "x' --"))).blank =
        (Expr.binary (.column (some "t") "a\" = $1 OR ?") .eq (.value .null)).blank ∧
      ((Expr.binary (.column (some "t") "a\" = $1 OR ?") .eq
        (.value (.str "x' --"))).statement .postgres).sql =
      ((Expr.binary (.column (some "t") "a\" = $1 OR ?") .eq
        (.value .null)).statement .postgres).sql := by
  have hblank : (Expr.binary (.column (some "t") "a\" = $1 OR ?") .eq
      (.value (.str "x' --"))).blank =
        (Expr.binary (.column (some "t") "a\" = $1 OR ?") .eq (.value .null)).blank := by
    simp [Expr.blank, blankValue]
  exact ⟨hblank, (statement_scansTo .postgres).2.2.1 _ _ hblank⟩

end DocFilter.Sql
