import DocFilter.Proofs.Sql.Token
import DocFilter.Sql.Render

/-!
# Scanning written expressions and queries

The fragments that an expression or a query is written with hold the tokens one expects
(`Expr.tokens`, `Select.tokens`), whatever the names in it: no quote in a name ends the name, and no
other character in it is taken for SQL. Fragments are read one after another (`Sql.Reads`). A token
could run on into the next fragment, as a placeholder does into a digit; fragments are put together
so that a blank, a sign or nothing follows each token of that kind (`Sql.Parts`).
-/

namespace DocFilter.Sql

open Token

/-! ## The tokens of expressions and queries -/

/-- The sign of an operation. -/
def BinaryOp.symbol : BinaryOp → Symbol
  | .eq => .eq
  | .ne => .ne
  | .lt => .lt
  | .le => .le
  | .gt => .gt
  | .ge => .ge
  | .and => .and
  | .or => .or

/-- The words before a joined table. -/
def JoinKind.symbols : JoinKind → List Symbol
  | .inner => [.inner, .join]
  | .left => [.left, .join]

/-- The words of a membership test, with the parenthesis before its items. -/
def membershipSymbols (negated : Bool) : List Symbol :=
  if negated then [.not, .isIn, .opening] else [.isIn, .opening]

/-- The words of a null test. -/
def nullTestSymbols (negated : Bool) : List Symbol :=
  if negated then [.is, .not, .null] else [.is, .null]

/-- The condition that stands for a membership test in an empty list. -/
def emptyListSymbols (negated : Bool) : List Symbol :=
  [.opening, .one, .eq, if negated then .one else .zero, .closing]

/-- Lists of tokens with a comma between them. -/
def Token.separated {μ : Type} : List (List (Token μ)) → List (Token μ)
  | [] => []
  | [ts] => ts
  | ts :: rest => ts ++ .symbol .comma :: separated rest

/-- The tokens before a column or a wildcard. -/
def qualifierTokens : Option String → List (Token Value)
  | none => []
  | some q => [.name q, .symbol .point]

/-- The tokens after the name of a table. -/
def aliasTokens : Option String → List (Token Value)
  | none => []
  | some a => [.symbol .asName, .name a]

/-- The tokens of a `FROM` clause. -/
def sourceTokens : Option From → List (Token Value)
  | none => []
  | some f => .symbol .fromTable :: .name f.table :: aliasTokens f.asName

/-- The tokens of a value. -/
def valueTokens : Value → List (Token Value)
  | .list items =>
    .symbol .opening :: Token.separated (items.map fun v => [.mark v]) ++ [.symbol .closing]
  | v => [.mark v]

mutual

/-- The tokens of an expression. -/
def Expr.tokens : Expr → List (Token Value)
  | .column q n => qualifierTokens q ++ [.name n]
  | .value v => valueTokens v
  | .binary l op r =>
    .symbol .opening :: l.tokens ++ .symbol op.symbol :: r.tokens ++ [.symbol .closing]
  | .wildcard q => qualifierTokens q ++ [.symbol .star]
  | .inList _ [] negated => symbols (emptyListSymbols negated)
  | .inList e (x :: xs) negated =>
    e.tokens ++
      (symbols (membershipSymbols negated) ++ Token.separated (x.tokens :: exprsTokens xs))
      ++ [.symbol .closing]
  | .inSubquery e q negated =>
    e.tokens ++ (symbols (membershipSymbols negated) ++ q.tokens) ++ [.symbol .closing]
  | .isNull e negated => e.tokens ++ symbols (nullTestSymbols negated)
  | .nested e =>
    if e.isBinary then e.tokens else .symbol .opening :: e.tokens ++ [.symbol .closing]

/-- The tokens of each of several expressions. -/
def exprsTokens : List Expr → List (List (Token Value))
  | [] => []
  | e :: es => e.tokens :: exprsTokens es

/-- The tokens of a joined table. -/
def Join.tokens : Join → List (Token Value)
  | ⟨kind, table, asName, condition⟩ =>
    symbols kind.symbols ++ .name table :: aliasTokens asName ++ .symbol .on :: condition.tokens

/-- The tokens of joined tables. -/
def joinsTokens : List Join → List (Token Value)
  | [] => []
  | j :: js => j.tokens ++ joinsTokens js

/-- The tokens of a `WHERE` clause. -/
def conditionTokens : Option Expr → List (Token Value)
  | none => []
  | some e => .symbol .whereRows :: e.tokens

/-- The tokens of a query. -/
def Select.tokens : Select → List (Token Value)
  | ⟨columns, source, joins, condition⟩ =>
    .symbol .select :: Token.separated (exprsTokens columns) ++ sourceTokens source
      ++ joinsTokens joins ++ conditionTokens condition

end

/-! ## Reading fragments -/

/-- The fragments of a `FROM` clause, with a blank before it. -/
def sourceFragments : Option From → List Fragment
  | none => []
  | some f => .raw " " :: f.fragments

theorem Select.fragments_eq (columns : List Expr) (source : Option From) (joins : List Join)
    (condition : Option Expr) :
    Select.fragments ⟨columns, source, joins, condition⟩ =
      .raw "SELECT " :: Fragment.separated ", " (exprsFragments columns) ++ sourceFragments source
        ++ joinsFragments joins ++ conditionFragments condition := by
  cases source <;> rw [Select.fragments, sourceFragments]

/-- Text in front of which every token ends. -/
def Parts (cs : List Char) : Prop := ∀ c ∈ cs.head?, c = ' ' ∨ c = ')' ∨ c = ',' ∨ c = '.'

namespace Fragment

theorem params_append (fs gs : List Fragment) : params (fs ++ gs) = params fs ++ params gs := by
  induction fs with
  | nil => rfl
  | cons f fs ih => cases f <;> simp [params, ih]

theorem textFrom_append (d : Dialect) (i : Nat) (fs gs : List Fragment) :
    textFrom d i (fs ++ gs) = textFrom d i fs ++ textFrom d (i + (params fs).length) gs := by
  induction fs generalizing i with
  | nil => simp [textFrom, params]
  | cons f fs ih =>
    cases f with
    | raw | name => simp [textFrom, params, ih, String.append_assoc]
    | param v =>
      have hlength : i + 1 + (params fs).length = i + ((params fs).length + 1) := by omega
      simp [textFrom, params, ih, String.append_assoc, hlength]

/-- Fragments in front of which every token ends, if it ends in front of what follows them. -/
def Part (fs : List Fragment) : Prop :=
  ∀ d i rest, Parts rest → Parts ((textFrom d i fs).toList ++ rest)

theorem part_nil : Part [] := fun d i rest h => by simpa [textFrom] using h

theorem part_raw {s : String} {c : Char} {cs : List Char} (hs : s.toList = c :: cs)
    (hc : c = ' ' ∨ c = ')' ∨ c = ',' ∨ c = '.') (fs : List Fragment) : Part (.raw s :: fs) := by
  intro d i rest _ c' hc'
  simp only [textFrom, String.toList_append, hs, List.cons_append, List.head?_cons,
    Option.mem_some_iff] at hc'
  exact hc' ▸ hc

theorem Part.append {fs gs : List Fragment} (hf : Part fs) (hg : Part gs) : Part (fs ++ gs) := by
  intro d i rest h
  rw [textFrom_append, String.toList_append, List.append_assoc]
  exact hf d i _ (hg d _ rest h)

end Fragment

open Fragment

/-- Fragments are read as tokens, after any number of parameters and in front of every text of a
kind. -/
structure Reads (d : Dialect) (follows : List Char → Prop) (fs : List Fragment)
    (ts : List (Token Value)) : Prop where
  /-- The parameters stand at the places of parameters. -/
  params_eq : params fs = marks ts
  /-- The scan of the text gives the tokens and goes on behind it. -/
  scan_eq : ∀ i rest, follows rest →
    scanFrom d .between ((textFrom d i fs).toList ++ rest) =
      (scanFrom d .between rest).map (number d i ts ++ ·)

namespace Reads

variable {d : Dialect} {fs gs : List Fragment} {ts us : List (Token Value)}
  {follows follows' : List Char → Prop}

theorem mono (h : Reads d follows fs ts) (hmono : ∀ rest, follows' rest → follows rest) :
    Reads d follows' fs ts :=
  ⟨h.params_eq, fun i rest hrest => h.scan_eq i rest (hmono rest hrest)⟩

theorem append (h : Reads d follows fs ts) (h' : Reads d follows' gs us)
    (hjoin : ∀ i rest, follows' rest → follows ((textFrom d i gs).toList ++ rest)) :
    Reads d follows' (fs ++ gs) (ts ++ us) := by
  refine ⟨by rw [params_append, marks_append, h.params_eq, h'.params_eq], fun i rest hrest => ?_⟩
  have hlength : (params fs).length = (marks ts).length := congrArg _ h.params_eq
  rw [textFrom_append, String.toList_append, List.append_assoc, h.scan_eq i _ (hjoin _ _ hrest),
    h'.scan_eq _ rest hrest, number_append, hlength, Option.map_map]
  simp [Function.comp_def]

theorem nil : Reads d Parts [] [] := ⟨rfl, by simp [textFrom, number]⟩

/-- Fragments behind which a token ends anyway. -/
theorem sealed_append (h : Reads d (fun _ => True) fs ts) (h' : Reads d follows gs us) :
    Reads d follows (fs ++ gs) (ts ++ us) :=
  h.append h' fun _ _ _ => trivial

theorem append_part (h : Reads d Parts fs ts) (h' : Reads d Parts gs us) (hg : Part gs) :
    Reads d Parts (fs ++ gs) (ts ++ us) :=
  h.append h' fun i => hg d i

/-- A fixed text is read as it is read by itself, if no token runs on behind it. -/
theorem raw {s : String} {ss : List Symbol} (hscan : scan d s = some (symbols ss))
    (hjoin : ∀ s', stateAfter d .between s.toList = some s' →
      ∀ rest, follows rest → ∀ c ∈ rest.head?, s'.extend? d c = none) :
    Reads d follows [.raw s] (symbols ss) := by
  refine ⟨(marks_symbols ss).symm, fun i rest hrest => ?_⟩
  have htext : (textFrom d i [.raw s]).toList = s.toList := by simp [textFrom]
  have hscan' : scanFrom d .between s.toList = some (symbols ss) := hscan
  rw [htext, scanFrom_append fun s' hs' => hjoin s' hs' rest hrest, hscan', number_symbols]
  rfl

/-- No token runs on behind a fixed text that ends with a blank or a sign by itself. -/
theorem raw_sealed {s : String} {ss : List Symbol} (hscan : scan d s = some (symbols ss))
    (hstate : stateAfter d .between s.toList = some .between) :
    Reads d (fun _ => True) [.raw s] (symbols ss) := by
  refine raw hscan fun s' hs' rest _ c _ => ?_
  cases hstate.symm.trans hs'
  rfl

theorem name (n : String) : Reads d Parts [.name n] [.name n] := by
  refine ⟨rfl, fun i rest hrest => ?_⟩
  have hquote : ∀ c ∈ rest.head?, c ≠ d.quote := by
    intro c hc
    obtain rfl | rfl | rfl | rfl := hrest c hc <;> cases d <;> decide
  simpa [textFrom, number] using scanFrom_quoteName n hquote

theorem param (v : Value) : Reads d Parts [.param v] [.mark v] := by
  refine ⟨rfl, fun i rest hrest => ?_⟩
  have hdigit : ∀ c ∈ rest.head?, c.isDigit = false := by
    intro c hc
    obtain rfl | rfl | rfl | rfl := hrest c hc <;> decide
  simpa [textFrom, number] using scanFrom_placeholder i hdigit

/-- A fixed text in front of other fragments. -/
theorem raw_cons {s : String} {ss : List Symbol} (h : Reads d (fun _ => True) [.raw s] (symbols ss))
    (h' : Reads d follows gs us) : Reads d follows (.raw s :: gs) (symbols ss ++ us) :=
  h.sealed_append h'

/-- A closing parenthesis. -/
theorem append_closing (h : Reads d Parts fs ts) :
    Reads d Parts (fs ++ [.raw ")"]) (ts ++ [.symbol .closing]) := by
  have hclosing : Reads d (fun _ => True) [.raw ")"] (symbols [.closing]) :=
    raw_sealed (by cases d <;> rfl) (by cases d <;> rfl)
  exact h.append_part (hclosing.mono fun _ _ => trivial) (part_raw rfl (by decide) [])

/-- An opening parenthesis. -/
theorem opening_cons (h : Reads d Parts fs ts) :
    Reads d Parts (.raw "(" :: fs) (.symbol .opening :: ts) := by
  have hopening : Reads d (fun _ => True) [.raw "("] (symbols [.opening]) :=
    raw_sealed (by cases d <;> rfl) (by cases d <;> rfl)
  exact raw_cons hopening h

/-- Lists of fragments with commas between them. -/
theorem separated {fss : List (List Fragment)} {tss : List (List (Token Value))}
    (h : List.Forall₂ (Reads d Parts) fss tss) :
    Reads d Parts (Fragment.separated ", " fss) (Token.separated tss) := by
  have hcomma : Reads d (fun _ => True) [.raw ", "] (symbols [.comma]) :=
    raw_sealed (by cases d <;> rfl) (by cases d <;> rfl)
  induction h with
  | nil => exact nil
  | cons h hs ih =>
    cases hs with
    | nil => exact h
    | cons => exact h.append_part (raw_cons hcomma ih) (part_raw rfl (by decide) _)

theorem membership (negated : Bool) :
    Reads d (fun _ => True) [.raw (membershipText negated)]
      (symbols (membershipSymbols negated)) :=
  raw_sealed (by cases d <;> cases negated <;> rfl) (by cases d <;> cases negated <;> rfl)

theorem asName (a : Option String) :
    Reads d Parts (aliasFragments a) (aliasTokens a) ∧ Part (aliasFragments a) := by
  cases a with
  | none => exact ⟨nil, part_nil⟩
  | some a =>
    have has : Reads d (fun _ => True) [.raw " AS "] (symbols [.asName]) :=
      raw_sealed (by cases d <;> rfl) (by cases d <;> rfl)
    exact ⟨raw_cons has (name a), part_raw rfl (by decide) _⟩

theorem qualifier (q : Option String) (h : Reads d Parts fs ts) :
    Reads d Parts (qualifierFragments q ++ fs) (qualifierTokens q ++ ts) := by
  cases q with
  | none => exact h
  | some q =>
    have hpoint : Reads d (fun _ => True) [.raw "."] (symbols [.point]) :=
      raw_sealed (by cases d <;> rfl) (by cases d <;> rfl)
    exact (name q).append_part (raw_cons hpoint h) (part_raw rfl (by decide) _)

theorem value (v : Value) : Reads d Parts (valueFragments v) (valueTokens v) := by
  have hitems : ∀ items : List Value,
      List.Forall₂ (Reads d Parts) (items.map fun v => [.param v])
        (items.map fun v => [.mark v]) := by
    intro items
    induction items with
    | nil => exact .nil
    | cons v items ih => exact .cons (param v) ih
  cases v with
  | list items => exact (opening_cons (separated (hitems items))).append_closing
  | _ => exact param _

theorem source (f : Option From) :
    Reads d Parts (sourceFragments f) (sourceTokens f) ∧ Part (sourceFragments f) := by
  cases f with
  | none => exact ⟨nil, part_nil⟩
  | some f =>
    have hblank : Reads d (fun _ => True) [.raw " "] (symbols []) :=
      raw_sealed (by cases d <;> rfl) (by cases d <;> rfl)
    have hfrom : Reads d (fun _ => True) [.raw "FROM "] (symbols [.fromTable]) :=
      raw_sealed (by cases d <;> rfl) (by cases d <;> rfl)
    obtain ⟨halias, hpart⟩ := asName (d := d) f.asName
    have htable := (name (d := d) f.table).append_part halias hpart
    exact ⟨raw_cons hblank (raw_cons hfrom htable), part_raw rfl (by decide) _⟩

theorem operation (op : BinaryOp) (h : Reads d Parts fs ts) :
    Reads d Parts (.raw op.text :: fs) (.symbol op.symbol :: ts) ∧ Part (.raw op.text :: fs) := by
  have hop : Reads d (fun _ => True) [.raw op.text] (symbols [op.symbol]) := by
    cases op <;> exact raw_sealed (by cases d <;> rfl) (by cases d <;> rfl)
  refine ⟨raw_cons hop h, ?_⟩
  cases op <;> exact part_raw rfl (by decide) _

theorem nullTest (negated : Bool) :
    Reads d Parts [.raw (nullTestText negated)] (symbols (nullTestSymbols negated)) := by
  refine raw (by cases d <;> cases negated <;> rfl) fun s' hs' rest hrest c hc => ?_
  have hletters : s' = .within .letters ['N', 'U', 'L', 'L'] := by
    cases d <;> cases negated <;> exact (Option.some.inj hs').symm
  subst hletters
  obtain rfl | rfl | rfl | rfl := hrest c hc <;> rfl

/-- A fixed text in front of an expression that is followed by a closing parenthesis. -/
theorem test {negated : Bool} (h : Reads d Parts fs ts) (h' : Reads d Parts gs us) :
    Reads d Parts (fs ++ .raw (membershipText negated) :: gs ++ [.raw ")"])
      (ts ++ (symbols (membershipSymbols negated) ++ us) ++ [.symbol .closing]) := by
  refine (h.append_part (raw_cons (membership negated) h') ?_).append_closing
  cases negated <;> exact part_raw rfl (by decide) _

end Reads

mutual

theorem Expr.reads (d : Dialect) : (e : Expr) → Reads d Parts e.fragments e.tokens
  | .column q n => by
    rw [Expr.fragments, Expr.tokens]
    exact .qualifier q (.name n)
  | .value v => by
    rw [Expr.fragments, Expr.tokens]
    exact .value v
  | .binary l op r => by
    rw [Expr.fragments, Expr.tokens]
    obtain ⟨hop, hpart⟩ := Reads.operation op (r.reads d)
    exact ((Reads.opening_cons (l.reads d)).append_part hop hpart).append_closing
  | .wildcard q => by
    rw [Expr.fragments, Expr.tokens]
    have hstar : Reads d (fun _ => True) [.raw "*"] (symbols [.star]) :=
      .raw_sealed (by cases d <;> rfl) (by cases d <;> rfl)
    exact .qualifier q (hstar.mono fun _ _ => trivial)
  | .inList _ [] negated => by
    rw [Expr.fragments, Expr.tokens]
    have hempty : Reads d (fun _ => True) [.raw (emptyListText negated)]
        (symbols (emptyListSymbols negated)) :=
      .raw_sealed (by cases d <;> cases negated <;> rfl) (by cases d <;> cases negated <;> rfl)
    exact hempty.mono fun _ _ => trivial
  | .inList e (x :: xs) negated => by
    rw [Expr.fragments, Expr.tokens]
    exact .test (e.reads d) (.separated (.cons (x.reads d) (exprs_reads d xs)))
  | .inSubquery e q negated => by
    rw [Expr.fragments, Expr.tokens]
    exact .test (e.reads d) (q.reads d)
  | .isNull e negated => by
    rw [Expr.fragments, Expr.tokens]
    refine (e.reads d).append_part (.nullTest negated) ?_
    cases negated <;> exact part_raw rfl (by decide) _
  | .nested e => by
    rw [Expr.fragments, Expr.tokens]
    cases e.isBinary with
    | true => exact e.reads d
    | false => exact (Reads.opening_cons (e.reads d)).append_closing

theorem exprs_reads (d : Dialect) :
    (es : List Expr) → List.Forall₂ (Reads d Parts) (exprsFragments es) (exprsTokens es)
  | [] => by
    rw [exprsFragments, exprsTokens]
    exact .nil
  | e :: es => by
    rw [exprsFragments, exprsTokens]
    exact .cons (e.reads d) (exprs_reads d es)

theorem Join.reads (d : Dialect) : (j : Join) → Reads d Parts j.fragments j.tokens
  | ⟨kind, table, asName, condition⟩ => by
    rw [Join.fragments, Join.tokens]
    have hkind : Reads d (fun _ => True) [.raw kind.text] (symbols kind.symbols) := by
      cases kind <;> exact .raw_sealed (by cases d <;> rfl) (by cases d <;> rfl)
    have hon : Reads d (fun _ => True) [.raw " ON "] (symbols [.on]) :=
      .raw_sealed (by cases d <;> rfl) (by cases d <;> rfl)
    obtain ⟨halias, hpart⟩ := Reads.asName (d := d) asName
    have htable := (Reads.name (d := d) table).append_part halias hpart
    exact (hkind.raw_cons htable).append_part (hon.raw_cons (condition.reads d))
      (part_raw rfl (by decide) _)

theorem joins_reads (d : Dialect) :
    (js : List Join) → Reads d Parts (joinsFragments js) (joinsTokens js) ∧ Part (joinsFragments js)
  | [] => by
    rw [joinsFragments, joinsTokens]
    exact ⟨.nil, part_nil⟩
  | j :: js => by
    rw [joinsFragments, joinsTokens]
    have hblank : Reads d (fun _ => True) [.raw " "] (symbols []) :=
      .raw_sealed (by cases d <;> rfl) (by cases d <;> rfl)
    obtain ⟨hjs, hpart⟩ := joins_reads d js
    exact ⟨(hblank.raw_cons (j.reads d)).append_part hjs hpart, part_raw rfl (by decide) _⟩

theorem condition_reads (d : Dialect) :
    (c : Option Expr) →
      Reads d Parts (conditionFragments c) (conditionTokens c) ∧ Part (conditionFragments c)
  | none => by
    rw [conditionFragments, conditionTokens]
    exact ⟨.nil, part_nil⟩
  | some e => by
    rw [conditionFragments, conditionTokens]
    have hwhere : Reads d (fun _ => True) [.raw " WHERE "] (symbols [.whereRows]) :=
      .raw_sealed (by cases d <;> rfl) (by cases d <;> rfl)
    exact ⟨hwhere.raw_cons (e.reads d), part_raw rfl (by decide) _⟩

theorem Select.reads (d : Dialect) : (q : Select) → Reads d Parts q.fragments q.tokens
  | ⟨columns, source, joins, condition⟩ => by
    rw [Select.fragments_eq, Select.tokens]
    have hselect : Reads d (fun _ => True) [.raw "SELECT "] (symbols [.select]) :=
      .raw_sealed (by cases d <;> rfl) (by cases d <;> rfl)
    have hcolumns := hselect.raw_cons (.separated (exprs_reads d columns))
    obtain ⟨hsource, hsourcePart⟩ := Reads.source (d := d) source
    obtain ⟨hjoins, hjoinsPart⟩ := joins_reads d joins
    obtain ⟨hcondition, hconditionPart⟩ := condition_reads d condition
    exact ((hcolumns.append_part hsource hsourcePart).append_part hjoins hjoinsPart).append_part
      hcondition hconditionPart

end

/-- The scan of a written text gives its tokens, with placeholders for the parameters. -/
theorem Reads.scan_text {d : Dialect} {fs : List Fragment} {ts : List (Token Value)}
    (h : Reads d Parts fs ts) : scan d (Fragment.text d fs) = some (number d 0 ts) := by
  have hscan := h.scan_eq 0 [] (by simp [Parts])
  simpa [scan, Fragment.text, scanFrom, ScanState.close?] using hscan

end DocFilter.Sql
