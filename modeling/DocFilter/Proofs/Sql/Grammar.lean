import DocFilter.Proofs.Sql.Scanning

/-!
# Written SQL is unambiguous

The tokens of an expression or a query are read back from left to right, one at a time
(`Reader.step`). A reader knows what it has read last and what the tokens before that are part of;
every test that follows an expression applies to the whole of it, and an operation ends with its
parenthesis, so that it never has to look ahead.

What is read back is the expression itself, except that three differences cannot be seen
(`Expr.normal`): parentheses around an operation, which has its own; what is tested for membership
in an empty list; and whether a parameter in parentheses is a list of one item.
-/

namespace DocFilter.Sql

open Token

/-! ## Normal forms -/

/-- An expression with parentheses around it. An operation needs them twice to have them besides its
own. -/
def Expr.enclosed (e : Expr) : Expr := if e.isBinary then .nested (.nested e) else .nested e

/-- The normal form of an expression in parentheses, from the normal form of the expression: an
operation has its own parentheses, and a parameter in parentheses is a list of one item. -/
def Expr.nestedNormal : Expr → Expr → Expr
  | .binary _ _ _, normal => normal
  | .value (.list items), _ => .nested (.value (.list items))
  | .value v, _ => .value (.list [v])
  | _, normal => normal.enclosed

mutual

/-- An expression without the differences that cannot be seen when it is written. -/
def Expr.normal : Expr → Expr
  | .column q n => .column q n
  | .value v => .value v
  | .binary l op r => .binary l.normal op r.normal
  | .wildcard q => .wildcard q
  | .inList _ [] negated => .inList (.wildcard none) [] negated
  | .inList e (x :: xs) negated => .inList e.normal (x.normal :: exprsNormal xs) negated
  | .inSubquery e q negated => .inSubquery e.normal q.normal negated
  | .isNull e negated => .isNull e.normal negated
  | .nested e => e.nestedNormal e.normal

/-- The normal forms of several expressions. -/
def exprsNormal : List Expr → List Expr
  | [] => []
  | e :: es => e.normal :: exprsNormal es

/-- The normal form of a joined table. -/
def Join.normal : Join → Join
  | ⟨kind, table, asName, condition⟩ => ⟨kind, table, asName, condition.normal⟩

/-- The normal forms of joined tables. -/
def joinsNormal : List Join → List Join
  | [] => []
  | j :: js => j.normal :: joinsNormal js

/-- The normal form of a condition. -/
def conditionNormal : Option Expr → Option Expr
  | none => none
  | some e => some e.normal

/-- The normal form of a query. -/
def Select.normal : Select → Select
  | ⟨columns, source, joins, condition⟩ =>
    ⟨exprsNormal columns, source, joinsNormal joins, conditionNormal condition⟩

end

theorem Expr.fragments_enclosed (e : Expr) :
    e.enclosed.fragments = .raw "(" :: e.fragments ++ [.raw ")"] := by
  have hnested : (Expr.nested e).isBinary = false := rfl
  cases h : e.isBinary <;> simp [Expr.enclosed, Expr.fragments, h, hnested]

mutual

/-- A normal form is written like the expression that it is of. -/
theorem Expr.fragments_normal : (e : Expr) → e.normal.fragments = e.fragments
  | .column q n => by rw [Expr.normal]
  | .value v => by rw [Expr.normal]
  | .binary l op r => by
    rw [Expr.normal, Expr.fragments, Expr.fragments, l.fragments_normal, r.fragments_normal]
  | .wildcard q => by rw [Expr.normal]
  | .inList _ [] negated => by rw [Expr.normal, Expr.fragments, Expr.fragments]
  | .inList e (x :: xs) negated => by
    rw [Expr.normal, Expr.fragments, Expr.fragments, e.fragments_normal, x.fragments_normal,
      exprsFragments_normal xs]
  | .inSubquery e q negated => by
    rw [Expr.normal, Expr.fragments, Expr.fragments, e.fragments_normal, q.fragments_normal]
  | .isNull e negated => by rw [Expr.normal, Expr.fragments, Expr.fragments, e.fragments_normal]
  | .nested e => by
    have he := e.fragments_normal
    rw [Expr.normal, Expr.fragments]
    cases e with
    | binary l op r => exact he
    | value v => cases v <;> rfl
    | _ => exact (Expr.fragments_enclosed _).trans (by rw [he]; rfl)

theorem exprsFragments_normal : (es : List Expr) →
    exprsFragments (exprsNormal es) = exprsFragments es
  | [] => by rw [exprsNormal]
  | e :: es => by
    rw [exprsNormal, exprsFragments, exprsFragments, e.fragments_normal, exprsFragments_normal es]

theorem Join.fragments_normal : (j : Join) → j.normal.fragments = j.fragments
  | ⟨kind, table, asName, condition⟩ => by
    rw [Join.normal, Join.fragments, Join.fragments, condition.fragments_normal]

theorem joinsFragments_normal : (js : List Join) →
    joinsFragments (joinsNormal js) = joinsFragments js
  | [] => by rw [joinsNormal]
  | j :: js => by
    rw [joinsNormal, joinsFragments, joinsFragments, j.fragments_normal, joinsFragments_normal js]

theorem conditionFragments_normal : (c : Option Expr) →
    conditionFragments (conditionNormal c) = conditionFragments c
  | none => by rw [conditionNormal]
  | some e => by
    rw [conditionNormal, conditionFragments, conditionFragments, e.fragments_normal]

theorem Select.fragments_normal : (q : Select) → q.normal.fragments = q.fragments
  | ⟨columns, source, joins, condition⟩ => by
    rw [Select.normal, Select.fragments_eq, Select.fragments_eq, exprsFragments_normal columns,
      joinsFragments_normal joins, conditionFragments_normal condition]

end

/-! ## Readers -/

/-- What is read next belongs to this. -/
inductive Frame where
  /-- After an opening parenthesis. -/
  | group
  /-- In a list of parameters. -/
  | values (items : List Value)
  /-- After the sign of an operation. -/
  | operation (left : Expr) (op : BinaryOp)
  /-- Among the items of a membership test. -/
  | member (tested : Expr) (negated : Bool) (items : List Expr)
  /-- In the query of a membership test. -/
  | subquery (tested : Expr) (negated : Bool)
  /-- Among the columns of a query. -/
  | column (columns : List Expr)
  /-- In the condition of a joined table. -/
  | joined (query : Select) (kind : JoinKind) (table : String) (asName : Option String)
  /-- In the condition of a query. -/
  | condition (query : Select)

/-- What has been read last. -/
inductive Mode where
  /-- Nothing yet of an expression. -/
  | start
  /-- A parameter: an expression, or an item of a list. -/
  | marked (v : Value)
  /-- Any other expression. -/
  | done (e : Expr)
  /-- A query as far as its first table or one of its conditions. -/
  | clauses (query : Select)
  /-- A joined table that its condition is missing of. -/
  | joining (query : Select) (kind : JoinKind) (table : String) (asName : Option String)

/-- A reader in the middle of written SQL. -/
structure Reader where
  /-- What has been read last. -/
  mode : Mode
  /-- Symbols that only mean something with what follows. -/
  pending : List Symbol
  /-- What it is part of, from the inside. -/
  frames : List Frame

/-- The expression that has been read last. -/
def Mode.expr? : Mode → Option Expr
  | .marked v => some (.value v)
  | .done e => some e
  | _ => none

/-- The query that has been read so far, and what it is part of. -/
def Mode.select? : Mode → List Frame → Option (Select × List Frame)
  | .clauses q, frames => some (q, frames)
  | .start, .column columns :: frames => some (⟨columns, none, [], none⟩, frames)
  | m, .column columns :: frames =>
    m.expr?.map fun e => (⟨columns ++ [e], none, [], none⟩, frames)
  | m, .joined q kind table asName :: frames =>
    m.expr?.map fun e => (q.join ⟨kind, table, asName, e⟩, frames)
  | m, .condition q :: frames => m.expr?.map fun e => (q.filter e, frames)
  | _, _ => none

namespace Reader

/-- Reads a name. -/
def readName (n : String) (m : Mode) (frames : List Frame) : List Symbol → Option Reader
  | [] => match m with
    | .start => some ⟨.done (.column none n), [], frames⟩
    | _ => none
  | [.point] => match m with
    | .done (.column none q) => some ⟨.done (.column (some q) n), [], frames⟩
    | _ => none
  | [.fromTable] =>
    (m.select? frames).map fun (q, frames) =>
      ⟨.clauses { q with source := some ⟨n, none⟩ }, [], frames⟩
  | [.inner, .join] =>
    (m.select? frames).map fun (q, frames) => ⟨.joining q .inner n none, [], frames⟩
  | [.left, .join] =>
    (m.select? frames).map fun (q, frames) => ⟨.joining q .left n none, [], frames⟩
  | [.asName] => match m with
    | .clauses q =>
      some ⟨.clauses { q with source := q.source.map fun f => ⟨f.table, some n⟩ }, [], frames⟩
    | .joining q kind table _ => some ⟨.joining q kind table (some n), [], frames⟩
    | _ => none
  | _ => none

/-- Reads a closing parenthesis. -/
def readClosing (m : Mode) : List Frame → Option Reader
  | .group :: frames => match m with
    | .start => some ⟨.done (.value (.list [])), [], frames⟩
    | .marked v => some ⟨.done (.value (.list [v])), [], frames⟩
    | .done e => some ⟨.done e.enclosed, [], frames⟩
    | _ => none
  | .values items :: frames => match m with
    | .marked v => some ⟨.done (.value (.list (items ++ [v]))), [], frames⟩
    | _ => none
  | .operation l op :: frames => m.expr?.map fun r => ⟨.done (.binary l op r), [], frames⟩
  | .member e negated items :: frames =>
    m.expr?.map fun x => ⟨.done (.inList e (items ++ [x]) negated), [], frames⟩
  | frames => match m.select? frames with
    | some (q, .subquery e negated :: frames) => some ⟨.done (.inSubquery e q negated), [], frames⟩
    | _ => none

/-- Reads a comma. -/
def readComma (m : Mode) : List Frame → Option Reader
  | .group :: frames => match m with
    | .marked v => some ⟨.start, [], .values [v] :: frames⟩
    | _ => none
  | .values items :: frames => match m with
    | .marked v => some ⟨.start, [], .values (items ++ [v]) :: frames⟩
    | _ => none
  | .member e negated items :: frames =>
    m.expr?.map fun x => ⟨.start, [], .member e negated (items ++ [x]) :: frames⟩
  | .column columns :: frames =>
    m.expr?.map fun e => ⟨.start, [], .column (columns ++ [e]) :: frames⟩
  | _ => none

/-- The operation that a sign stands for. -/
def operation? (s : Symbol) : Option BinaryOp :=
  [BinaryOp.eq, .ne, .lt, .le, .gt, .ge, .and, .or].find? (·.symbol == s)

/-- Reads symbols that mean something together; other symbols wait for what follows. -/
def readSymbols (m : Mode) (frames : List Frame) : List Symbol → Option Reader
  | [.star] => match m with
    | .start => some ⟨.done (.wildcard none), [], frames⟩
    | _ => none
  | [.point, .star] => match m with
    | .done (.column none q) => some ⟨.done (.wildcard (some q)), [], frames⟩
    | _ => none
  | [.opening] => match m with
    | .start => some ⟨.start, [], .group :: frames⟩
    | _ => none
  | [.one, .eq, constant, .closing] => match m, frames with
    | .start, .group :: frames =>
      some ⟨.done (.inList (.wildcard none) [] (constant == .one)), [], frames⟩
    | _, _ => none
  | [.is, .null] => m.expr?.map fun e => ⟨.done (.isNull e false), [], frames⟩
  | [.is, .not, .null] => m.expr?.map fun e => ⟨.done (.isNull e true), [], frames⟩
  | [.isIn, .opening] => m.expr?.map fun e => ⟨.start, [], .member e false [] :: frames⟩
  | [.not, .isIn, .opening] => m.expr?.map fun e => ⟨.start, [], .member e true [] :: frames⟩
  | [.closing] => readClosing m frames
  | [.comma] => readComma m frames
  | [.select] => match m, frames with
    | .start, [] => some ⟨.start, [], [.column []]⟩
    | .start, .member e negated [] :: frames =>
      some ⟨.start, [], .column [] :: .subquery e negated :: frames⟩
    | _, _ => none
  | [.on] => match m with
    | .joining q kind table asName => some ⟨.start, [], .joined q kind table asName :: frames⟩
    | _ => none
  | [.whereRows] =>
    (m.select? frames).map fun (q, frames) => ⟨.start, [], .condition q :: frames⟩
  | [s] => match operation? s, frames with
    | some op, .group :: frames => m.expr?.map fun l => ⟨.start, [], .operation l op :: frames⟩
    | some _, _ => none
    | none, _ => some ⟨m, [s], frames⟩
  | pending => some ⟨m, pending, frames⟩

/-- Reads a token. -/
def step (r : Reader) : Token Value → Option Reader
  | .name n => readName n r.mode r.frames r.pending
  | .symbol s => readSymbols r.mode r.frames (r.pending ++ [s])
  | .mark v => match r.mode, r.pending with
    | .start, [] => some ⟨.marked v, [], r.frames⟩
    | _, _ => none

/-- A reader gets from one state to another with tokens. -/
def Steps (r : Reader) (ts : List (Token Value)) (r' : Reader) : Prop := ts.foldlM step r = some r'

variable {r r' r'' : Reader} {ts us : List (Token Value)}

theorem Steps.nil (r : Reader) : Steps r [] r := rfl

theorem Steps.cons {t : Token Value} (h : r.step t = some r') (hs : Steps r' ts r'') :
    Steps r (t :: ts) r'' := by
  rw [Steps, List.foldlM_cons, h]
  exact hs

theorem Steps.append (h : Steps r ts r') (hs : Steps r' us r'') : Steps r (ts ++ us) r'' := by
  rw [Steps, List.foldlM_append, h]
  exact hs

theorem Steps.concat {t : Token Value} (h : Steps r ts r') (ht : r'.step t = some r'') :
    Steps r (ts ++ [t]) r'' :=
  h.append (.cons ht (.nil r''))

end Reader

/-! ## Reading tokens back -/

/-- What a reader has read last after an expression. -/
def Expr.mode : Expr → Mode
  | .value (.list items) => .done (.value (.list items))
  | .value v => .marked v
  | e => .done e.normal

theorem Expr.expr?_mode (e : Expr) : e.mode.expr? = some e.normal := by
  cases e with
  | value v => cases v <;> simp [Expr.mode, Expr.normal, Mode.expr?]
  | _ => rfl

namespace Reader

variable {m : Mode} {e : Expr} {frames : List Frame}

theorem step_operation (h : m.expr? = some e) (op : BinaryOp) :
    step ⟨m, [], .group :: frames⟩ (.symbol op.symbol) =
      some ⟨.start, [], .operation e op :: frames⟩ := by
  cases op <;> exact congrArg (Option.map _) h

theorem steps_nullTest (h : m.expr? = some e) (negated : Bool) :
    Steps ⟨m, [], frames⟩ (symbols (nullTestSymbols negated))
      ⟨.done (.isNull e negated), [], frames⟩ := by
  cases negated with
  | false => exact .cons rfl (.cons (congrArg (Option.map _) h) (.nil _))
  | true => exact .cons rfl (.cons rfl (.cons (congrArg (Option.map _) h) (.nil _)))

theorem steps_membership (h : m.expr? = some e) (negated : Bool) :
    Steps ⟨m, [], frames⟩ (symbols (membershipSymbols negated))
      ⟨.start, [], .member e negated [] :: frames⟩ := by
  cases negated with
  | false => exact .cons rfl (.cons (congrArg (Option.map _) h) (.nil _))
  | true => exact .cons rfl (.cons rfl (.cons (congrArg (Option.map _) h) (.nil _)))

theorem step_closing_group (e : Expr) (h : e.isBinary = false) :
    step ⟨e.mode, [], .group :: frames⟩ (.symbol .closing) =
      some ⟨(Expr.nested e).mode, [], frames⟩ := by
  cases e with
  | binary l op r => cases h
  | value v => cases v <;> rfl
  | _ => rfl

/-- The items of a list, behind some of them. -/
theorem steps_values (v : Value) (vs items : List Value) :
    Steps ⟨.start, [], .values items :: frames⟩
      (Token.separated ((v :: vs).map fun v => [.mark v]) ++ [.symbol .closing])
      ⟨.done (.value (.list (items ++ v :: vs))), [], frames⟩ := by
  induction vs generalizing v items with
  | nil => exact .cons rfl (.cons rfl (.nil _))
  | cons w vs ih =>
    have hrest := ih w (items ++ [v])
    rw [List.append_assoc, List.singleton_append] at hrest
    exact .cons rfl (.cons rfl hrest)

theorem steps_value (v : Value) :
    Steps ⟨.start, [], frames⟩ (valueTokens v) ⟨(Expr.value v).mode, [], frames⟩ := by
  cases v with
  | list items =>
    cases items with
    | nil => exact .cons rfl (.cons rfl (.nil _))
    | cons v items =>
      cases items with
      | nil => exact .cons rfl (.cons rfl (.cons rfl (.nil _)))
      | cons w items => exact .cons rfl (.cons rfl (.cons rfl (steps_values w items [v])))
  | _ => exact .cons rfl (.nil _)

/-- Tokens are read as an expression, whatever it is part of. -/
def ReadsExpr (ts : List (Token Value)) (e : Expr) : Prop :=
  ∀ frames, ∃ m, m.expr? = some e ∧ Steps ⟨.start, [], frames⟩ ts ⟨m, [], frames⟩

/-- Expressions with commas between them, where a comma puts an expression to those before it. -/
theorem steps_separated {items : List Expr → Frame}
    (hcomma : ∀ m e es, m.expr? = some e →
      step ⟨m, [], items es :: frames⟩ (.symbol .comma) =
        some ⟨.start, [], items (es ++ [e]) :: frames⟩)
    {ts : List (Token Value)} {tss : List (List (Token Value))} {es : List Expr}
    (h : ReadsExpr ts e) (hs : List.Forall₂ ReadsExpr tss es) (before : List Expr) :
    ∃ m last init, m.expr? = some last ∧ init ++ [last] = before ++ e :: es ∧
      Steps ⟨.start, [], items before :: frames⟩ (Token.separated (ts :: tss))
        ⟨m, [], items init :: frames⟩ := by
  induction hs generalizing ts e before with
  | nil =>
    obtain ⟨m, hm, hsteps⟩ := h (items before :: frames)
    exact ⟨m, e, before, hm, rfl, hsteps⟩
  | cons h' _ ih =>
    obtain ⟨m, hm, hsteps⟩ := h (items before :: frames)
    obtain ⟨m', last, init, hm', hinit, hsteps'⟩ := ih h' (before ++ [e])
    rw [List.append_assoc, List.singleton_append] at hinit
    exact ⟨m', last, init, hm', hinit, hsteps.append (.cons (hcomma m e before hm) hsteps')⟩

/-- The items of a membership test. -/
theorem steps_members (frames : List Frame) (tested : Expr) (negated : Bool)
    {ts : List (Token Value)} {tss : List (List (Token Value))} {es : List Expr}
    (h : ReadsExpr ts e) (hs : List.Forall₂ ReadsExpr tss es) :
    Steps ⟨.start, [], .member tested negated [] :: frames⟩
      (Token.separated (ts :: tss) ++ [.symbol .closing])
      ⟨.done (.inList tested (e :: es) negated), [], frames⟩ := by
  have hcomma : ∀ m e es, m.expr? = some e →
      step ⟨m, [], .member tested negated es :: frames⟩ (.symbol .comma) =
        some ⟨.start, [], .member tested negated (es ++ [e]) :: frames⟩ :=
    fun m e es hm => congrArg (Option.map _) hm
  obtain ⟨m, last, init, hm, hinit, hsteps⟩ := steps_separated hcomma h hs []
  rw [List.nil_append] at hinit
  rw [← hinit]
  exact hsteps.concat (congrArg (Option.map _) hm)

/-- The reader has read a query so far, which is part of the rest. -/
structure Holds (r : Reader) (q : Select) (frames : List Frame) : Prop where
  pending_eq : r.pending = []
  select?_eq : r.mode.select? r.frames = some (q, frames)

theorem select?_column (h : m.expr? = some e) (columns : List Expr) :
    m.select? (.column columns :: frames) = some (⟨columns ++ [e], none, [], none⟩, frames) := by
  cases m <;> simp_all [Mode.expr?, Mode.select?]

theorem holds_columns (frames : List Frame) {tss : List (List (Token Value))} {es : List Expr}
    (h : List.Forall₂ ReadsExpr tss es) :
    ∃ r, Steps ⟨.start, [], .column [] :: frames⟩ (Token.separated tss) r ∧
      r.Holds ⟨es, none, [], none⟩ frames := by
  cases h with
  | nil => exact ⟨_, .nil _, rfl, rfl⟩
  | cons h hs =>
    have hcomma : ∀ m e es, m.expr? = some e →
        step ⟨m, [], .column es :: frames⟩ (.symbol .comma) =
          some ⟨.start, [], .column (es ++ [e]) :: frames⟩ :=
      fun m e es hm => congrArg (Option.map _) hm
    obtain ⟨m, last, init, hm, hinit, hsteps⟩ := steps_separated hcomma h hs []
    refine ⟨_, hsteps, rfl, ?_⟩
    rw [select?_column hm, hinit]
    rfl

variable {r : Reader} {q : Select}

theorem Holds.source {columns : List Expr} {joins : List Join} {condition : Option Expr}
    (h : r.Holds ⟨columns, none, joins, condition⟩ frames) (f : Option From) :
    ∃ r', Steps r (sourceTokens f) r' ∧ r'.Holds ⟨columns, f, joins, condition⟩ frames := by
  obtain ⟨m, pending, outer⟩ := r
  obtain ⟨rfl, hselect⟩ := h
  cases f with
  | none => exact ⟨_, .nil _, rfl, hselect⟩
  | some f =>
    obtain ⟨table, asName⟩ := f
    have htable : step ⟨m, [.fromTable], outer⟩ (.name table) =
        some ⟨.clauses ⟨columns, some ⟨table, none⟩, joins, condition⟩, [], frames⟩ :=
      congrArg (Option.map _) hselect
    cases asName with
    | none => exact ⟨_, .cons rfl (.cons htable (.nil _)), rfl, rfl⟩
    | some a => exact ⟨_, .cons rfl (.cons htable (.cons rfl (.cons rfl (.nil _)))), rfl, rfl⟩

/-- A joined table as far as its condition. -/
theorem Holds.joining (h : r.Holds q frames) (kind : JoinKind) (table : String)
    (asName : Option String) :
    Steps r (symbols kind.symbols ++ .name table :: aliasTokens asName)
      ⟨.joining q kind table asName, [], frames⟩ := by
  obtain ⟨m, pending, outer⟩ := r
  obtain ⟨rfl, hselect⟩ := h
  have hkind : Steps ⟨m, [], outer⟩ (symbols kind.symbols) ⟨m, kind.symbols, outer⟩ := by
    cases kind <;> exact .cons rfl (.cons rfl (.nil _))
  have htable : step ⟨m, kind.symbols, outer⟩ (.name table) =
      some ⟨.joining q kind table none, [], frames⟩ := by
    cases kind <;> exact congrArg (Option.map _) hselect
  cases asName with
  | none => exact hkind.append (.cons htable (.nil _))
  | some a => exact hkind.append (.cons htable (.cons rfl (.cons rfl (.nil _))))

/-- The condition of a joined table ends with it. -/
theorem Holds.join (h : m.expr? = some e) (kind : JoinKind) (table : String)
    (asName : Option String) (frames : List Frame) :
    Holds ⟨m, [], .joined q kind table asName :: frames⟩ (q.join ⟨kind, table, asName, e⟩)
      frames :=
  ⟨rfl, by cases m <;> simp_all [Mode.expr?, Mode.select?]⟩

/-- The condition of a query ends with it. -/
theorem Holds.filter (h : m.expr? = some e) (frames : List Frame) :
    Holds ⟨m, [], .condition q :: frames⟩ (q.filter e) frames :=
  ⟨rfl, by cases m <;> simp_all [Mode.expr?, Mode.select?]⟩

/-- The condition of a query. -/
theorem Holds.whereRows (h : r.Holds q frames) :
    r.step (.symbol .whereRows) = some ⟨.start, [], .condition q :: frames⟩ := by
  obtain ⟨m, pending, outer⟩ := r
  obtain ⟨rfl, hselect⟩ := h
  exact congrArg (Option.map _) hselect

/-- The closing parenthesis of a query. -/
theorem Holds.closing {tested : Expr} {negated : Bool}
    (h : r.Holds q (.subquery tested negated :: frames)) :
    r.step (.symbol .closing) = some ⟨.done (.inSubquery tested q negated), [], frames⟩ := by
  obtain ⟨m, pending, outer⟩ := r
  obtain ⟨rfl, hselect⟩ := h
  cases m with
  | clauses q =>
    cases hselect
    rfl
  | start | marked | done | joining =>
    cases outer with
    | nil => cases hselect
    | cons frame outer => cases frame <;> cases hselect <;> rfl

end Reader

open Reader

mutual

theorem Expr.steps : (e : Expr) → ∀ frames, Steps ⟨.start, [], frames⟩ e.tokens ⟨e.mode, [], frames⟩
  | .column none n => fun frames => .cons rfl (.nil _)
  | .column (some q) n => fun frames => .cons rfl (.cons rfl (.cons rfl (.nil _)))
  | .value v => fun frames => by
    rw [Expr.tokens]
    exact steps_value v
  | .binary l op r => fun frames => by
    rw [Expr.tokens]
    have hl : Steps ⟨.start, [], frames⟩ (.symbol .opening :: l.tokens)
        ⟨l.mode, [], .group :: frames⟩ := .cons rfl (l.steps _)
    have hr : Steps ⟨l.mode, [], .group :: frames⟩ (.symbol op.symbol :: r.tokens)
        ⟨r.mode, [], .operation l.normal op :: frames⟩ :=
      .cons (step_operation l.expr?_mode op) (r.steps _)
    exact (hl.append hr).concat (congrArg (Option.map _) r.expr?_mode)
  | .wildcard none => fun frames => .cons rfl (.nil _)
  | .wildcard (some q) => fun frames => .cons rfl (.cons rfl (.cons rfl (.nil _)))
  | .inList _ [] negated => fun frames => by
    cases negated <;>
      exact .cons rfl (.cons rfl (.cons rfl (.cons rfl (.cons rfl (.nil _)))))
  | .inList e (x :: xs) negated => fun frames => by
    have hx : ReadsExpr x.tokens x.normal := fun frames => ⟨x.mode, x.expr?_mode, x.steps frames⟩
    have htested := (e.steps frames).append (steps_membership e.expr?_mode negated)
    have hitems := steps_members frames e.normal negated hx (exprs_steps xs)
    rw [Expr.tokens, ← List.append_assoc, List.append_assoc _ _ [_]]
    exact htested.append hitems
  | .inSubquery e q negated => fun frames => by
    have htested := (e.steps frames).append (steps_membership e.expr?_mode negated)
    obtain ⟨ts, hts, r, hsteps, hholds⟩ := q.steps (.subquery e.normal negated :: frames)
    rw [Expr.tokens, hts, ← List.append_assoc, List.append_assoc _ _ [_]]
    exact htested.append (.cons rfl (hsteps.concat hholds.closing))
  | .isNull e negated => fun frames => by
    rw [Expr.tokens]
    exact (e.steps frames).append (steps_nullTest e.expr?_mode negated)
  | .nested e => fun frames => by
    rw [Expr.tokens]
    cases h : e.isBinary with
    | true =>
      cases e with
      | binary l op r => exact (Expr.binary l op r).steps frames
      | _ => cases h
    | false =>
      have he : Steps ⟨.start, [], frames⟩ (.symbol .opening :: e.tokens)
          ⟨e.mode, [], .group :: frames⟩ := .cons rfl (e.steps _)
      exact he.concat (step_closing_group e h)

theorem exprs_steps :
    (es : List Expr) → List.Forall₂ ReadsExpr (exprsTokens es) (exprsNormal es)
  | [] => by
    rw [exprsTokens, exprsNormal]
    exact .nil
  | e :: es => by
    rw [exprsTokens, exprsNormal]
    exact .cons (fun frames => ⟨e.mode, e.expr?_mode, e.steps frames⟩) (exprs_steps es)

theorem joins_steps : (js : List Join) → ∀ {r : Reader} {frames : List Frame}
    {columns : List Expr} {source : Option From} {joins : List Join} {condition : Option Expr},
    r.Holds ⟨columns, source, joins, condition⟩ frames →
      ∃ r', Steps r (joinsTokens js) r' ∧
        r'.Holds ⟨columns, source, joins ++ joinsNormal js, condition⟩ frames
  | [], r, _, _, _, _, _, h => by
    rw [joinsTokens, joinsNormal, List.append_nil]
    exact ⟨r, .nil r, h⟩
  | ⟨kind, table, asName, on⟩ :: js, _, frames, columns, source, joins, condition, h => by
    rw [joinsTokens, joinsNormal, Join.tokens, Join.normal]
    let q : Select := ⟨columns, source, joins, condition⟩
    have hon : Steps ⟨.joining q kind table asName, [], frames⟩ (.symbol .on :: on.tokens)
        ⟨on.mode, [], .joined q kind table asName :: frames⟩ := .cons rfl (on.steps _)
    have hholds := Holds.join (q := q) on.expr?_mode kind table asName frames
    obtain ⟨r', hsteps, hr'⟩ := joins_steps js hholds
    rw [List.append_assoc, List.singleton_append] at hr'
    exact ⟨r', ((h.joining kind table asName).append hon).append hsteps, hr'⟩

theorem condition_steps : (c : Option Expr) → ∀ {r : Reader} {frames : List Frame}
    {columns : List Expr} {source : Option From} {joins : List Join},
    r.Holds ⟨columns, source, joins, none⟩ frames →
      ∃ r', Steps r (conditionTokens c) r' ∧
        r'.Holds ⟨columns, source, joins, conditionNormal c⟩ frames
  | none, r, _, _, _, _, h => by
    rw [conditionTokens, conditionNormal]
    exact ⟨r, .nil r, h⟩
  | some e, _, _, _, _, _, h => by
    rw [conditionTokens, conditionNormal]
    exact ⟨_, .cons h.whereRows (e.steps _), .filter e.expr?_mode _⟩

theorem Select.steps : (q : Select) → ∀ frames, ∃ ts, q.tokens = .symbol .select :: ts ∧
    ∃ r, Steps ⟨.start, [], .column [] :: frames⟩ ts r ∧ r.Holds q.normal frames
  | ⟨columns, source, joins, condition⟩, frames => by
    rw [Select.tokens, Select.normal]
    obtain ⟨r₁, hcolumns, h₁⟩ := holds_columns frames (exprs_steps columns)
    obtain ⟨r₂, hsource, h₂⟩ := h₁.source source
    obtain ⟨r₃, hjoins, h₃⟩ := joins_steps joins h₂
    obtain ⟨r₄, hcondition, h₄⟩ := condition_steps condition h₃
    exact ⟨_, rfl, r₄, ((hcolumns.append hsource).append hjoins).append hcondition, h₄⟩

end

/-- The expression that tokens are, if they are one. -/
def readExpr? (ts : List (Token Value)) : Option Expr :=
  (ts.foldlM step ⟨.start, [], []⟩).bind fun
    | ⟨m, [], []⟩ => m.expr?
    | _ => none

/-- The query that tokens are, if they are one. -/
def readSelect? (ts : List (Token Value)) : Option Select :=
  (ts.foldlM step ⟨.start, [], []⟩).bind fun
    | ⟨m, [], frames⟩ => match m.select? frames with
      | some (q, []) => some q
      | _ => none
    | _ => none

theorem readExpr?_tokens (e : Expr) : readExpr? e.tokens = some e.normal := by
  have hsteps : e.tokens.foldlM step ⟨.start, [], []⟩ = some ⟨e.mode, [], []⟩ := e.steps []
  rw [readExpr?, hsteps]
  exact e.expr?_mode

theorem readSelect?_tokens (q : Select) : readSelect? q.tokens = some q.normal := by
  obtain ⟨ts, hts, ⟨m, pending, frames⟩, hsteps, rfl, hselect⟩ := q.steps []
  have hread : q.tokens.foldlM step ⟨.start, [], []⟩ = some ⟨m, [], frames⟩ :=
    hts ▸ Steps.cons rfl hsteps
  have hselect' : m.select? frames = some (q.normal, []) := hselect
  rw [readSelect?, hread]
  simp [hselect']

/-! ## Equal statements -/

/-- Equal statements hold the same tokens. -/
theorem Reads.tokens_eq {d : Dialect} {fs gs : List Fragment} {ts us : List (Token Value)}
    (h : Reads d Parts fs ts) (h' : Reads d Parts gs us)
    (heq : Statement.ofFragments d fs = .ofFragments d gs) : ts = us := by
  obtain ⟨htext, hparams⟩ := Statement.mk.inj heq
  have hnumber : number d 0 ts = number d 0 us :=
    Option.some.inj (by rw [← h.scan_text, htext, h'.scan_text])
  have hmarks : marks ts = marks us := by rw [← h.params_eq, hparams, h'.params_eq]
  refine Option.some.inj ?_
  calc some ts = fill? (number d 0 ts) (marks ts) := (fill?_number d 0 ts).symm
    _ = fill? (number d 0 us) (marks us) := by rw [hnumber, hmarks]
    _ = some us := fill?_number d 0 us

/-- Two expressions, or two queries, are written alike exactly if they have the same normal form. -/
theorem statement_eq_iff_normal_eq (d : Dialect) :
    (∀ a b : Expr, a.statement d = b.statement d ↔ a.normal = b.normal) ∧
      ∀ a b : Select, a.statement d = b.statement d ↔ a.normal = b.normal := by
  refine ⟨fun a b => ⟨fun h => ?_, fun h => ?_⟩, fun a b => ⟨fun h => ?_, fun h => ?_⟩⟩
  · have htokens : a.tokens = b.tokens := (a.reads d).tokens_eq (b.reads d) h
    exact Option.some.inj (by rw [← readExpr?_tokens, htokens, readExpr?_tokens])
  · rw [Expr.statement, Expr.statement, ← a.fragments_normal, h, b.fragments_normal]
  · have htokens : a.tokens = b.tokens := (a.reads d).tokens_eq (b.reads d) h
    exact Option.some.inj (by rw [← readSelect?_tokens, htokens, readSelect?_tokens])
  · rw [Select.statement, Select.statement, ← a.fragments_normal, h, b.fragments_normal]

end DocFilter.Sql
