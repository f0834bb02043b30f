import DocFilter.Sql.Where

/-!
# Conditions on rows

What the queries of `Sql.Expr` say about a database. A column of a row may be null, and a comparison
with null is neither true nor false; conditions are therefore decided in three-valued logic
(`Sql.Truth`), and a query keeps a row only when its condition is true.

How values compare is left open: a `Database` brings its own comparisons and its own values for the
operands. A membership test is a disjunction of equalities, and its negation is the negation of
that, so that nothing is outside a list with null unless it equals one of the other items.
-/

namespace DocFilter

/-- A row: the value of each column, if it is not null. -/
abbrev Row (α : Type) := String → Option α

/-- The rows of tables, and how values are written and compared. -/
structure Database (α : Type) where
  /-- The rows of a table. -/
  rows : String → List (Row α)
  /-- The value that an operand stands for, when it is not null. -/
  literal : Value → α
  /-- Whether a comparison holds between two values. -/
  compare : Sql.BinaryOp → α → α → Bool

namespace Sql

/-! ## Three-valued logic -/

/-- What a condition says about a row. -/
inductive Truth where
  | true
  | false
  | unknown
  deriving DecidableEq

namespace Truth

/-- A condition that is never unknown. -/
def ofBool (b : Bool) : Truth := if b then .true else .false

/-- Negation. -/
def not : Truth → Truth
  | .true => .false
  | .false => .true
  | .unknown => .unknown

/-- Conjunction. -/
def and : Truth → Truth → Truth
  | .true, b => b
  | .false, _ => .false
  | .unknown, .false => .false
  | .unknown, _ => .unknown

/-- Disjunction. -/
def or : Truth → Truth → Truth
  | .false, b => b
  | .true, _ => .true
  | .unknown, .true => .true
  | .unknown, _ => .unknown

/-- Disjunction of several conditions; without any it is false. -/
def any (ts : List Truth) : Truth := ts.foldr or .false

/-- Negation, if it is asked for. -/
def negateIf (negated : Bool) (t : Truth) : Truth := if negated then t.not else t

@[simp] theorem ofBool_eq_true (b : Bool) : ofBool b = .true ↔ b = .true := by
  cases b <;> simp [ofBool]

@[simp] theorem ofBool_eq_false (b : Bool) : ofBool b = .false ↔ b = .false := by
  cases b <;> simp [ofBool]

@[simp] theorem not_eq_true (a : Truth) : a.not = .true ↔ a = .false := by
  cases a <;> simp [not]

@[simp] theorem and_eq_true (a b : Truth) : a.and b = .true ↔ a = .true ∧ b = .true := by
  cases a <;> cases b <;> simp [and]

@[simp] theorem or_eq_true (a b : Truth) : a.or b = .true ↔ a = .true ∨ b = .true := by
  cases a <;> cases b <;> simp [or]

theorem or_eq_false (a b : Truth) : a.or b = .false ↔ a = .false ∧ b = .false := by
  cases a <;> cases b <;> simp [or]

/-- A disjunction is true when one of its conditions is. -/
theorem any_eq_true (ts : List Truth) : any ts = .true ↔ .true ∈ ts := by
  induction ts with
  | nil => simp [any]
  | cons t ts ih =>
    have hstep : any (t :: ts) = t.or (any ts) := rfl
    rw [hstep, or_eq_true, ih, List.mem_cons, eq_comm]

/-- A disjunction is false when all of its conditions are, and not when one is unknown. -/
theorem any_eq_false (ts : List Truth) : any ts = .false ↔ ∀ t ∈ ts, t = .false := by
  induction ts with
  | nil => simp [any]
  | cons t ts ih =>
    have hstep : any (t :: ts) = t.or (any ts) := rfl
    rw [hstep, or_eq_false, ih, List.forall_mem_cons]

end Truth

/-! ## Evaluation -/

/-- The current row of each table. Of two tables with the same name the inner one counts. -/
abbrev Env (α : Type) := String → Row α

namespace Env

variable {α : Type}

/-- No table has a row yet. -/
def empty : Env α := fun _ _ => none

/-- Gives a table its current row. -/
def bind (env : Env α) (table : String) (row : Row α) : Env α :=
  fun t => if t = table then row else env t

@[simp] theorem bind_same (env : Env α) (table : String) (row : Row α) :
    env.bind table row table = row := if_pos rfl

theorem bind_other {env : Env α} {table t : String} {row : Row α} (h : t ≠ table) :
    env.bind table row t = env t := if_neg h

end Env

variable {α : Type}

/-- A comparison of two cells; with null it is unknown. -/
def compareCells (db : Database α) (op : BinaryOp) : Option α → Option α → Truth
  | some a, some b => .ofBool (db.compare op a b)
  | _, _ => .unknown

/-- The cell that an operand stands for. -/
def operandCell (db : Database α) : Value → Option α
  | .null => none
  | v => some (db.literal v)

/-- The cell that an expression stands for; a condition stands for none. A column without a table
has no row to be looked up in. -/
def Expr.cell (db : Database α) (env : Env α) : Expr → Option α
  | .column (some table) name => env table name
  | .value v => operandCell db v
  | .nested e => e.cell db env
  | _ => none

mutual

/-- What an expression says as a condition; a column or an operand says nothing. -/
def Expr.truth (db : Database α) (env : Env α) : Expr → Truth
  | .binary l .and r => (l.truth db env).and (r.truth db env)
  | .binary l .or r => (l.truth db env).or (r.truth db env)
  | .binary l op r => compareCells db op (l.cell db env) (r.cell db env)
  | .inList e items negated =>
    (Truth.any (items.map fun x => compareCells db .eq (e.cell db env) (x.cell db env))).negateIf
      negated
  | .inSubquery e q negated =>
    (Truth.any ((q.results db env).map (compareCells db .eq (e.cell db env)))).negateIf negated
  | .isNull e negated => .ofBool ((e.cell db env).isNone != negated)
  | .nested e => e.truth db env
  | .column _ _ => .unknown
  | .value _ => .unknown
  | .wildcard _ => .unknown

/-- The first column of the rows that a query gives. -/
def Select.results (db : Database α) (env : Env α) : Select → List (Option α)
  | ⟨columns, source, joins, condition⟩ =>
    let start := match source with
      | none => [env]
      | some f => (db.rows f.table).map (env.bind (f.asName.getD f.table))
    ((start.flatMap (joinedEnvs db joins)).filter (conditionHolds db condition)).map fun env =>
      columns.head?.bind (·.cell db env)

/-- The rows of joined tables, added to the current rows. A left join without a partner adds a row
of nulls. -/
def joinedEnvs (db : Database α) : List Join → Env α → List (Env α)
  | [], env => [env]
  | ⟨kind, table, asName, condition⟩ :: joins, env =>
    let envs := (db.rows table).map (env.bind (asName.getD table))
    let partners := envs.filter fun env => condition.truth db env == .true
    let kept := match kind with
      | .inner => partners
      | .left => if partners.isEmpty then [env.bind (asName.getD table) fun _ => none] else partners
    kept.flatMap (joinedEnvs db joins)

/-- Whether the current rows meet a condition. Without a condition they do. -/
def conditionHolds (db : Database α) : Option Expr → Env α → Bool
  | none, _ => true
  | some e, env => e.truth db env == .true

end

/-- What the condition of a query says about a row of its first table. -/
def Select.whereTruth (db : Database α) (row : Row α) (s : Select) : Truth :=
  match s.source, s.condition with
  | _, none => .true
  | none, some e => e.truth db .empty
  | some f, some e => e.truth db (Env.empty.bind (f.asName.getD f.table) row)

end Sql

end DocFilter
