import DocFilter.Proofs.Sql.Evaluation

/-!
# Predicates as conditions

Adding predicates to a condition adds parts to it, each an expression with a connective
(`Sql.Where.parts_addAll`). What a predicate says is what its part says (`Predicate.holds`).

Parts are joined from the left, without precedence. When all parts have the same connective this is
a plain conjunction or disjunction, and that is so for predicates that are joined by one connective
at every level (`Predicate.Joined`): the condition of such a group says what the connective makes of
its members (`Predicate.holds_group`).
-/

namespace DocFilter

/-- What a connective makes of several conditions. -/
def Connective.combine : Connective → List Bool → Bool
  | .and, bs => bs.all id
  | .or, bs => bs.any id

namespace Sql

variable {α : Type}

/-! ## Subqueries -/

/-- A condition of a subquery as an expression. -/
def filterExpr : SubqueryFilter → Expr
  | .comparison column comparator v => comparisonExpr column comparator v
  | .nullTest column negated => nullTestExpr column negated

/-- The query that a subquery is written as. -/
def queryOf (q : Subquery) : Select where
  columns := [columnExpr q.select]
  source := some ⟨q.source, none⟩
  joins := q.join.toList.map fun j =>
    ⟨.inner, j.table, none, .binary (columnExpr j.left) .eq (columnExpr j.right)⟩
  condition := Conditions.build? ⟨q.filters.map fun f => (.and, filterExpr f)⟩

theorem Subselect.foldl_filter (fs : List SubqueryFilter) (s : Subselect) :
    fs.foldl Subselect.filter s =
      { s with conditions := ⟨s.conditions.parts ++ fs.map fun f => (.and, filterExpr f)⟩ } := by
  induction fs generalizing s with
  | nil => simp
  | cons f fs ih =>
    have hstep : s.filter f =
        { s with conditions := ⟨s.conditions.parts ++ [(.and, filterExpr f)]⟩ } := by
      cases f <;> rfl
    rw [List.foldl_cons, ih, hstep]
    simp

/-- A subquery always has a table, and so is never left out. -/
theorem Subselect.build?_ofSubquery (q : Subquery) :
    (Subselect.ofSubquery q).build? = some (queryOf q) := by
  unfold Subselect.ofSubquery
  rw [Subselect.foldl_filter]
  obtain ⟨select, source, join, filters⟩ := q
  cases join <;> rfl

/-! ## Parts of a condition -/

mutual

/-- The part that a predicate adds to a condition. A group without parts adds none. -/
def parts : Predicate → List (Connective × Expr)
  | .comparison c column comparator v => [(c, comparisonExpr column comparator v)]
  | .nullTest c column negated => [(c, nullTestExpr column negated)]
  | .group c _ ps => match Conditions.build? ⟨allParts ps⟩ with
    | none => []
    | some e => [(c, .nested e)]
  | .membership c base m q => [(c, .inSubquery (columnExpr base) (queryOf q) m.isNegated)]

/-- The parts that predicates add to a condition. -/
def allParts : List Predicate → List (Connective × Expr)
  | [] => []
  | p :: ps => parts p ++ allParts ps

end

namespace Where

mutual

theorem parts_add (w : Where) :
    ∀ p, (w.add p).conditions.parts = w.conditions.parts ++ Sql.parts p
  | .comparison .. => by rw [add, Sql.parts]; rfl
  | .nullTest .. => by rw [add, Sql.parts]; rfl
  | .group c inner ps => by
    have hinner : (addAll {} ps).conditions = ⟨allParts ps⟩ :=
      congrArg Conditions.mk (parts_addAll {} ps)
    rw [add, Sql.parts, Where.group, hinner, Conditions.pushGroup]
    cases Conditions.build? ⟨allParts ps⟩ with
    | none => simp
    | some e => simp [Conditions.push]
  | .membership c base m q => by
    rw [add, Sql.parts, Where.member, Subselect.build?_ofSubquery]
    rfl

/-- Predicates add their parts in order. -/
theorem parts_addAll (w : Where) :
    ∀ ps, (w.addAll ps).conditions.parts = w.conditions.parts ++ allParts ps
  | [] => by rw [addAll, allParts, List.append_nil]
  | p :: ps => by
    rw [addAll, parts_addAll (w.add p) ps, parts_add w p, allParts, List.append_assoc]

end

end Where

/-! ## What parts say -/

/-- Whether a condition is true. -/
def Expr.holds (db : Database α) (env : Env α) (e : Expr) : Bool := e.truth db env == .true

theorem Expr.holds_eq_true {db : Database α} {env : Env α} {e : Expr} :
    e.holds db env = true ↔ e.truth db env = .true := beq_iff_eq

theorem Expr.holds_binary (db : Database α) (env : Env α) (c : Connective) (l r : Expr) :
    (Expr.binary l (connectiveOp c) r).holds db env =
      c.combine [l.holds db env, r.holds db env] := by
  rw [Bool.eq_iff_iff]
  cases c <;>
    simp [Expr.holds_eq_true, connectiveOp, Expr.truth, Connective.combine]

theorem Connective.combine_combine (c : Connective) (a b : Bool) (bs : List Bool) :
    c.combine (c.combine [a, b] :: bs) = c.combine (a :: b :: bs) := by
  cases c <;> simp [Connective.combine, Bool.and_assoc, Bool.or_assoc]

/-- Expressions that are joined from the left by one connective. -/
theorem Expr.holds_foldl (db : Database α) (env : Env α) (c : Connective) (e : Expr)
    (es : List Expr) :
    (es.foldl (fun acc x => Expr.binary acc (connectiveOp c) x) e).holds db env =
      c.combine ((e :: es).map (·.holds db env)) := by
  induction es generalizing e with
  | nil => cases c <;> simp [Connective.combine]
  | cons x es ih =>
    rw [List.foldl_cons, ih, List.map_cons, Expr.holds_binary, Connective.combine_combine]
    rfl

/-- The condition built from parts that have one connective. -/
theorem Conditions.build?_eq_some (c : Connective) (e : Expr) (es : List Expr) :
    Conditions.build? ⟨(e :: es).map (Prod.mk c)⟩ =
      some (es.foldl (fun acc x => Expr.binary acc (connectiveOp c) x) e) := by
  simp [Conditions.build?, List.foldl_map]

/-- What the condition built from parts that are joined by `and` says. -/
theorem conditionHolds_build? (db : Database α) (env : Env α) (es : List Expr) :
    conditionHolds db (Conditions.build? ⟨es.map (Prod.mk .and)⟩) env =
      Connective.and.combine (es.map (·.holds db env)) := by
  cases es with
  | nil => rfl
  | cons e es =>
    rw [Conditions.build?_eq_some, conditionHolds]
    exact Expr.holds_foldl db env .and e es

end Sql

namespace Predicate

variable {α : Type} (db : Database α) (env : Sql.Env α)

/-- Whether what a predicate says is true. -/
def holds (p : Predicate) : Bool := (Sql.parts p).all (·.2.holds db env)

/-- A predicate that is joined by `c`, with groups that are not empty and whose members are joined
by the connective of the group. -/
inductive Joined : Connective → Predicate → Prop
  | comparison (c : Connective) (column : Column) (op : Comparator) (v : Value) :
      Joined c (.comparison c column op v)
  | nullTest (c : Connective) (column : Column) (negated : Bool) :
      Joined c (.nullTest c column negated)
  | membership (c : Connective) (base : Column) (m : Membership) (q : Subquery) :
      Joined c (.membership c base m q)
  | group (c : Connective) {inner : Connective} {ps : List Predicate} (nonempty : ps ≠ [])
      (members : ∀ p ∈ ps, Joined inner p) : Joined c (.group c inner ps)

@[simp] theorem holds_comparison (c : Connective) (column : Column) (op : Comparator) (v : Value) :
    (comparison c column op v).holds db env = (Sql.comparisonExpr column op v).holds db env := by
  simp [holds, Sql.parts]

@[simp] theorem holds_nullTest (c : Connective) (column : Column) (negated : Bool) :
    (nullTest c column negated).holds db env = (Sql.nullTestExpr column negated).holds db env := by
  simp [holds, Sql.parts]

@[simp] theorem holds_membership (c : Connective) (base : Column) (m : Membership) (q : Subquery) :
    (membership c base m q).holds db env =
      (Sql.Expr.inSubquery (Sql.columnExpr base) (Sql.queryOf q) m.isNegated).holds db env := by
  simp [holds, Sql.parts]

variable {c inner : Connective} {p : Predicate} {ps : List Predicate}

theorem allParts_of_parts (h : ∀ p ∈ ps, ∃ e, Sql.parts p = [(c, e)]) :
    ∃ es : List Sql.Expr, Sql.allParts ps = es.map (Prod.mk c) ∧
      es.map (·.holds db env) = ps.map (·.holds db env) := by
  induction ps with
  | nil => exact ⟨[], rfl, rfl⟩
  | cons p ps ih =>
    obtain ⟨hp, hps⟩ := List.forall_mem_cons.mp h
    obtain ⟨e, he⟩ := hp
    obtain ⟨es, hes, hholds⟩ := ih hps
    refine ⟨e :: es, ?_, ?_⟩
    · rw [Sql.allParts, he, hes]
      rfl
    · simp [hholds, holds, he]

/-- Predicates that are joined add one part each. -/
theorem Joined.parts (h : p.Joined c) : ∃ e, Sql.parts p = [(c, e)] := by
  induction h with
  | comparison | nullTest | membership => exact ⟨_, by rw [Sql.parts]⟩
  | @group c inner ps hne hps ih =>
    obtain ⟨p, rest, rfl⟩ := List.exists_cons_of_ne_nil hne
    obtain ⟨e, he⟩ := ih p List.mem_cons_self
    rw [Sql.parts, Sql.allParts, he]
    exact ⟨_, rfl⟩

/-- A group says what its connective makes of its members. -/
theorem holds_group (hne : ps ≠ []) (h : ∀ p ∈ ps, p.Joined inner) :
    (group c inner ps).holds db env = inner.combine (ps.map (·.holds db env)) := by
  obtain ⟨es, hes, hholds⟩ := allParts_of_parts db env fun p hp => (h p hp).parts
  cases es with
  | nil => simp_all
  | cons e es =>
    rw [holds, Sql.parts, hes, Sql.Conditions.build?_eq_some, ← hholds, ← Sql.Expr.holds_foldl]
    simp [Sql.Expr.holds, Sql.Expr.truth]

end Predicate

namespace CompiledFilter

variable {α : Type} {db : Database α} {row : Row α} {f : CompiledFilter}

theorem whereTruth_toWhere : f.select.whereTruth db row = .true ↔
    Sql.conditionHolds db f.toWhere.build? (Sql.Env.empty.bind f.base row) = true := by
  unfold select Sql.Where.select
  cases f.toWhere.build? with
  | none => exact iff_of_true rfl rfl
  | some e => exact beq_iff_eq.symm

/-- The condition of a compiled filter is the conjunction of its predicates. Without any, there is
no condition. -/
theorem whereTruth_select (h : ∀ p ∈ f.predicates, p.Joined .and) :
    f.select.whereTruth db row = .true ↔
      ∀ p ∈ f.predicates, p.holds db (Sql.Env.empty.bind f.base row) = true := by
  obtain ⟨es, hes, hholds⟩ := Predicate.allParts_of_parts db (Sql.Env.empty.bind f.base row)
    fun p hp => (h p hp).parts
  have hbuild : f.toWhere.build? = Sql.Conditions.build? ⟨es.map (Prod.mk .and)⟩ :=
    congrArg (Sql.Conditions.build? ∘ Sql.Conditions.mk)
      ((Sql.Where.parts_addAll {} f.predicates).trans hes)
  rw [whereTruth_toWhere, hbuild, Sql.conditionHolds_build?, hholds]
  simp [Connective.combine]

end CompiledFilter

end DocFilter
