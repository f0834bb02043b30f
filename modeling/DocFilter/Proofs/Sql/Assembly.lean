import DocFilter.Proofs.Compile.Canonical
import DocFilter.Proofs.Sql.Scanning
import DocFilter.Proofs.Sql.Translation

/-!
# Compiled filters as conditions

A compiled filter is turned into a condition part by part. `Predicate.Expressed` says what a
predicate is expressed as, one form for each kind of predicate. Every predicate of a compiled filter
adds one part, at every depth: no group is empty and no subquery is without a table, so nothing is
left out.
The parameters of the query are the operands of the filter from left to right
(`compile_assembled`).
-/

namespace DocFilter

open Sql

/-! ## What predicates are expressed as -/

/-- The operation of a comparator that compares with one value. -/
def Comparator.operation? : Comparator → Option BinaryOp
  | .eq => some .eq
  | .ne => some .ne
  | .gt => some .gt
  | .ge => some .ge
  | .lt => some .lt
  | .le => some .le
  | .isIn => none
  | .notIn => none

/-- What a comparison of a column is expressed as. -/
inductive Column.Compared (column : Column) : Comparator → Value → Expr → Prop
  | single {op : Comparator} {operation : BinaryOp} (v : Value)
      (h : op.operation? = some operation) :
      Compared column op v (.binary (.column (some column.table) column.name) operation (.value v))
  | isIn (items : List Value) : Compared column .isIn (.list items)
      (.inList (.column (some column.table) column.name) (items.map .value) false)
  | notIn (items : List Value) : Compared column .notIn (.list items)
      (.inList (.column (some column.table) column.name) (items.map .value) true)

/-- What a condition of a subquery is expressed as. -/
inductive SubqueryFilter.Expressed : SubqueryFilter → Expr → Prop
  | comparison {column : Column} {op : Comparator} {v : Value} {e : Expr}
      (compared : column.Compared op v e) : Expressed (.comparison column op v) e
  | nullTest (column : Column) (negated : Bool) : Expressed (.nullTest column negated)
      (.isNull (.column (some column.table) column.name) negated)

/-- Expressions that are joined from the left, each by its own connective. -/
def Sql.joinLeft : Expr → List (Connective × Expr) → Expr
  | e, [] => e
  | e, (c, next) :: rest => joinLeft (.binary e (connectiveOp c) next) rest

/-- What a subquery is expressed as: one column of its table, joined as it says, with all of its
conditions. -/
structure Subquery.Expressed (q : Subquery) (s : Select) : Prop where
  columns : s.columns = [.column (some q.select.table) q.select.name]
  source : s.source = some ⟨q.source, none⟩
  joins : s.joins = q.join.toList.map fun j => ⟨.inner, j.table, none,
    .binary (.column (some j.left.table) j.left.name) .eq
      (.column (some j.right.table) j.right.name)⟩
  condition : ∃ (first : SubqueryFilter × Expr) (rest : List (SubqueryFilter × Expr)),
    q.filters = (first :: rest).map Prod.fst ∧ (∀ m ∈ first :: rest, m.1.Expressed m.2) ∧
      s.condition = some (joinLeft first.2 (rest.map fun m => (.and, m.2)))

/-- What a predicate is expressed as. -/
inductive Predicate.Expressed : Predicate → Expr → Prop
  | comparison (c : Connective) {column : Column} {op : Comparator} {v : Value} {e : Expr}
      (compared : column.Compared op v e) : Expressed (.comparison c column op v) e
  | nullTest (c : Connective) (column : Column) (negated : Bool) :
      Expressed (.nullTest c column negated)
        (.isNull (.column (some column.table) column.name) negated)
  | group (c inner : Connective) (first : Predicate × Expr) (rest : List (Predicate × Expr))
      (members : ∀ m ∈ first :: rest, Expressed m.1 m.2) :
      Expressed (.group c inner ((first :: rest).map Prod.fst))
        (.nested (joinLeft first.2 (rest.map fun m => (m.1.connective, m.2))))
  | membership (c : Connective) (base : Column) (m : Membership) {q : Subquery} {s : Select}
      (subquery : q.Expressed s) : Expressed (.membership c base m q)
        (.inSubquery (.column (some base.table) base.name) s (m == .notIn))

/-! ## Operands -/

/-- The operands of a condition of a subquery, the items of a list one by one. -/
def SubqueryFilter.operands : SubqueryFilter → List Value
  | .comparison _ _ v => v.toList
  | .nullTest _ _ => []

namespace Predicate

mutual

/-- The operands of a predicate from left to right, the items of a list one by one. -/
def operands : Predicate → List Value
  | .comparison _ _ _ v => v.toList
  | .nullTest _ _ _ => []
  | .group _ _ ps => allOperands ps
  | .membership _ _ _ q => q.filters.flatMap SubqueryFilter.operands

/-- The operands of several predicates. -/
def allOperands : List Predicate → List Value
  | [] => []
  | p :: ps => p.operands ++ allOperands ps

/-- The members of each group in a predicate, at every depth. -/
def groups : Predicate → List (List Predicate)
  | .comparison _ _ _ _ => []
  | .nullTest _ _ _ => []
  | .group _ _ ps => ps :: allGroups ps
  | .membership _ _ _ _ => []

/-- The members of each group in several predicates. -/
def allGroups : List Predicate → List (List Predicate)
  | [] => []
  | p :: ps => p.groups ++ allGroups ps

end

theorem allOperands_eq_flatMap (ps : List Predicate) : allOperands ps = ps.flatMap operands := by
  induction ps with
  | nil => rw [allOperands, List.flatMap_nil]
  | cons p ps ih => rw [allOperands, ih, List.flatMap_cons]

theorem allGroups_eq_flatMap (ps : List Predicate) : allGroups ps = ps.flatMap groups := by
  induction ps with
  | nil => rw [allGroups, List.flatMap_nil]
  | cons p ps ih => rw [allGroups, ih, List.flatMap_cons]

end Predicate

namespace Sql

/-- The parameters of an expression. -/
def Expr.params (e : Expr) : List Value := Fragment.params e.fragments

theorem Fragment.params_separated (separator : String) (fss : List (List Fragment)) :
    Fragment.params (Fragment.separated separator fss) = fss.flatMap Fragment.params := by
  induction fss with
  | nil => rfl
  | cons fs rest ih =>
    cases rest with
    | nil => simp [Fragment.separated]
    | cons gs rest =>
      have hstep : Fragment.separated separator (fs :: gs :: rest) =
          fs ++ .raw separator :: Fragment.separated separator (gs :: rest) := rfl
      rw [hstep, Fragment.params_append, Fragment.params, ih]
      rfl

theorem params_exprsFragments (es : List Expr) :
    (exprsFragments es).flatMap Fragment.params = es.flatMap Expr.params := by
  induction es with
  | nil => rfl
  | cons e es ih => rw [exprsFragments, List.flatMap_cons, ih, List.flatMap_cons, Expr.params]

namespace Expr

theorem params_qualifier (q : Option String) : Fragment.params (qualifierFragments q) = [] := by
  cases q <;> rfl

@[simp] theorem params_column (q : Option String) (n : String) : (column q n).params = [] := by
  simp [params, fragments, Fragment.params, Fragment.params_append, params_qualifier]

@[simp] theorem params_value (v : Value) : (value v).params = v.toList := by
  cases v with
  | list items =>
    have hitems : (items.map fun v => [Fragment.param v]).flatMap Fragment.params = items := by
      induction items with
      | nil => rfl
      | cons i items ih => rw [List.map_cons, List.flatMap_cons, ih]; rfl
    show Fragment.params (.raw "(" :: Fragment.separated ", " _ ++ [.raw ")"]) = items
    simp [Fragment.params, Fragment.params_append, Fragment.params_separated, hitems]
  | _ => rfl

@[simp] theorem params_binary (l r : Expr) (op : BinaryOp) :
    (binary l op r).params = l.params ++ r.params := by
  simp [params, fragments, Fragment.params, Fragment.params_append]

@[simp] theorem params_isNull (e : Expr) (negated : Bool) :
    (isNull e negated).params = e.params := by
  simp [params, fragments, Fragment.params, Fragment.params_append]

@[simp] theorem params_nested (e : Expr) : (nested e).params = e.params := by
  rw [params, fragments]
  split <;> simp [params, Fragment.params, Fragment.params_append]

@[simp] theorem params_inSubquery (e : Expr) (q : Select) (negated : Bool) :
    (inSubquery e q negated).params = e.params ++ Fragment.params q.fragments := by
  simp [params, fragments, Fragment.params, Fragment.params_append]

/-- A column has no parameters, so those of a list are all that is written. -/
theorem params_inList (q : Option String) (n : String) (items : List Expr) (negated : Bool) :
    (inList (column q n) items negated).params = items.flatMap params := by
  cases items with
  | nil => rfl
  | cons x xs =>
    simp [params, fragments, Fragment.params, Fragment.params_append, Fragment.params_separated,
      params_exprsFragments, params_qualifier]

theorem params_joinLeft (e : Expr) (rest : List (Connective × Expr)) :
    (joinLeft e rest).params = e.params ++ rest.flatMap (·.2.params) := by
  induction rest generalizing e with
  | nil => simp [joinLeft]
  | cons part rest ih =>
    obtain ⟨c, next⟩ := part
    rw [joinLeft, ih, params_binary, List.flatMap_cons, List.append_assoc]

end Expr

/-- The parameters of a query are those of its columns, its joins and its condition. -/
theorem Select.params_eq (s : Select) : Fragment.params s.fragments =
    s.columns.flatMap Expr.params ++ (s.joins.flatMap (·.condition.params) ++
      s.condition.elim [] Expr.params) := by
  obtain ⟨columns, source, joins, condition⟩ := s
  have hsource : Fragment.params (sourceFragments source) = [] := by
    cases source with
    | none => rfl
    | some f =>
      obtain ⟨table, asName⟩ := f
      cases asName <;> rfl
  have hjoins : Fragment.params (joinsFragments joins) = joins.flatMap (·.condition.params) := by
    induction joins with
    | nil => rfl
    | cons j joins ih =>
      obtain ⟨kind, table, asName, condition⟩ := j
      rw [joinsFragments, Fragment.params_append, Fragment.params, ih, Join.fragments]
      cases asName <;>
        simp [Fragment.params, aliasFragments, Expr.params]
  have hcondition : Fragment.params (conditionFragments condition) =
      condition.elim [] Expr.params := by
    cases condition with
    | none => rfl
    | some e => rfl
  rw [Select.fragments_eq]
  simp [Fragment.params, Fragment.params_append, Fragment.params_separated, params_exprsFragments,
    hsource, hjoins, hcondition]

theorem joinLeft_eq_foldl (e : Expr) (rest : List (Connective × Expr)) :
    joinLeft e rest = rest.foldl (fun acc part => .binary acc (connectiveOp part.1) part.2) e := by
  induction rest generalizing e with
  | nil => rfl
  | cons part rest ih => exact ih _

theorem Conditions.build?_cons (c : Connective) (e : Expr) (rest : List (Connective × Expr)) :
    Conditions.build? ⟨(c, e) :: rest⟩ = some (joinLeft e rest) := by
  rw [joinLeft_eq_foldl]
  rfl

end Sql

/-! ## Subqueries -/

theorem Value.flatMap_toList {items : List Value} (h : ∀ i ∈ items, ∀ inner, i ≠ .list inner) :
    items.flatMap Value.toList = items := by
  induction items with
  | nil => rfl
  | cons i items ih =>
    obtain ⟨hi, hitems⟩ := List.forall_mem_cons.mp h
    have hflat : i.toList = [i] := by
      cases i with
      | list inner => exact absurd rfl (hi inner)
      | _ => rfl
    rw [List.flatMap_cons, hflat, ih hitems]
    rfl

theorem compared_comparisonExpr (column : Column) {op : Comparator} {v : Value} (h : op.Suits v) :
    column.Compared op v (comparisonExpr column op v) ∧
      (comparisonExpr column op v).params = v.toList := by
  have hitems : ∀ items, v = .list items → (items.map Expr.value).flatMap Expr.params = items := by
    intro items hv
    have hflat := Value.flatMap_toList fun i hi => (h.items items hv i hi).2
    simpa [List.flatMap_map] using hflat
  cases op with
  | isIn =>
    obtain ⟨items, rfl⟩ := h.list_iff.mp (Or.inl rfl)
    refine ⟨.isIn items, ?_⟩
    rw [comparisonExpr, columnExpr, Expr.params_inList]
    exact hitems items rfl
  | notIn =>
    obtain ⟨items, rfl⟩ := h.list_iff.mp (Or.inr rfl)
    refine ⟨.notIn items, ?_⟩
    rw [comparisonExpr, columnExpr, Expr.params_inList]
    exact hitems items rfl
  | _ => exact ⟨.single v rfl, by simp [comparisonExpr, columnExpr]⟩

theorem params_nullTestExpr (column : Column) (negated : Bool) :
    (nullTestExpr column negated).params = [] := by
  simp [nullTestExpr, columnExpr]

theorem SubqueryFilter.Selects.expressed {f : SubqueryFilter} (h : f.Selects) :
    f.Expressed (filterExpr f) ∧ (filterExpr f).params = f.operands := by
  cases h with
  | comparison column _ _ suits =>
    obtain ⟨hcompared, hparams⟩ := compared_comparisonExpr column suits
    exact ⟨.comparison hcompared, hparams⟩
  | nullTest column => exact ⟨.nullTest column false, params_nullTestExpr column false⟩

/-- The conditions of a subquery are written as they are, the guard against null included. -/
theorem Subquery.Canonical.filters_expressed {m : Membership} {q : Subquery} (h : q.Canonical m) :
    q.filters ≠ [] ∧
      ∀ f ∈ q.filters, f.Expressed (filterExpr f) ∧ (filterExpr f).params = f.operands := by
  obtain ⟨conditions, hne, hselects, hfilters⟩ := h
  rw [hfilters]
  split
  · refine ⟨by simp, fun f hf => ?_⟩
    rcases List.mem_append.mp hf with hf | hf
    · exact (hselects f hf).expressed
    · obtain rfl := List.mem_singleton.mp hf
      exact ⟨.nullTest q.select true, params_nullTestExpr q.select true⟩
  · exact ⟨hne, fun f hf => (hselects f hf).expressed⟩

theorem Subquery.Canonical.expressed {m : Membership} {q : Subquery} (h : q.Canonical m) :
    q.Expressed (queryOf q) ∧
      Fragment.params (queryOf q).fragments = q.filters.flatMap SubqueryFilter.operands := by
  obtain ⟨hne, hexpressed⟩ := h.filters_expressed
  obtain ⟨first, rest, hfilters⟩ := List.exists_cons_of_ne_nil hne
  have hcondition : (queryOf q).condition =
      some (joinLeft (filterExpr first) (rest.map fun f => (.and, filterExpr f))) := by
    rw [queryOf, hfilters, List.map_cons, Conditions.build?_cons]
  constructor
  · refine ⟨rfl, rfl, rfl, (first, filterExpr first), rest.map fun f => (f, filterExpr f), ?_, ?_,
      ?_⟩
    · simp [hfilters, Function.comp_def]
    · rw [hfilters] at hexpressed
      obtain ⟨hfirst, hrest⟩ := List.forall_mem_cons.mp hexpressed
      refine List.forall_mem_cons.mpr ⟨hfirst.1, List.forall_mem_map.mpr fun f hf => ?_⟩
      exact (hrest f hf).1
    · rw [hcondition, List.map_map]
      rfl
  · have hoperands : q.filters.flatMap SubqueryFilter.operands =
        q.filters.flatMap fun f => (filterExpr f).params :=
      List.flatMap_congr fun f hf => (hexpressed f hf).2.symm
    have hparams : Fragment.params (queryOf q).fragments =
        (joinLeft (filterExpr first) (rest.map fun f => (.and, filterExpr f))).params := by
      have hjoins : (queryOf q).joins.flatMap (·.condition.params) = [] := by
        rw [queryOf]
        cases q.join <;> simp [columnExpr]
      rw [Select.params_eq, hjoins, hcondition]
      simp [queryOf, columnExpr]
    rw [hparams, hoperands, Expr.params_joinLeft, hfilters, List.flatMap_cons, List.flatMap_map]

/-! ## Predicates -/

namespace Predicate

/-- A predicate adds one part to a condition, which is what it is written as and has its operands
for parameters. -/
structure Adds (p : Predicate) (e : Expr) : Prop where
  parts : Sql.parts p = [(p.connective, e)]
  expressed : p.Expressed e
  params : e.params = p.operands

theorem exists_adds_all {ps : List Predicate} (h : ∀ p ∈ ps, ∃ e, p.Adds e) :
    ∃ ms : List (Predicate × Expr), ps = ms.map Prod.fst ∧ ∀ m ∈ ms, m.1.Adds m.2 := by
  induction ps with
  | nil => exact ⟨[], rfl, List.forall_mem_nil _⟩
  | cons p ps ih =>
    obtain ⟨⟨e, he⟩, hps⟩ := List.forall_mem_cons.mp h
    obtain ⟨ms, rfl, hms⟩ := ih hps
    exact ⟨(p, e) :: ms, rfl, List.forall_mem_cons.mpr ⟨he, hms⟩⟩

variable {ms : List (Predicate × Expr)}

theorem allParts_of_adds (h : ∀ m ∈ ms, m.1.Adds m.2) :
    allParts (ms.map Prod.fst) = ms.map fun m => (m.1.connective, m.2) := by
  induction ms with
  | nil => rfl
  | cons m ms ih =>
    obtain ⟨hm, hms⟩ := List.forall_mem_cons.mp h
    rw [List.map_cons, allParts, hm.parts, ih hms]
    rfl

theorem params_of_adds (h : ∀ m ∈ ms, m.1.Adds m.2) :
    ms.flatMap (·.2.params) = allOperands (ms.map Prod.fst) := by
  rw [allOperands_eq_flatMap, List.flatMap_map]
  exact List.flatMap_congr fun m hm => (h m hm).params

variable {c : Connective} {p : Predicate}

/-- Every predicate in canonical form adds its part. In a group there is a first member, and the
others are joined to it. -/
theorem Canonical.adds (h : p.Canonical c) : ∃ e, p.Adds e := by
  induction h with
  | comparison c column suits =>
    obtain ⟨hcompared, hparams⟩ := compared_comparisonExpr column suits
    exact ⟨_, by rw [Sql.parts]; rfl, .comparison c hcompared, by rw [operands]; exact hparams⟩
  | nullTest c column negated =>
    exact ⟨_, by rw [Sql.parts]; rfl, .nullTest c column negated,
      by rw [operands]; exact params_nullTestExpr column negated⟩
  | @membership c base m q canonical =>
    obtain ⟨hexpressed, hparams⟩ := canonical.expressed
    have hnegated : m.isNegated = (m == .notIn) := by cases m <;> rfl
    refine ⟨_, by rw [Sql.parts, hnegated]; rfl, .membership c base m hexpressed, ?_⟩
    rw [Expr.params_inSubquery, hparams, operands]
    simp
  | @group c inner ps nonempty members last ih =>
    obtain ⟨ms, rfl, hms⟩ := exists_adds_all ih
    cases ms with
    | nil => exact absurd rfl nonempty
    | cons first rest =>
      have hparts := allParts_of_adds hms
      have hparams := params_of_adds hms
      refine ⟨_, ?_, .group c inner first rest fun m hm => (hms m hm).expressed, ?_⟩
      · rw [Sql.parts, hparts, List.map_cons, Conditions.build?_cons]
        rfl
      · rw [Expr.params_nested, Expr.params_joinLeft, List.flatMap_map, operands, ← hparams,
          List.flatMap_cons]

/-- No group is empty when its members have been added, at any depth. -/
theorem Canonical.groups_kept (h : p.Canonical c) :
    ∀ ps ∈ p.groups, (Where.addAll {} ps).isEmpty = false := by
  induction h with
  | comparison | nullTest | membership =>
    rw [groups]
    exact List.forall_mem_nil _
  | @group c inner ps nonempty members last ih =>
    rw [groups, allGroups_eq_flatMap]
    refine List.forall_mem_cons.mpr ⟨?_, fun qs hqs => ?_⟩
    · obtain ⟨first, rest, rfl⟩ := List.exists_cons_of_ne_nil nonempty
      obtain ⟨e, he⟩ := (members first List.mem_cons_self).adds
      have hparts : (Where.addAll {} (first :: rest)).conditions.parts =
          (first.connective, e) :: allParts rest := by
        rw [Where.parts_addAll, allParts, he.parts]
        rfl
      rw [Where.isEmpty, Conditions.isEmpty, hparts]
      rfl
    · obtain ⟨p, hp, hqs⟩ := List.mem_flatMap.mp hqs
      exact ih p hp qs hqs

end Predicate

/-! ## Nothing is left out -/

namespace Sql.Where

mutual

theorem tableless_add (w : Where) : ∀ p, (w.add p).tableless = w.tableless
  | .comparison .. => by rw [add]; rfl
  | .nullTest .. => by rw [add]; rfl
  | .group c inner ps => by
    have hinner : (addAll {} ps).tableless = [] := tableless_addAll {} ps
    rw [add, group, hinner, List.append_nil]
  | .membership c base m q => by rw [add, member, Subselect.build?_ofSubquery]

/-- No subquery of a predicate is without a table. -/
theorem tableless_addAll (w : Where) : ∀ ps, (w.addAll ps).tableless = w.tableless
  | [] => by rw [addAll]
  | p :: ps => by rw [addAll, tableless_addAll (w.add p) ps, tableless_add w p]

end

end Sql.Where

/-! ## Compiled filters -/

/-- How a compiled filter becomes a query. -/
structure CompiledFilter.Assembled (f : CompiledFilter) : Prop where
  /-- Each predicate adds one part with its own connective. -/
  parts : ∃ ms : List (Predicate × Expr), f.predicates = ms.map Prod.fst ∧
    (∀ m ∈ ms, m.1.Expressed m.2) ∧
    f.toWhere.conditions.parts = ms.map fun m => (m.1.connective, m.2)
  /-- The parts are joined from the left. -/
  condition : ∀ c e rest, f.toWhere.conditions.parts = (c, e) :: rest →
    f.select.condition = some (joinLeft e rest)
  tableless : f.toWhere.tableless = []
  groups : ∀ ps ∈ Predicate.allGroups f.predicates, (Where.addAll {} ps).isEmpty = false
  isEmpty_iff : f.toWhere.isEmpty = true ↔ f.predicates = []
  unconditional_iff : f.select.condition = none ↔ f.predicates = []
  params : ∀ dialect, (f.select.statement dialect).params = Predicate.allOperands f.predicates

namespace CompiledFilter

variable {f : CompiledFilter}

theorem condition_select (f : CompiledFilter) : f.select.condition = f.toWhere.build? := by
  unfold select Where.select
  cases f.toWhere.build? <;> rfl

theorem parts_toWhere (f : CompiledFilter) :
    f.toWhere.conditions.parts = allParts f.predicates :=
  Where.parts_addAll {} f.predicates

theorem params_select (f : CompiledFilter) (dialect : Dialect) :
    (f.select.statement dialect).params = f.toWhere.build?.elim [] Expr.params := by
  have hcolumns : f.select.columns = [.wildcard (some f.base)] ∧ f.select.joins = [] := by
    unfold select Where.select
    cases f.toWhere.build? <;> exact ⟨rfl, rfl⟩
  show Fragment.params f.select.fragments = _
  rw [Select.params_eq, hcolumns.1, hcolumns.2, condition_select]
  rfl

/-- A filter whose predicates are in canonical form is assembled from them. -/
theorem assembled_of_canonical (h : ∀ p ∈ f.predicates, p.Canonical .and) : f.Assembled := by
  obtain ⟨ms, hms, hadds⟩ := Predicate.exists_adds_all fun p hp => (h p hp).adds
  have hparts : f.toWhere.conditions.parts = ms.map fun m => (m.1.connective, m.2) := by
    rw [parts_toWhere, hms, Predicate.allParts_of_adds hadds]
  have hbuild : ∀ c e rest, f.toWhere.conditions.parts = (c, e) :: rest →
      f.toWhere.build? = some (joinLeft e rest) := by
    intro c e rest hcons
    have hconditions : f.toWhere.conditions = ⟨(c, e) :: rest⟩ := congrArg Conditions.mk hcons
    rw [Where.build?, hconditions, Conditions.build?_cons]
  have hempty : f.toWhere.conditions.parts = [] ↔ f.predicates = [] := by
    rw [hparts, hms, List.map_eq_nil_iff, List.map_eq_nil_iff]
  have hnone : f.toWhere.build? = none ↔ f.toWhere.conditions.parts = [] := by
    cases hcons : f.toWhere.conditions.parts with
    | nil =>
      have hconditions : f.toWhere.conditions = ⟨[]⟩ := congrArg Conditions.mk hcons
      rw [Where.build?, hconditions]
      exact iff_of_true rfl rfl
    | cons part rest =>
      rw [hbuild part.1 part.2 rest hcons]
      simp
  refine ⟨⟨ms, hms, fun m hm => (hadds m hm).expressed, hparts⟩, ?_, ?_, ?_, ?_, ?_, ?_⟩
  · intro c e rest hcons
    rw [condition_select, hbuild c e rest hcons]
  · exact Where.tableless_addAll {} f.predicates
  · intro ps hps
    rw [Predicate.allGroups_eq_flatMap] at hps
    obtain ⟨p, hp, hps⟩ := List.mem_flatMap.mp hps
    exact (h p hp).groups_kept ps hps
  · rw [Where.isEmpty, Conditions.isEmpty, List.isEmpty_iff, hempty]
  · rw [condition_select, hnone, hempty]
  · intro dialect
    rw [params_select, hms, ← Predicate.params_of_adds hadds]
    cases ms with
    | nil => rw [hnone.mpr hparts]; rfl
    | cons first rest =>
      rw [hbuild _ _ _ hparts, List.flatMap_cons]
      show (joinLeft _ _).params = _
      rw [Expr.params_joinLeft, List.flatMap_map]

end CompiledFilter

/-- A compiled filter becomes a query part by part, and nothing of it is left out. -/
theorem compile_assembled {options : Options} {registry : Registry} {base : String} {d : Document}
    {f : CompiledFilter} (h : (compile options registry base d).result = .ok f) : f.Assembled := by
  obtain ⟨-, rfl⟩ := compile_result_eq_ok.mp h
  have hsound : ∀ x ∈ Clause.allLeaves (compileClauses options registry base d),
      x.Sound ⟨base, registry, options.marker⟩ :=
    Clause.sound_allLeaves _ (Clause.sound_ofDocument d)
  exact CompiledFilter.assembled_of_canonical
    ((Clause.inherited_canonical _ _).scopePredicates .and hsound)

theorem compile_assembled_uncommented :
    (compile {} Blog.registry "posts" Blog.uncommented).result = .ok Blog.uncommentedFilter ∧
    Blog.uncommentedFilter.Assembled ∧
    Predicate.allOperands Blog.uncommentedFilter.predicates = [.str "t", .str "a"] :=
  ⟨Blog.compile_uncommented, compile_assembled Blog.compile_uncommented, by decide +kernel⟩

end DocFilter
