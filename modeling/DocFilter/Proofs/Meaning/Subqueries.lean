import DocFilter.Proofs.Clause.Sound
import DocFilter.Proofs.Placement.Slots
import DocFilter.Proofs.Sql.Translation

/-!
# Tests in SQL

The conditions that tests are translated to say what the tests mean: a comparison on a column says
what its comparator says about the cell (`holds_comparisonExpr`), and the membership test of a
partition says what the partition says about the related rows of the base row
(`Partition.holds_predicate`).

A membership test that excludes needs care with null. A foreign key that is null is filtered out by
its subquery; a join table is asked to name a base row in each of its rows (`Relation.Keyed`).
-/

namespace DocFilter

variable {α : Type} (db : Database α) (env : Sql.Env α)

/-! ## Comparisons -/

/-- A comparison with an operand that is not null is true or false by what the cell holds, and
unknown if it holds nothing. -/
theorem compareCells_operandCell (op : Sql.BinaryOp) (cell : Option α) {v : Value}
    (hv : v.isNull = false) : Sql.compareCells db op cell (Sql.operandCell db v) =
      cell.elim .unknown fun a => .ofBool (db.compare op a (db.literal v)) := by
  have hcell : Sql.operandCell db v = some (db.literal v) := by
    cases v <;> simp_all [Value.isNull, Sql.operandCell]
  rw [hcell]
  cases cell <;> rfl

theorem Database.fits_of_not_null (cell : Option α) {v : Value} (hv : v.isNull = false) :
    db.fits cell v = db.compares .eq cell v := by
  cases v <;> simp_all [Value.isNull, Database.fits, Database.compares]

theorem Database.avoids_of_not_null (cell : Option α) {v : Value} (hv : v.isNull = false) :
    db.avoids cell v = cell.any fun a => !db.compare .eq a (db.literal v) := by
  cases v <;> simp_all [Value.isNull, Database.avoids]

theorem compareCells_eq_true (op : Sql.BinaryOp) (cell : Option α) {v : Value}
    (hv : v.isNull = false) :
    Sql.compareCells db op cell (Sql.operandCell db v) = .true ↔ db.compares op cell v = true := by
  rw [compareCells_operandCell db op cell hv]
  cases cell <;> simp [Database.compares]

theorem compareCells_eq_false (cell : Option α) {v : Value} (hv : v.isNull = false) :
    Sql.compareCells db .eq cell (Sql.operandCell db v) = .false ↔ db.avoids cell v = true := by
  rw [compareCells_operandCell db .eq cell hv, Database.avoids_of_not_null db cell hv]
  cases cell <;> simp

/-- A list of operands without null. -/
theorem holds_inList (c : Column) {items : List Value} (h : ∀ v ∈ items, v.isNull = false)
    (negated : Bool) :
    (Sql.Expr.inList (Sql.columnExpr c) (items.map .value) negated).holds db env =
      if negated then items.all (db.avoids (env c.table c.name))
      else items.any (db.fits (env c.table c.name)) := by
  rw [Bool.eq_iff_iff, Sql.Expr.holds_eq_true, Sql.Expr.truth, List.map_map]
  cases negated with
  | false =>
    simp only [Sql.Truth.negateIf, Bool.false_eq_true, if_false, Sql.Truth.any_eq_true,
      List.mem_map, List.any_eq_true]
    refine exists_congr fun v => and_congr_right fun hv => ?_
    rw [Database.fits_of_not_null db _ (h v hv), ← compareCells_eq_true db .eq _ (h v hv)]
    rfl
  | true =>
    simp only [Sql.Truth.negateIf, if_true, Sql.Truth.not_eq_true, Sql.Truth.any_eq_false,
      List.forall_mem_map, List.all_eq_true]
    refine forall₂_congr fun v hv => ?_
    rw [← compareCells_eq_false db _ (h v hv)]
    rfl

/-- A comparison says what its comparator says about the cell of its column. -/
theorem holds_comparisonExpr (c : Column) (op : Comparator) {v : Value} (hv : v.isNull = false)
    (hitems : op.takesList = true → ∀ x ∈ v.toList, x.isNull = false) :
    (Sql.comparisonExpr c op v).holds db env = op.holds db (env c.table c.name) v := by
  have hbinary : ∀ o : Sql.BinaryOp, o ≠ .and → o ≠ .or →
      (Sql.Expr.binary (Sql.columnExpr c) o (.value v)).holds db env =
        db.compares o (env c.table c.name) v := by
    intro o hand hor
    rw [Bool.eq_iff_iff, Sql.Expr.holds_eq_true, ← compareCells_eq_true db o _ hv]
    cases o <;> first | contradiction | rfl
  cases op with
  | eq => exact (hbinary .eq (by decide) (by decide)).trans (db.fits_of_not_null _ hv).symm
  | ne =>
    refine (hbinary .ne (by decide) (by decide)).trans ?_
    cases v <;> first | rfl | simp [Value.isNull] at hv
  | gt => exact hbinary .gt (by decide) (by decide)
  | ge => exact hbinary .ge (by decide) (by decide)
  | lt => exact hbinary .lt (by decide) (by decide)
  | le => exact hbinary .le (by decide) (by decide)
  | isIn => exact holds_inList db env c (hitems rfl) false
  | notIn => exact holds_inList db env c (hitems rfl) true

theorem holds_nullTestExpr (c : Column) (negated : Bool) :
    (Sql.nullTestExpr c negated).holds db env = ((env c.table c.name).isNone != negated) := by
  rw [Bool.eq_iff_iff, Sql.Expr.holds_eq_true, Sql.nullTestExpr, Sql.Expr.truth,
    Sql.Truth.ofBool_eq_true]
  rfl

theorem Operand.Fits.toList {op : Comparator} {v : Value} {n : Bool} (h : Operand.Fits op ⟨v, n⟩)
    (hv : v.isNull = false) (hop : op.takesList = true) : ∀ x ∈ v.toList, x.isNull = false := by
  have hne : v ≠ .null := by
    rintro rfl
    simp [Value.isNull] at hv
  obtain ⟨items, hitems⟩ := h.list hop hne
  obtain rfl : v = .list items := hitems
  exact (h.items items rfl).2

theorem Operand.Fits.not_ordering {op : Comparator} (h : Operand.Fits op ⟨.null, false⟩) :
    op.isOrdering = false := by
  by_contra hop
  simpa [Value.isNull] using h.ordering (by simpa using hop)

/-- The condition of a test inside a subquery says what the test looks for. -/
theorem holds_filter {p : RelatedTest} (h : Operand.Fits p.op ⟨p.value, false⟩) :
    (Sql.filterExpr p.filter).holds db env =
      p.op.sought.holds db (env p.field.ref.table p.field.ref.name) p.value := by
  obtain ⟨f, op, v⟩ := p
  unfold RelatedTest.filter
  cases hv : v.isNull with
  | true =>
    obtain rfl : v = .null := by cases v <;> simp_all [Value.isNull]
    have hop := h.not_ordering
    refine (holds_nullTestExpr db env f.ref false).trans ?_
    cases op <;> simp_all [Comparator.sought, Comparator.holds, Comparator.isOrdering,
      Database.fits, Value.toList]
  | false =>
    have hlist := h.toList hv
    cases op with
    | ne =>
      have hsingle : ∀ x ∈ [v], x.isNull = false := List.forall_mem_singleton.mpr hv
      refine (holds_comparisonExpr db env f.ref .isIn (v := .list [v]) rfl
        fun _ => hsingle).trans ?_
      simp [Comparator.holds, Value.toList, Comparator.sought]
    | notIn => exact holds_comparisonExpr db env f.ref .isIn hv fun _ => hlist rfl
    | eq | gt | ge | lt | le | isIn => exact holds_comparisonExpr db env f.ref _ hv hlist

/-! ## Related rows -/

/-- What a query gives: the cells of its column in the rows that meet its conditions. -/
theorem Sql.mem_results_queryOf {q : Subquery} {x : Option α} :
    x ∈ (Sql.queryOf q).results db env ↔
      ∃ row ∈ db.rows q.source,
        ∃ e ∈ Sql.joinedEnvs db (Sql.queryOf q).joins (env.bind q.source row),
          (∀ f ∈ q.filters, (Sql.filterExpr f).holds db e = true) ∧
            x = e q.select.table q.select.name := by
  have hcondition : ∀ e : Sql.Env α, Sql.conditionHolds db (Sql.queryOf q).condition e = true ↔
      ∀ f ∈ q.filters, (Sql.filterExpr f).holds db e = true := by
    intro e
    have hparts : q.filters.map (fun f => (Connective.and, Sql.filterExpr f)) =
        (q.filters.map Sql.filterExpr).map (Prod.mk .and) := by rw [List.map_map]; rfl
    rw [Sql.queryOf, hparts, Sql.conditionHolds_build?]
    simp [Connective.combine]
  have hresults : (Sql.queryOf q).results db env =
      ((((db.rows q.source).map (env.bind q.source)).flatMap
        (Sql.joinedEnvs db (Sql.queryOf q).joins)).filter
          (Sql.conditionHolds db (Sql.queryOf q).condition)).map
            fun e => e q.select.table q.select.name := by
    rw [Sql.queryOf, Sql.Select.results]
    rfl
  rw [hresults]
  simp only [List.mem_map, List.mem_filter, List.mem_flatMap, hcondition]
  constructor
  · rintro ⟨e, ⟨⟨_, ⟨row, hrow, rfl⟩, he⟩, hfilters⟩, rfl⟩
    exact ⟨row, hrow, e, he, hfilters, rfl⟩
  · rintro ⟨row, hrow, e, he, hfilters, rfl⟩
    exact ⟨e, ⟨⟨_, ⟨row, hrow, rfl⟩, he⟩, hfilters⟩, rfl⟩

/-- The rows of an inner join of one table on two equal columns. -/
theorem Sql.mem_joinedEnvs_inner {table : String} {left right : Column} {e : Sql.Env α} :
    e ∈ Sql.joinedEnvs db
        [⟨.inner, table, none, .binary (Sql.columnExpr left) .eq (Sql.columnExpr right)⟩] env ↔
      ∃ row ∈ db.rows table, e = env.bind table row ∧
        db.same (e left.table left.name) (e right.table right.name) = true := by
  have hsame : ∀ e : Sql.Env α,
      ((Sql.Expr.binary (Sql.columnExpr left) .eq (Sql.columnExpr right)).truth db e == .true) =
        db.same (e left.table left.name) (e right.table right.name) := by
    intro e
    rw [Bool.eq_iff_iff, beq_iff_eq, Sql.Expr.truth]
    · show Sql.compareCells db .eq (e left.table left.name) (e right.table right.name) = .true ↔ _
      cases e left.table left.name <;> cases e right.table right.name <;>
        simp [Sql.compareCells, Database.same]
    all_goals simp
  simp only [Sql.joinedEnvs, hsame, Option.getD_none, List.mem_flatMap, List.mem_filter,
    List.mem_map, List.mem_singleton]
  constructor
  · rintro ⟨_, ⟨⟨row, hrow, rfl⟩, hjoin⟩, rfl⟩
    exact ⟨row, hrow, rfl, hjoin⟩
  · rintro ⟨row, hrow, rfl, hjoin⟩
    exact ⟨_, ⟨⟨row, hrow, rfl⟩, hjoin⟩, rfl⟩

namespace Relation

/-- A target row and what pairs it with a base row, whichever that is. -/
def Links (r : Relation) (row : RelatedRow α) : Prop :=
  match r.link with
  | .oneToMany _ => row.target ∈ db.rows r.target ∧ row.link = row.target
  | .manyToMany joinTable _ joinTo => row.link ∈ db.rows joinTable ∧
      row.target ∈ db.rows r.target ∧ db.same (row.target r.targetKey) (row.link joinTo) = true

/-- The cell that holds the key of the base row. -/
def keyCell (r : Relation) (row : RelatedRow α) : Option α :=
  match r.link with
  | .oneToMany foreignKey => row.target foreignKey
  | .manyToMany _ joinFrom _ => row.link joinFrom

/-- The current rows inside a subquery on a relation. -/
def inside (r : Relation) (row : RelatedRow α) : Sql.Env α :=
  match r.link with
  | .oneToMany _ => env.bind r.target row.target
  | .manyToMany joinTable _ _ => (env.bind joinTable row.link).bind r.target row.target

theorem mem_rowsOf {key : α} {r : Relation} {row : RelatedRow α} : row ∈ r.rowsOf db key ↔
    r.Links db row ∧ db.same (some key) (r.keyCell row) = true := by
  obtain ⟨target, targetKey, link⟩ := r
  obtain ⟨l, t⟩ := row
  cases link with
  | oneToMany foreignKey =>
    simp only [rowsOf, Links, keyCell, List.mem_map, List.mem_filter, RelatedRow.mk.injEq]
    constructor
    · rintro ⟨u, ⟨hu, hkey⟩, rfl, rfl⟩
      exact ⟨⟨hu, rfl⟩, hkey⟩
    · rintro ⟨⟨ht, rfl⟩, hkey⟩
      exact ⟨l, ⟨ht, hkey⟩, rfl, rfl⟩
  | manyToMany joinTable joinFrom joinTo =>
    simp only [rowsOf, Links, keyCell, List.mem_flatMap, List.mem_map, List.mem_filter,
      RelatedRow.mk.injEq, Bool.and_eq_true]
    constructor
    · rintro ⟨m, hm, u, ⟨hu, hkey, hto⟩, rfl, rfl⟩
      exact ⟨⟨hm, hu, hto⟩, hkey⟩
    · rintro ⟨⟨hl, ht, hto⟩, hkey⟩
      exact ⟨l, hl, t, ⟨ht, hkey, hto⟩, rfl, rfl⟩

/-- What a subquery on a relation gives: the key cells of the rows that meet its conditions. -/
theorem mem_results {r : Relation} (hr : ∀ table, r.joinTable? = some table → table ≠ r.target)
    {m : Membership} {filters : List SubqueryFilter} {x : Option α} :
    x ∈ (Sql.queryOf (subqueryOf r m filters)).results db env ↔
      ∃ row, r.Links db row ∧ x = r.keyCell row ∧ ∀ f ∈ (subqueryOf r m filters).filters,
        (Sql.filterExpr f).holds db (r.inside env row) = true := by
  obtain ⟨target, targetKey, link⟩ := r
  cases link with
  | oneToMany foreignKey =>
    constructor
    · intro hx
      obtain ⟨t, ht, e, he, hfilters, rfl⟩ := (Sql.mem_results_queryOf db env).mp hx
      obtain rfl : e = env.bind target t := List.mem_singleton.mp he
      refine ⟨⟨t, t⟩, ⟨ht, rfl⟩, ?_, hfilters⟩
      simp [subqueryOf, keyCell]
    · rintro ⟨⟨l, t⟩, ⟨ht, -⟩, rfl, hfilters⟩
      refine (Sql.mem_results_queryOf db env).mpr
        ⟨_, ht, _, List.mem_singleton_self _, hfilters, ?_⟩
      simp [subqueryOf, keyCell]
  | manyToMany joinTable joinFrom joinTo =>
    have hne : joinTable ≠ target := hr joinTable rfl
    constructor
    · intro hx
      obtain ⟨l, hl, e, he, hfilters, rfl⟩ := (Sql.mem_results_queryOf db env).mp hx
      obtain ⟨t, ht, rfl, hjoin⟩ := (Sql.mem_joinedEnvs_inner db _).mp he
      refine ⟨⟨l, t⟩, ⟨hl, ht, ?_⟩, ?_, hfilters⟩
      · simpa [subqueryOf, Sql.Env.bind_other hne] using hjoin
      · simp [subqueryOf, keyCell, Sql.Env.bind_other hne]
    · rintro ⟨⟨l, t⟩, ⟨hl, ht, hjoin⟩, rfl, hfilters⟩
      refine (Sql.mem_results_queryOf db env).mpr ⟨l, hl, _,
        (Sql.mem_joinedEnvs_inner db _).mpr ⟨t, ht, rfl, ?_⟩, hfilters, ?_⟩
      · simpa [subqueryOf, Sql.Env.bind_other hne] using hjoin
      · simp [subqueryOf, keyCell, Sql.Env.bind_other hne]

/-- The table of a test on a relation has the row that the test is about. -/
theorem inside_ref {registry : Registry} (hr : registry.Consistent) {f : RelatedField}
    (hf : f.Registered registry) (row : RelatedRow α) :
    f.relation.inside env row f.ref.table = if f.onJoinTable then row.link else row.target := by
  cases hj : f.onJoinTable with
  | false =>
    have href : f.ref.table = f.relation.target := by
      simp [RelatedField.ref, RelatedField.table, hj]
    rw [href, inside]
    cases f.relation.link <;> simp
  | true =>
    obtain ⟨table, htable, hne⟩ := hf.joinTable hr hj
    have href : f.ref.table = table := by simp [RelatedField.ref, RelatedField.table, hj, htable]
    rw [href, inside]
    unfold joinTable? at htable
    split at htable
    · cases htable
    · next hlink =>
      cases htable
      simp [hlink, Sql.Env.bind_other hne]

/-- The condition of a test on a relation says whether a related row is what the test looks for. -/
theorem holds_filter_inside {registry : Registry} (hr : registry.Consistent) {p : Pending}
    (hp : p.Sound registry) (row : RelatedRow α) :
    (Sql.filterExpr p.filter).holds db (p.field.relation.inside env row) = p.meets db row := by
  rw [holds_filter db _ hp.fits, inside_ref env hr hp.registered]
  rfl

end Relation

/-! ## Membership tests -/

theorem compareCells_eq (a b : Option α) :
    Sql.compareCells db .eq a b = .true ↔ db.same a b = true := by
  cases a <;> cases b <;> simp [Sql.compareCells, Database.same]

theorem compareCells_some (a : α) {b : Option α} (hb : b ≠ none) :
    Sql.compareCells db .eq (some a) b = .false ↔ ¬ db.same (some a) b = true := by
  cases b with
  | none => exact absurd rfl hb
  | some b => simp [Sql.compareCells, Database.same]

/-- A join table that always names the base row. -/
def Relation.Keyed (r : Relation) : Prop :=
  ∀ joinTable joinFrom joinTo, r.link = .manyToMany joinTable joinFrom joinTo →
    ∀ l ∈ db.rows joinTable, l joinFrom ≠ none

/-- A subquery that excludes by a foreign key has one condition more, which keeps its results from
being null. -/
theorem Relation.forall_filters_subqueryOf (r : Relation) (row : RelatedRow α)
    (filters : List SubqueryFilter) :
    (∀ f ∈ (subqueryOf r .notIn filters).filters,
      (Sql.filterExpr f).holds db (r.inside env row) = true) ↔
    (∀ f ∈ filters, (Sql.filterExpr f).holds db (r.inside env row) = true) ∧
      (r.joinTable? = none → r.keyCell row ≠ none) := by
  obtain ⟨target, targetKey, link⟩ := r
  cases link with
  | oneToMany foreignKey =>
    have hkey : (Sql.filterExpr (.nullTest ⟨target, foreignKey⟩ true)).holds db
        (env.bind target row.target) = true ↔ row.target foreignKey ≠ none := by
      refine (Bool.eq_iff_iff.mp (holds_nullTestExpr db _ _ _)).trans ?_
      simp [Option.isSome_iff_ne_none]
    show (∀ f ∈ filters ++ [.nullTest ⟨target, foreignKey⟩ true], _) ↔ _
    rw [List.forall_mem_append, List.forall_mem_singleton]
    exact and_congr_right fun _ => ⟨fun h _ => hkey.mp h, fun h => hkey.mpr (h rfl)⟩
  | manyToMany joinTable joinFrom joinTo => simp [subqueryOf, Relation.joinTable?]

/-- The conditions of a subquery that excludes also keep its results from being null, if a join
table always names the base row. -/
theorem Relation.forall_filters_notIn {r : Relation} (hkeyed : r.Keyed db) {row : RelatedRow α}
    (hrow : r.Links db row) (filters : List SubqueryFilter) :
    (∀ f ∈ (subqueryOf r .notIn filters).filters,
      (Sql.filterExpr f).holds db (r.inside env row) = true) ↔
    (∀ f ∈ filters, (Sql.filterExpr f).holds db (r.inside env row) = true) ∧
      r.keyCell row ≠ none := by
  rw [Relation.forall_filters_subqueryOf]
  refine and_congr_right fun _ => ?_
  obtain ⟨target, targetKey, link⟩ := r
  cases link with
  | oneToMany foreignKey => exact ⟨fun h => h rfl, fun h _ => h⟩
  | manyToMany joinTable joinFrom joinTo =>
    have hkey : row.link joinFrom ≠ none := hkeyed joinTable joinFrom joinTo rfl row.link hrow.1
    simp [Relation.joinTable?, Relation.keyCell, hkey]

/-- The tests of a partition are tests on one relation. -/
structure Partition.On (registry : Registry) (r : Relation) (q : Partition) : Prop where
  relation : ∀ m ∈ q.members, m.1.field.relation = r
  sound : ∀ m ∈ q.members, m.1.Sound registry

variable {db env}

theorem Partition.On.forall_filters {registry : Registry} {r : Relation} {q : Partition}
    (hq : q.On registry r) (hr : registry.Consistent) (row : RelatedRow α) :
    (∀ f ∈ q.members.map (·.1.filter),
      (Sql.filterExpr f).holds db (r.inside env row) = true) ↔
    q.members.all (·.1.meets db row) = true := by
  rw [List.forall_mem_map, List.all_eq_true]
  refine forall₂_congr fun m hm => ?_
  rw [← hq.relation m hm, Relation.holds_filter_inside db env hr (hq.sound m hm)]

/-- The membership test of a partition says what the partition says about the related rows. -/
theorem Partition.holds_predicate {registry : Registry} (hr : registry.Consistent)
    {r : Relation} {q : Partition} (hq : q.On registry r)
    (htable : ∀ table, r.joinTable? = some table → table ≠ r.target) (hkeyed : r.Keyed db)
    {base : Column} {key : α} (hkey : env base.table base.name = some key) (c : Connective) :
    (q.predicate c base r).holds db env = q.holds db (r.rowsOf db key) := by
  rw [Partition.predicate, Predicate.holds_membership, Bool.eq_iff_iff, Sql.Expr.holds_eq_true,
    Sql.Expr.truth, Partition.holds]
  have hcell : (Sql.columnExpr base).cell db env = some key := hkey
  rw [hcell]
  cases q.membership with
  | isIn =>
    simp only [Membership.isNegated, Sql.Truth.negateIf, Bool.false_eq_true, if_false,
      Sql.Truth.any_eq_true, List.mem_map, List.any_eq_true, Relation.mem_results db env htable,
      Relation.mem_rowsOf, compareCells_eq]
    have hfilters : (subqueryOf r .isIn (q.members.map (·.1.filter))).filters =
        q.members.map (·.1.filter) := by
      unfold subqueryOf
      split <;> rfl
    simp only [hfilters, hq.forall_filters hr]
    constructor
    · rintro ⟨_, ⟨row, hrow, rfl, hmeets⟩, hsame⟩
      exact ⟨row, ⟨hrow, hsame⟩, hmeets⟩
    · rintro ⟨row, ⟨hrow, hsame⟩, hmeets⟩
      exact ⟨_, ⟨row, hrow, rfl, hmeets⟩, hsame⟩
  | notIn =>
    simp only [Membership.isNegated, Sql.Truth.negateIf, if_true, Sql.Truth.not_eq_true,
      Sql.Truth.any_eq_false, List.forall_mem_map, Relation.mem_results db env htable,
      Bool.not_eq_true', List.any_eq_false, Relation.mem_rowsOf]
    constructor
    · rintro hall row ⟨hrow, hsame⟩ hmeets
      have hne : r.keyCell row ≠ none := by
        intro hnone
        rw [hnone] at hsame
        cases hsame
      have hfilters := (Relation.forall_filters_notIn db env hkeyed hrow _).mpr
        ⟨(hq.forall_filters hr row).mpr hmeets, hne⟩
      exact (compareCells_some db key hne).mp (hall _ ⟨row, hrow, rfl, hfilters⟩) hsame
    · rintro hall _ ⟨row, hrow, rfl, hfilters⟩
      obtain ⟨hmeets, hne⟩ := (Relation.forall_filters_notIn db env hkeyed hrow _).mp hfilters
      exact (compareCells_some db key hne).mpr fun hsame =>
        hall row ⟨hrow, hsame⟩ ((hq.forall_filters hr row).mp hmeets)

end DocFilter
