import DocFilter.Proofs.Compile.Scoping
import DocFilter.Proofs.Meaning.Preservation

/-!
# Null in exclusions

A membership test that excludes is true of no row at all once null is among the results of its
subquery. Subqueries on a foreign key guard against that, whatever the database holds. Subqueries on
a join table do not: a row of the join table that names no base row, but a target row that meets the
conditions, makes the test unknown of every base row that it is not false of
(`truth_exclusion_compile`).
-/

namespace DocFilter

variable {α : Type}

/-! ## What exclusions say -/

namespace Relation

variable (db : Database α) (env : Sql.Env α)

/-- A related row meets conditions. -/
def Fulfils (r : Relation) (conditions : List SubqueryFilter) (row : RelatedRow α) : Prop :=
  ∀ f ∈ conditions, (Sql.filterExpr f).holds db (r.inside env row) = true

/-- A target row meets conditions and has a row of the join table that names no base row. -/
def Orphaned (r : Relation) (conditions : List SubqueryFilter) : Prop :=
  r.joinTable? ≠ none ∧
    ∃ row, r.Links db row ∧ r.keyCell row = none ∧ r.Fulfils db env conditions row

variable {db env} {r : Relation} {conditions : List SubqueryFilter}

theorem mem_results_notIn (hr : ∀ table, r.joinTable? = some table → table ≠ r.target)
    {x : Option α} :
    x ∈ (Sql.queryOf (subqueryOf r .notIn conditions)).results db env ↔
      ∃ row, r.Links db row ∧ x = r.keyCell row ∧ r.Fulfils db env conditions row ∧
        (r.joinTable? = none → r.keyCell row ≠ none) := by
  rw [mem_results db env hr]
  refine exists_congr fun row => and_congr_right fun _ => and_congr_right fun _ => ?_
  exact forall_filters_subqueryOf db env r row conditions

/-- Null is among the results only by way of a join table. -/
theorem none_mem_results_iff (hr : ∀ table, r.joinTable? = some table → table ≠ r.target) :
    none ∈ (Sql.queryOf (subqueryOf r .notIn conditions)).results db env ↔
      r.Orphaned db env conditions := by
  rw [mem_results_notIn hr]
  constructor
  · rintro ⟨row, hlinks, hkey, hfulfils, hguard⟩
    exact ⟨fun hnone => hguard hnone hkey.symm, row, hlinks, hkey.symm, hfulfils⟩
  · rintro ⟨hjoin, row, hlinks, hkey, hfulfils⟩
    exact ⟨row, hlinks, hkey.symm, hfulfils, fun hnone => absurd hnone hjoin⟩

/-- A key is among the results if a related row meets the conditions. -/
theorem same_mem_results_iff (hr : ∀ table, r.joinTable? = some table → table ≠ r.target)
    (key : α) :
    (∃ x ∈ (Sql.queryOf (subqueryOf r .notIn conditions)).results db env,
        db.same (some key) x = true) ↔
      ∃ row ∈ r.rowsOf db key, r.Fulfils db env conditions row := by
  simp only [mem_results_notIn hr, mem_rowsOf]
  constructor
  · rintro ⟨_, ⟨row, hlinks, rfl, hfulfils, -⟩, hsame⟩
    exact ⟨row, ⟨hlinks, hsame⟩, hfulfils⟩
  · rintro ⟨row, ⟨hlinks, hsame⟩, hfulfils⟩
    have hkey : r.keyCell row ≠ none := by
      intro hnone
      rw [hnone] at hsame
      cases hsame
    exact ⟨_, ⟨row, hlinks, rfl, hfulfils, fun _ => hkey⟩, hsame⟩

variable (r db conditions) {base : Column} {key : α}

/-- The membership test of a subquery that excludes is false if a related row meets the conditions.
-/
theorem truth_exclusion_eq_false (hr : ∀ table, r.joinTable? = some table → table ≠ r.target)
    (hkey : env base.table base.name = some key) :
    (Sql.Expr.inSubquery (Sql.columnExpr base) (Sql.queryOf (subqueryOf r .notIn conditions))
        true).truth db env = .false ↔
      ∃ row ∈ r.rowsOf db key, r.Fulfils db env conditions row := by
  have hcell : (Sql.columnExpr base).cell db env = some key := hkey
  have hnot : ∀ t : Sql.Truth, t.not = .false ↔ t = .true := by
    intro t
    cases t <;> simp [Sql.Truth.not]
  rw [Sql.Expr.truth, hcell, Sql.Truth.negateIf, if_pos rfl, hnot, Sql.Truth.any_eq_true,
    List.mem_map, ← same_mem_results_iff hr]
  exact exists_congr fun x => and_congr_right fun _ => compareCells_eq db _ x

/-- It is true if no related row meets the conditions and null is not among the results. -/
theorem truth_exclusion_eq_true (hr : ∀ table, r.joinTable? = some table → table ≠ r.target)
    (hkey : env base.table base.name = some key) :
    (Sql.Expr.inSubquery (Sql.columnExpr base) (Sql.queryOf (subqueryOf r .notIn conditions))
        true).truth db env = .true ↔
      (¬ ∃ row ∈ r.rowsOf db key, r.Fulfils db env conditions row) ∧
        ¬ r.Orphaned db env conditions := by
  have hcell : (Sql.columnExpr base).cell db env = some key := hkey
  rw [Sql.Expr.truth, hcell, Sql.Truth.negateIf, if_pos rfl, Sql.Truth.not_eq_true,
    Sql.Truth.any_eq_false, List.forall_mem_map, ← same_mem_results_iff hr,
    ← none_mem_results_iff hr]
  constructor
  · intro hall
    have hnone : none ∉ (Sql.queryOf (subqueryOf r .notIn conditions)).results db env := by
      intro hmem
      cases hall none hmem
    refine ⟨?_, hnone⟩
    rintro ⟨x, hx, hsame⟩
    exact (compareCells_some db key (ne_of_mem_of_not_mem hx hnone)).mp (hall x hx) hsame
  · rintro ⟨hsame, hnone⟩ x hx
    exact (compareCells_some db key (ne_of_mem_of_not_mem hx hnone)).mpr
      fun h => hsame ⟨x, hx, h⟩

end Relation

/-- What the exclusions of a compiled filter say. Each is on a relation of the registry. It is false
of a row with a key if a related row meets its conditions. Otherwise it is true, except that it is
unknown if null is among the results of its subquery, and that is so exactly if a join table has a
row for a target row that meets the conditions, but names no base row in it. -/
theorem truth_exclusion_compile {options : Options} {registry : Registry} {base : String}
    {d : Document} {f : CompiledFilter} {c : Connective} {b : Column} {q : Subquery}
    (hregistry : registry.Built)
    (hcompile : (compile options registry base d).result = .ok f)
    (hleaf : .membership c b .notIn q ∈ Predicate.allLeaves f.predicates) :
    b = ⟨base, options.baseKey⟩ ∧ ∃ name r conditions, registry.get? name = some r ∧
      q = subqueryOf r .notIn conditions ∧
      ∀ (db : Database α) (env : Sql.Env α),
        (none ∈ (Sql.queryOf q).results db env ↔ r.Orphaned db env conditions) ∧
        ∀ key, env b.table b.name = some key →
          ((Sql.Expr.inSubquery (Sql.columnExpr b) (Sql.queryOf q) true).truth db env = .true ↔
            (¬ ∃ row ∈ r.rowsOf db key, r.Fulfils db env conditions row) ∧
              ¬ r.Orphaned db env conditions) ∧
          ((Sql.Expr.inSubquery (Sql.columnExpr b) (Sql.queryOf q) true).truth db env = .unknown ↔
            (¬ ∃ row ∈ r.rowsOf db key, r.Fulfils db env conditions row) ∧
              r.Orphaned db env conditions) := by
  obtain ⟨-, rfl⟩ := compile_result_eq_ok.mp hcompile
  have hsound : ∀ x ∈ compileClauses options registry base d,
      x.Sound ⟨base, registry, options.marker⟩ := Clause.sound_ofDocument d
  obtain ⟨hb, name, r, tests, hget, rfl, -⟩ :=
    Clause.attached_scopePredicates rfl .and hsound _ hleaf
  have hr : ∀ table, r.joinTable? = some table → table ≠ r.target := fun table =>
    Registry.joinTable_ne_target (hregistry.consistent.flawless name r hget)
  refine ⟨hb, name, r, _, hget, rfl, fun db env => ⟨r.none_mem_results_iff hr, ?_⟩⟩
  intro key hkey
  have htrue := r.truth_exclusion_eq_true db (tests.map RelatedTest.filter) hr hkey
  have hfalse := r.truth_exclusion_eq_false db (tests.map RelatedTest.filter) hr hkey
  have hunknown : ∀ t : Sql.Truth, t = .unknown ↔ ¬ t = .false ∧ ¬ t = .true := by
    intro t
    cases t <;> simp
  refine ⟨htrue, ?_⟩
  rw [hunknown, htrue, hfalse]
  tauto

/-! ### Posts without a tag -/

namespace Blog

/-- Posts without a tag `animal`. -/
def inanimate : Document := ⟨[("tags.slug", .obj [("$ne", .str "animal")])]⟩

/-- The posts that have a tag `animal`. -/
def animals : Subquery :=
  subqueryOf tags .notIn [.comparison ⟨"tags", "slug"⟩ .isIn (.list [.str "animal"])]

/-- The tag `animal` is in a row of the join table that names no post. -/
def orphans : Database String :=
  { database with
    rows := fun table =>
      if table = "posts_tags" then [fun c => if c = "tag_id" then some "7" else none]
      else if table = "tags" then [fun c => if c = "slug" then some "'animal'" else some "7"]
      else [] }

theorem compile_inanimate : (compile {} registry "posts" inanimate).result =
    .ok (compileFilter {} registry "posts" inanimate) :=
  compile_result_eq_ok.mpr ⟨by decide +kernel, rfl⟩

theorem compileClauses_inanimate : compileClauses {} registry "posts" inanimate =
    [.related ⟨⟨"tags", tags, "slug", false⟩, .ne, .str "animal"⟩] := by
  have hfield : Key.classify '$' "tags.slug" = .field "tags.slug" := by decide
  have hkey : Key.classify '$' "$ne" = .comparison .ne := by decide
  have hresolve : Field.resolve registry "posts" "tags.slug" =
      .ok (.related ⟨"tags", tags, "slug", false⟩) := by decide
  have hread : Operand.read .ne (.str "animal") = .ok ⟨.str "animal", false⟩ := rfl
  simp [compileClauses, inanimate, Clause.ofDocument, Clause.ofEntries, Clause.ofEntry,
    Clause.ofField, Clause.entryStray?, Clause.entryTest?, Clause.together, Clause.test, hfield,
    hkey, hresolve, hread]

theorem mem_allLeaves_inanimate : .membership .and ⟨"posts", "id"⟩ .notIn animals ∈
    Predicate.allLeaves (compileFilter {} registry "posts" inanimate).predicates := by
  have hpredicates : (compileFilter {} registry "posts" inanimate).predicates =
      [.membership .and ⟨"posts", "id"⟩ .notIn animals] := by
    rw [compileFilter, compileClauses_inanimate, Clause.scopePredicates,
      Clause.memberships_related]
    rfl
  simp [hpredicates, Predicate.allLeaves, Predicate.leaves]

end Blog

theorem truth_exclusion_inanimate :
    Predicate.membership .and ⟨"posts", "id"⟩ .notIn Blog.animals ∈ Predicate.allLeaves
      (compileFilter {} Blog.registry "posts" Blog.inanimate).predicates ∧
    ∃ name r conditions, Blog.registry.get? name = some r ∧
      Blog.animals = subqueryOf r .notIn conditions ∧
      (none ∈ (Sql.queryOf Blog.animals).results Blog.orphans .empty ↔
        r.Orphaned Blog.orphans .empty conditions) := by
  obtain ⟨-, name, r, conditions, hget, hq, hresults⟩ := truth_exclusion_compile
    Blog.built_registry Blog.compile_inanimate Blog.mem_allLeaves_inanimate
  exact ⟨Blog.mem_allLeaves_inanimate, name, r, conditions, hget, hq,
    (hresults Blog.orphans .empty).1⟩

/-- A post without any tag is not selected by asking for posts without a tag `animal`, because of a
row of the join table that has nothing to do with it. -/
theorem whereTruth_orphans_unknown :
    (compile {} Blog.registry "posts" Blog.inanimate).result =
      .ok (compileFilter {} Blog.registry "posts" Blog.inanimate) ∧
    Blog.post "id" = some "1" ∧ Blog.tags.rowsOf Blog.orphans "1" = [] ∧
    (compileFilter {} Blog.registry "posts" Blog.inanimate).select.whereTruth
      Blog.orphans Blog.post = .unknown :=
  ⟨Blog.compile_inanimate, rfl, rfl, by decide +kernel⟩

end DocFilter
