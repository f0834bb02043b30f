import DocFilter.Proofs.Accounting.Predicates
import DocFilter.Proofs.Clause.Scope
import DocFilter.Proofs.Compile.Outcome

/-!
# The columns of compiled filters

Every column of a compiled filter is one of a table that is there where the column stands
(`Predicate.InScope`): a column of the base table outside subqueries, and inside a subquery a column
of a table that the subquery reads. A subquery reads the tables of one relation of the registry, and
only tests of the document on that relation are among its conditions (`compile_inScope`).
-/

namespace DocFilter

/-- A subquery reads the tables of a relation: the join table and with it the target, or the target
by itself. -/
def Subquery.Through (q : Subquery) (r : Relation) : Prop :=
  match r.link with
  | .oneToMany foreignKey =>
    q.source = r.target ∧ q.select = ⟨r.target, foreignKey⟩ ∧ q.join = none
  | .manyToMany joinTable joinFrom joinTo =>
    q.source = joinTable ∧ q.select = ⟨joinTable, joinFrom⟩ ∧
      q.join = some ⟨r.target, ⟨r.target, r.targetKey⟩, ⟨joinTable, joinTo⟩⟩

/-- A condition that is not one of the tests guards the selected column against null. -/
def Subquery.Asks (q : Subquery) (tests : List RelatedTest) : Prop :=
  q.filters = tests.map RelatedTest.filter ∨
    q.filters = tests.map RelatedTest.filter ++ [.nullTest q.select true]

/-- The columns of a predicate are in scope, for tests on relations `written` in a document. -/
inductive Predicate.InScope (registry : Registry) (base : Column) (written : List RelatedTest) :
    Predicate → Prop
  | comparison (c : Connective) {column : Column} (op : Comparator) (v : Value)
      (table : column.table = base.table) :
      InScope registry base written (.comparison c column op v)
  | nullTest (c : Connective) {column : Column} (negated : Bool)
      (table : column.table = base.table) :
      InScope registry base written (.nullTest c column negated)
  | group (c inner : Connective) {ps : List Predicate}
      (members : ∀ p ∈ ps, InScope registry base written p) :
      InScope registry base written (.group c inner ps)
  | membership (c : Connective) (m : Membership) {q : Subquery} {name : String} {r : Relation}
      {tests : List RelatedTest} (found : registry.get? name = some r) (through : q.Through r)
      (asks : q.Asks tests) (alike : ∀ t ∈ tests, t ∈ written ∧ t.field.name = name)
      (columns : ∀ f ∈ q.filters, f.column.table = q.source ∨
        ∃ j, q.join = some j ∧ f.column.table = j.table) :
      InScope registry base written (.membership c base m q)

/-! ## Subqueries -/

theorem through_subqueryOf (r : Relation) (m : Membership) (conditions : List SubqueryFilter) :
    (subqueryOf r m conditions).Through r := by
  obtain ⟨target, targetKey, link⟩ := r
  cases link <;> exact ⟨rfl, rfl, rfl⟩

theorem asks_subqueryOf (r : Relation) (m : Membership) (tests : List RelatedTest) :
    (subqueryOf r m (tests.map RelatedTest.filter)).Asks tests := by
  obtain ⟨target, targetKey, link⟩ := r
  cases link with
  | manyToMany => exact Or.inl rfl
  | oneToMany =>
    cases m with
    | isIn => exact Or.inl rfl
    | notIn => exact Or.inr rfl

theorem column_filter (p : RelatedTest) : p.filter.column = p.field.ref := by
  unfold RelatedTest.filter
  split
  · rfl
  · split <;> rfl

/-- The join table of a column of a join table is that of its relation. -/
theorem RelatedField.Registered.joinTable?_eq {registry : Registry} {f : RelatedField}
    (h : f.Registered registry) (hr : registry.Consistent) (hj : f.onJoinTable = true) :
    f.relation.joinTable? = some f.table := by
  obtain ⟨table, htable, -⟩ := h.joinTable hr hj
  rw [RelatedField.table, if_pos hj, htable]
  rfl

/-- The table of a column of a relation is one of those that its subqueries read. -/
theorem Subquery.Through.reads {registry : Registry} {q : Subquery} {f : RelatedField}
    (h : q.Through f.relation) (hf : f.Registered registry) (hr : registry.Consistent) :
    f.table = q.source ∨ ∃ j, q.join = some j ∧ f.table = j.table := by
  unfold Subquery.Through at h
  cases hj : f.onJoinTable with
  | true =>
    have htable := hf.joinTable?_eq hr hj
    unfold Relation.joinTable? at htable
    split at h
    · next hlink =>
      rw [hlink] at htable
      cases htable
    · next hlink =>
      rw [hlink] at htable
      exact Or.inl ((Option.some.inj htable).symm.trans h.1.symm)
  | false =>
    have htable : f.table = f.relation.target := by
      rw [RelatedField.table, hj]
      rfl
    split at h
    · exact Or.inl (htable.trans h.1.symm)
    · exact Or.inr ⟨_, h.2.2, htable⟩

/-- The selected column of a subquery is one of its source. -/
theorem Subquery.Through.select_table {q : Subquery} {r : Relation} (h : q.Through r) :
    q.select.table = q.source := by
  unfold Subquery.Through at h
  split at h
  · rw [h.1, h.2.1]
  · rw [h.1, h.2.1]

/-- The conditions of a subquery are about tables that it reads. -/
theorem Subquery.Through.columns {registry : Registry} {q : Subquery} {r : Relation}
    {tests : List RelatedTest} (h : q.Through r) (hasks : q.Asks tests) (hr : registry.Consistent)
    (htests : ∀ t ∈ tests, t.Sound registry ∧ t.field.relation = r) :
    ∀ f ∈ q.filters, f.column.table = q.source ∨
      ∃ j, q.join = some j ∧ f.column.table = j.table := by
  have hconditions : ∀ f ∈ tests.map RelatedTest.filter, f.column.table = q.source ∨
      ∃ j, q.join = some j ∧ f.column.table = j.table := by
    intro f hf
    obtain ⟨t, ht, rfl⟩ := List.mem_map.mp hf
    obtain ⟨hsound, hrelation⟩ := htests t ht
    rw [column_filter]
    exact Subquery.Through.reads (hrelation.symm ▸ h) hsound.registered hr
  rcases hasks with hfilters | hfilters
  · rw [hfilters]
    exact hconditions
  · rw [hfilters]
    exact List.forall_mem_append.mpr
      ⟨hconditions, List.forall_mem_singleton.mpr (Or.inl h.select_table)⟩

/-! ## Leaves -/

namespace Predicate

/-- What a leaf of a compiled filter is made of, for tests on relations `written` in a document. A
test is on a column of the base table, and a membership test on its key, with the subquery for tests
on one relation of the registry. -/
def Attached (registry : Registry) (base : Column) (written : List RelatedTest) : Predicate → Prop
  | .comparison _ column _ _ => column.table = base.table
  | .nullTest _ column _ => column.table = base.table
  | .group _ _ _ => False
  | .membership _ b m q => b = base ∧ ∃ (name : String) (r : Relation) (tests : List RelatedTest),
      registry.get? name = some r ∧ q = subqueryOf r m (tests.map RelatedTest.filter) ∧
        ∀ t ∈ tests, t.Sound registry ∧ t ∈ written ∧ t.field.name = name

variable {registry : Registry} {base : Column} {written : List RelatedTest}

mutual

theorem inScope_of_leaves (hr : registry.Consistent) : ∀ p : Predicate,
    (∀ l ∈ p.leaves, l.Attached registry base written) → p.InScope registry base written
  | .comparison c column op v, h => by
    rw [leaves] at h
    exact .comparison c op v (h _ List.mem_cons_self)
  | .nullTest c column negated, h => by
    rw [leaves] at h
    exact .nullTest c negated (h _ List.mem_cons_self)
  | .group c inner ps, h => by
    rw [leaves] at h
    exact .group c inner (inScope_of_allLeaves hr ps h)
  | .membership c b m q, h => by
    rw [leaves] at h
    obtain ⟨rfl, name, r, tests, hget, rfl, htests⟩ := h _ List.mem_cons_self
    have hthrough := through_subqueryOf r m (tests.map RelatedTest.filter)
    have hasks := asks_subqueryOf r m tests
    refine .membership c m hget hthrough hasks (fun t ht => (htests t ht).2) ?_
    refine hthrough.columns hasks hr fun t ht => ?_
    obtain ⟨hsound, -, hname⟩ := htests t ht
    have hfound := hsound.registered.found
    rw [hname, hget] at hfound
    exact ⟨hsound, (Option.some.inj hfound).symm⟩

/-- Predicates are in scope by what their leaves are made of. -/
theorem inScope_of_allLeaves (hr : registry.Consistent) : ∀ ps : List Predicate,
    (∀ l ∈ allLeaves ps, l.Attached registry base written) →
      ∀ p ∈ ps, p.InScope registry base written
  | [], _ => List.forall_mem_nil _
  | p :: ps, h => by
    rw [allLeaves] at h
    obtain ⟨hp, hps⟩ := List.forall_mem_append.mp h
    exact List.forall_mem_cons.mpr
      ⟨inScope_of_leaves hr p hp, inScope_of_allLeaves hr ps hps⟩

end

end Predicate

namespace Clause

/-- The test on a relation that a clause is. -/
def related? : Clause → Option RelatedTest
  | .related p => some p
  | _ => none

/-- The tests on relations among the leaves of clauses. -/
def allRelated (xs : List Clause) : List RelatedTest := (allLeaves xs).filterMap related?

theorem attached_ownPredicate (registry : Registry) (base : Column) (written : List RelatedTest)
    (c : Connective) {column : Column} (h : column.table = base.table) (op : Comparator)
    (operand : Operand) :
    ∀ l ∈ (ownPredicate c column op operand).leaves, l.Attached registry base written := by
  unfold ownPredicate
  split
  · split <;> simp [Predicate.leaves, Predicate.allLeaves, Predicate.Attached, h]
  · split <;> simp [Predicate.leaves, Predicate.Attached, h]

theorem inherited_attached {ctx : Context} {base : Column} (hbase : base.table = ctx.base)
    (xs : List Clause) :
    Inherited ctx.registry (fun x => x.Sound ctx ∧ x ∈ allLeaves xs) base
      fun _ p => ∀ l ∈ p.leaves, l.Attached ctx.registry base (allRelated xs) where
  sound t ht := by
    cases ht.1 with
    | related sound => exact sound
  own c column op operand hown := by
    cases hown.1 with
    | own table => exact attached_ownPredicate _ _ _ c (table.trans hbase.symm) op operand
  group c inner _ _ hmembers l hl := by
    rw [Predicate.leaves] at hl
    obtain ⟨p, hp, hl⟩ := Predicate.mem_allLeaves.mp hl
    exact hmembers p hp l hl
  membership c ts p q hts hp hq l hl := by
    rw [Predicate.leaves] at hl
    obtain rfl := List.mem_singleton.mp hl
    have hsound : ∀ t ∈ ts, t.Sound ctx.registry := by
      intro t ht
      cases (hts t ht).1 with
      | related sound => exact sound
    refine ⟨rfl, p.field.name, p.field.relation, q.members.map (·.1.toRelatedTest),
      (hsound p hp).registered.found, by rw [List.map_map]; rfl, ?_⟩
    intro t ht
    obtain ⟨m, hm, rfl⟩ := List.mem_map.mp ht
    obtain ⟨hts', hname⟩ := Pending.mem_peers.mp (mem_of_mem_partitions hq hm)
    exact ⟨hsound m.1 hts', List.mem_filterMap.mpr ⟨_, (hts m.1 hts').2, rfl⟩, hname⟩

/-- The leaves of the predicates of a scope, by the clauses that they are made of. -/
theorem attached_scopePredicates {ctx : Context} {base : Column} (hbase : base.table = ctx.base)
    (c : Connective) {xs : List Clause} (hxs : ∀ x ∈ xs, x.Sound ctx) :
    ∀ l ∈ Predicate.allLeaves (scopePredicates base c xs),
      l.Attached ctx.registry base (allRelated xs) := by
  intro l hl
  obtain ⟨p, hp, hl⟩ := Predicate.mem_allLeaves.mp hl
  exact (inherited_attached hbase xs).scopePredicates c
    (fun x hx => ⟨sound_allLeaves xs hxs x hx, hx⟩) p hp l hl

end Clause

/-! ## Compilation -/

/-- The columns of a compiled filter are in scope, and a column that is looked up in a join table is
one of the join table of its relation. -/
theorem compile_inScope {options : Options} {registry : Registry} {base : String} {d : Document}
    {f : CompiledFilter} (hregistry : registry.Built)
    (hcompile : (compile options registry base d).result = .ok f) :
    (∀ p ∈ f.predicates, p.InScope registry ⟨base, options.baseKey⟩
      (Clause.allRelated (Clause.ofDocument ⟨base, registry, options.marker⟩ d))) ∧
    ∀ path field, Field.resolve registry base path = .ok (.related field) →
      field.onJoinTable = true → field.relation.joinTable? = some field.table := by
  obtain ⟨-, rfl⟩ := compile_result_eq_ok.mp hcompile
  have hr := hregistry.consistent
  constructor
  · exact Predicate.inScope_of_allLeaves hr _
      (Clause.attached_scopePredicates rfl .and (Clause.sound_ofDocument d))
  · intro path field hfield hjoin
    exact (Field.resolve_related hfield).joinTable?_eq hr hjoin

/-! ### Published posts and posts without comments -/

namespace Blog

/-- Posts that are published and whose first tag is not `a`, and posts without a comment by `b`. -/
def published : Document :=
  ⟨[("$or", .arr [
    .obj [("posts.status", .str "published"), ("tags.name", .obj [("$ne", .str "a")]),
      ("posts_tags.sort_order", .str "1")],
    .obj [("comments.author", .obj [("$ne", .str "b")])]])]⟩

/-- The filter that the document is compiled to. -/
def publishedFilter : CompiledFilter := compileFilter {} registry "posts" published

theorem compile_published : (compile {} registry "posts" published).result = .ok publishedFilter :=
  compile_result_eq_ok.mpr ⟨by decide +kernel, rfl⟩

end Blog

theorem compile_inScope_published :
    Blog.registry.Built ∧
    (compile {} Blog.registry "posts" Blog.published).result = .ok Blog.publishedFilter ∧
    (∀ p ∈ Blog.publishedFilter.predicates, p.InScope Blog.registry ⟨"posts", "id"⟩
      (Clause.allRelated (Clause.ofDocument ⟨"posts", Blog.registry, '$'⟩ Blog.published))) :=
  ⟨Blog.built_registry, Blog.compile_published,
    (compile_inScope Blog.built_registry Blog.compile_published).1⟩

end DocFilter
