import DocFilter.Proofs.Accounting.Predicates
import DocFilter.Proofs.Clause.Scope
import DocFilter.Proofs.Compile.Outcome

/-!
# The form of compiled filters

Compiled filters have a form that holds at every depth (`Predicate.Canonical`): predicates carry the
connective of their scope, groups hold something, membership tests come last in their scope,
comparators have the values they are made for, and subqueries only select, except for one guard
against null where a foreign key excludes. Writing a filter as SQL from left to right relies on it.
-/

namespace DocFilter

/-- A comparator and a value that can stand together in a filter: a flat list without null for `IN`
and `NOT IN`, and a single value other than null for the rest. -/
structure Comparator.Suits (op : Comparator) (v : Value) : Prop where
  list_iff : op = .isIn ∨ op = .notIn ↔ ∃ items, v = .list items
  not_null : v ≠ .null
  items : ∀ items, v = .list items → ∀ i ∈ items, i ≠ .null ∧ ∀ inner, i ≠ .list inner

/-- A condition that selects. -/
inductive SubqueryFilter.Selects : SubqueryFilter → Prop
  | comparison (column : Column) {op : Comparator} {v : Value} (not_ne : op ≠ .ne)
      (not_notIn : op ≠ .notIn) (suits : op.Suits v) : Selects (.comparison column op v)
  | nullTest (column : Column) : Selects (.nullTest column false)

/-- The form of the subquery of a membership test: it has conditions that select, and after them, if
a foreign key excludes, one that keeps it from being null. -/
def Subquery.Canonical (m : Membership) (q : Subquery) : Prop :=
  ∃ conditions, conditions ≠ [] ∧ (∀ f ∈ conditions, f.Selects) ∧
    q.filters = if q.join = none ∧ m = .notIn then conditions ++ [.nullTest q.select true]
      else conditions

namespace Predicate

/-- Whether a predicate is a membership test. -/
def isMembership : Predicate → Bool
  | .membership .. => true
  | _ => false

/-- All membership tests come after all other predicates. -/
def MembershipsLast (ps : List Predicate) : Prop :=
  ∃ before after, ps = before ++ after ∧ (∀ p ∈ before, p.isMembership = false) ∧
    ∀ p ∈ after, p.isMembership = true

/-- The form of a predicate in a scope joined by a connective. -/
inductive Canonical : Connective → Predicate → Prop
  | comparison (c : Connective) (column : Column) {op : Comparator} {v : Value}
      (suits : op.Suits v) : Canonical c (.comparison c column op v)
  | nullTest (c : Connective) (column : Column) (negated : Bool) :
      Canonical c (.nullTest c column negated)
  | group (c : Connective) {inner : Connective} {ps : List Predicate} (nonempty : ps ≠ [])
      (members : ∀ p ∈ ps, Canonical inner p) (last : MembershipsLast ps) :
      Canonical c (.group c inner ps)
  | membership (c : Connective) (base : Column) {m : Membership} {q : Subquery}
      (canonical : q.Canonical m) : Canonical c (.membership c base m q)

end Predicate

/-! ## Tests -/

theorem Operand.Fits.suits {op : Comparator} {o : Operand} (h : o.Fits op)
    (hnull : o.value.isNull = false) : op.Suits o.value := by
  have hne : o.value ≠ .null := by
    intro he
    rw [he] at hnull
    cases hnull
  refine ⟨⟨fun hop => ?_, ?_⟩, hne, ?_⟩
  · have htakes : op.takesList = true := by rcases hop with rfl | rfl <;> rfl
    exact h.list htakes hne
  · rintro ⟨items, hitems⟩
    have htakes := (h.items items hitems).1
    cases op with
    | isIn => exact Or.inl rfl
    | notIn => exact Or.inr rfl
    | _ => cases htakes
  · intro items hitems i hi
    have hnot := (h.items items hitems).2 i hi
    have hflat := h.flat items hitems i hi
    constructor
    · rintro rfl
      cases hnot
    · rintro inner rfl
      cases hflat

theorem Comparator.Suits.singleton {v : Value} (hnull : v ≠ .null)
    (hlist : ∀ items, v ≠ .list items) : Comparator.isIn.Suits (.list [v]) := by
  refine ⟨iff_of_true (Or.inl rfl) ⟨[v], rfl⟩, by simp, ?_⟩
  intro items hitems i hi
  cases hitems
  obtain rfl := List.mem_singleton.mp hi
  exact ⟨hnull, hlist⟩

/-- The condition of a test on a relation selects, because an exclusion is turned around. -/
theorem RelatedTest.Sound.selects_filter {registry : Registry} {p : RelatedTest}
    (h : p.Sound registry) : p.filter.Selects := by
  obtain ⟨field, op, v⟩ := p
  unfold RelatedTest.filter
  cases hnull : v.isNull with
  | true => exact .nullTest _
  | false =>
    have hsuits : op.Suits v := h.fits.suits hnull
    cases op with
    | ne =>
      have hlist : ∀ items, v ≠ .list items := by
        intro items hitems
        rcases hsuits.list_iff.mpr ⟨items, hitems⟩ with hop | hop <;> cases hop
      exact .comparison _ (by simp) (by simp) (.singleton hsuits.not_null hlist)
    | notIn =>
      -- the list stays as it is, under the comparator that selects
      have hlist : ∃ items, v = .list items := hsuits.list_iff.mp (Or.inr rfl)
      exact .comparison _ (by simp) (by simp)
        ⟨iff_of_true (Or.inl rfl) hlist, hsuits.not_null, hsuits.items⟩
    | _ => exact .comparison _ (by simp) (by simp) hsuits

theorem Clause.canonical_ownPredicate (c : Connective) (column : Column) {op : Comparator}
    {operand : Operand} (h : operand.Fits op) :
    (ownPredicate c column op operand).Canonical c := by
  unfold ownPredicate
  split
  · next hlists =>
    obtain ⟨items, hitems⟩ := h.nullItem hlists
    have hsuits : op.Suits (.list items) := by
      have := h.suits (by rw [hitems]; rfl)
      rwa [hitems] at this
    rw [hitems]
    cases items with
    | nil => exact .nullTest c column _
    | cons i rest =>
      refine .group c (List.cons_ne_nil _ _) ?_ ⟨_, [], (List.append_nil _).symm, ?_, ?_⟩
      · exact List.forall_mem_cons.mpr
          ⟨.comparison _ column hsuits, List.forall_mem_singleton.mpr (.nullTest _ column _)⟩
      · exact List.forall_mem_cons.mpr ⟨rfl, List.forall_mem_singleton.mpr rfl⟩
      · exact List.forall_mem_nil _
  · split
    · exact .nullTest c column _
    · next hnull => exact .comparison c column (h.suits (by simpa using hnull))

/-! ## Membership tests -/

theorem canonical_subqueryOf (r : Relation) (m : Membership) {conditions : List SubqueryFilter}
    (hne : conditions ≠ []) (h : ∀ f ∈ conditions, f.Selects) :
    (subqueryOf r m conditions).Canonical m := by
  refine ⟨conditions, hne, h, ?_⟩
  unfold subqueryOf
  cases r.link with
  | manyToMany => simp
  | oneToMany => cases m <;> simp [Membership.isNegated]

namespace Clause

variable (base : Column) (c : Connective)

theorem isMembership_predicates (x : Clause) :
    ∀ p ∈ x.predicates base c, p.isMembership = false := by
  cases x with
  | own column op operand =>
    rw [predicates]
    refine List.forall_mem_singleton.mpr ?_
    unfold ownPredicate
    split
    · split <;> rfl
    · split <;> rfl
  | group =>
    rw [predicates]
    split
    · exact List.forall_mem_nil _
    · exact List.forall_mem_singleton.mpr rfl
  | related | skipped | unknown =>
    rw [predicates]
    exact List.forall_mem_nil _

theorem isMembership_memberships (xs : List Clause) :
    ∀ p ∈ memberships base c xs, p.isMembership = true := by
  intro p hp
  obtain ⟨m, s, rfl⟩ := eq_membership_of_mem_memberships hp
  rfl

theorem membershipsLast_scopePredicates (xs : List Clause) :
    Predicate.MembershipsLast (scopePredicates base c xs) := by
  refine ⟨allPredicates base c xs, memberships base c xs, rfl, ?_,
    isMembership_memberships base c xs⟩
  induction xs with
  | nil =>
    rw [allPredicates]
    exact List.forall_mem_nil _
  | cons x xs ih =>
    rw [allPredicates]
    exact List.forall_mem_append.mpr ⟨isMembership_predicates base c x, ih⟩

/-- The form of predicates is inherited from sound clauses. -/
theorem inherited_canonical (ctx : Context) :
    Inherited ctx.registry (Sound ctx) base fun c p => p.Canonical c where
  sound t ht := by
    cases ht with
    | related sound => exact sound
  own c _ _ _ hown := by
    cases hown with
    | own _ fits => exact canonical_ownPredicate c _ fits
  membership c ts p q hts _ hq := by
    refine .membership c base (canonical_subqueryOf _ _ ?_ ?_)
    · simpa using members_ne_nil_of_mem_partitions hq
    · refine List.forall_mem_map.mpr fun t ht => ?_
      cases hts t.1 (Pending.mem_peers.mp (mem_of_mem_partitions hq ht)).1 with
      | related sound => exact sound.selects_filter
  group c inner xs hne hmembers :=
    .group c hne hmembers (membershipsLast_scopePredicates base inner xs)

end Clause

/-! ## Compilation -/

/-- What a compilation gives is in canonical form. -/
theorem compile_canonical {options : Options} {registry : Registry} {base : String} {d : Document}
    {f : CompiledFilter} (h : (compile options registry base d).result = .ok f) :
    (∀ p ∈ f.predicates, p.Canonical .and) ∧ Predicate.MembershipsLast f.predicates := by
  obtain ⟨-, rfl⟩ := compile_result_eq_ok.mp h
  have hsound : ∀ x ∈ Clause.allLeaves (compileClauses options registry base d),
      x.Sound ⟨base, registry, options.marker⟩ :=
    Clause.sound_allLeaves _ (Clause.sound_ofDocument d)
  exact ⟨(Clause.inherited_canonical _ _).scopePredicates .and hsound,
    Clause.membershipsLast_scopePredicates _ _ _⟩

/-! ### Posts and their comments -/

namespace Blog

/-- Posts without a comment by `a`, or with the title `t`, or without a title. -/
def uncommented : Document :=
  ⟨[("$or", .arr [.obj [("comments.author", .obj [("$ne", .str "a")])],
    .obj [("title", .obj [("$in", .arr [.str "t", .null])])]])]⟩

/-- The filter that the document is compiled to. -/
def uncommentedFilter : CompiledFilter := compileFilter {} registry "posts" uncommented

theorem compile_uncommented :
    (compile {} registry "posts" uncommented).result = .ok uncommentedFilter :=
  compile_result_eq_ok.mpr ⟨by decide +kernel, rfl⟩

end Blog

theorem compile_canonical_uncommented :
    (compile {} Blog.registry "posts" Blog.uncommented).result = .ok Blog.uncommentedFilter ∧
    Predicate.allConditions Blog.uncommentedFilter.predicates =
      [.comparison ⟨"comments", "author"⟩ .isIn (.list [.str "a"]),
        .nullTest ⟨"comments", "post_id"⟩ true] ∧
    (∀ p ∈ Blog.uncommentedFilter.predicates, p.Canonical .and) ∧
      Predicate.MembershipsLast Blog.uncommentedFilter.predicates :=
  ⟨Blog.compile_uncommented, by decide +kernel, compile_canonical Blog.compile_uncommented⟩

end DocFilter
