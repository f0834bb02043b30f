import DocFilter.Proofs.Meaning.Preservation
import DocFilter.Proofs.Placement.Growth
import DocFilter.Proofs.Reordering.Clauses

/-!
# Adding to a conjunction

A conjunction of tests that select is meant to select fewer rows the more tests it has. For tests on
the base table that is so. Tests on a relation share subqueries, and a further test can send another
one to the next subquery, away from the tests that it was to be met with by one related row. So a
further test narrows the conjunction as long as it leaves together what is together
(`whereTruth_conjunction_append`), and may widen it otherwise (`whereTruth_conjunction_widened`).
-/

namespace DocFilter

variable {α : Type} {db : Database α} {env : Sql.Env α}

/-! ## Subqueries with more conditions -/

/-- The more conditions a subquery has, the fewer results it gives. -/
theorem results_subqueryOf_subset (r : Relation) {fs gs : List SubqueryFilter} (hsub : fs ⊆ gs) :
    (Sql.queryOf (subqueryOf r .isIn gs)).results db env ⊆
      (Sql.queryOf (subqueryOf r .isIn fs)).results db env := by
  intro x hx
  rw [Sql.mem_results_queryOf] at hx ⊢
  obtain ⟨target, targetKey, link⟩ := r
  cases link with
  | oneToMany foreignKey =>
    obtain ⟨row, hrow, e, he, hgs, rfl⟩ := hx
    exact ⟨row, hrow, e, he, fun f hf => hgs f (hsub hf), rfl⟩
  | manyToMany joinTable joinFrom joinTo =>
    obtain ⟨row, hrow, e, he, hgs, rfl⟩ := hx
    exact ⟨row, hrow, e, he, fun f hf => hgs f (hsub hf), rfl⟩

theorem Partition.holds_predicate_isIn {q : Partition} (hq : q.membership = .isIn) {c : Connective}
    {base : Column} {r : Relation} : (q.predicate c base r).holds db env = true ↔
      ∃ x ∈ (Sql.queryOf (subqueryOf r .isIn (q.members.map (·.1.filter)))).results db env,
        Sql.compareCells db .eq ((Sql.columnExpr base).cell db env) x = .true := by
  rw [Partition.predicate, hq, Predicate.holds_membership, Sql.Expr.holds_eq_true, Sql.Expr.truth,
    Membership.isNegated, Sql.Truth.negateIf, if_neg Bool.false_ne_true, Sql.Truth.any_eq_true,
    List.mem_map]

/-- A partition that selects says no less than one with fewer tests. -/
theorem Partition.holds_predicate_of_subset {q q' : Partition} (hq : q.membership = .isIn)
    (hq' : q'.membership = .isIn) (hsub : q.members.map Prod.fst ⊆ q'.members.map Prod.fst)
    {c : Connective} {base : Column} {r : Relation}
    (h : (q'.predicate c base r).holds db env = true) :
    (q.predicate c base r).holds db env = true := by
  have hfilters := List.map_subset (·.filter) hsub
  rw [List.map_map, List.map_map] at hfilters
  obtain ⟨x, hx, hsame⟩ := (holds_predicate_isIn hq').mp h
  exact (holds_predicate_isIn hq).mpr ⟨x, results_subqueryOf_subset r hfilters hx, hsame⟩

namespace Clause

variable {ctx : Context} {base : Column}

/-! ## Scopes with more clauses -/

/-- Further clauses that spare the tests on relations narrow a conjunction. -/
theorem holds_scopePredicates_of_append {xs ys : List Clause} (hxs : ∀ x ∈ xs, x.Sound ctx)
    (hys : ∀ y ∈ ys, y.Sound ctx) (hpos : ∀ p ∈ xs.filterMap (pending? .and), p.role = .positive)
    (hpos' : ∀ p ∈ ys.filterMap (pending? .and), p.role = .positive)
    (hspares : ∀ s ∈ ys.filterMap (pending? .and),
      Pending.Spares (Pending.peers (xs.filterMap (pending? .and)) s) s)
    (h : ∀ p ∈ scopePredicates base .and (xs ++ ys), p.holds db env = true) :
    ∀ p ∈ scopePredicates base .and xs, p.holds db env = true := by
  obtain ⟨hown, hrelated⟩ := List.forall_mem_append.mp h
  refine List.forall_mem_append.mpr ⟨fun p hp => hown p ?_, fun x hx => ?_⟩
  · rw [allPredicates_eq_flatMap] at hp ⊢
    rw [List.flatMap_append]
    exact List.mem_append_left _ hp
  · obtain ⟨p, hp, q, hq, rfl⟩ := (mem_memberships (sound_pendings hxs .and) .and base).mp hx
    have hpeer : ∀ s ∈ Pending.peers (ys.filterMap (pending? .and)) p,
        Pending.Spares (Pending.peers (xs.filterMap (pending? .and)) p) s := by
      intro s hs
      obtain ⟨hs, hname⟩ := Pending.mem_peers.mp hs
      have hspared := hspares s hs
      rwa [Pending.peers, hname] at hspared
    obtain ⟨hisIn, q', hq', hisIn', hsub⟩ := Pending.exists_partition_superset
      (fun t ht => hpos t (Pending.mem_peers.mp ht).1)
      (fun t ht => hpos' t (Pending.mem_peers.mp ht).1) hpeer hq
    refine Partition.holds_predicate_of_subset hisIn hisIn' hsub (hrelated _ ?_)
    have hsound : ∀ t ∈ (xs ++ ys).filterMap (pending? .and), t.Sound ctx.registry :=
      sound_pendings (List.forall_mem_append.mpr ⟨hxs, hys⟩) .and
    refine (mem_memberships hsound .and base).mpr ⟨p, ?_, q', ?_, rfl⟩
    · rw [List.filterMap_append]
      exact List.mem_append_left _ hp
    · rwa [List.filterMap_append, Pending.peers, List.filter_append]

/-- A group that is a conjunction says what its scope says, also when it is left out. -/
theorem holds_predicates_group (written : Option Nat) (c : Connective) (xs : List Clause) :
    (∀ p ∈ (group written .and xs).predicates base c, p.holds db env = true) ↔
      ∀ p ∈ scopePredicates base .and xs, p.holds db env = true := by
  have hjoined := joined_scopePredicates base .and xs
  rw [predicates, ← scopePredicates]
  cases hps : scopePredicates base .and xs with
  | nil => simp
  | cons p ps =>
    rw [hps] at hjoined
    rw [List.forall_mem_singleton, Predicate.holds_group db env (List.cons_ne_nil p ps) hjoined]
    simp [Connective.combine]

/-! ## Elements -/

theorem ofElements_append (c : Connective) (path : String) (i : Nat) (js ks : List Json) :
    ofElements ctx c path i (js ++ ks) =
      ofElements ctx c path i js ++ ofElements ctx c path (i + js.length) ks := by
  induction js generalizing i with
  | nil => rw [ofElements]; rfl
  | cons j js ih =>
    rw [List.cons_append, ofElements, ofElements, ih, List.append_assoc, List.length_cons,
      Nat.add_right_comm, Nat.add_assoc]

theorem mem_allSteps {strict : Bool} {s : Step} {xs : List Clause} :
    s ∈ allSteps strict base xs ↔ ∃ x ∈ xs, s ∈ x.steps strict base := by
  induction xs with
  | nil => simp [allSteps]
  | cons x xs ih => rw [allSteps, List.mem_append, ih, List.exists_mem_cons_iff]

/-- An element that asks a field for values, by comparators that select. The field is one of the
base table or of the target of a relation, but not of a join table. -/
inductive Selecting (ctx : Context) : Json → Prop
  | mk {name : String} {value : Json} (field : Key.classify ctx.marker name = .field name)
      (target : ∀ f, Field.resolve ctx.registry ctx.base name = .ok (.related f) →
        f.onJoinTable = false)
      (operators : ∀ entries, value = .obj entries → ∀ e ∈ entries,
        ∃ op, Key.classify ctx.marker e.1 = .comparison op ∧ op.isNegated = false) :
      Selecting ctx (.obj [(name, value)])

/-- The tests on relations in an element of a conjunction. -/
def elementTests (ctx : Context) (j : Json) : List Pending :=
  (ofElement ctx .and "" j).filterMap (pending? .and)

theorem Selecting.isObject {j : Json} (h : Selecting ctx j) : Clause.isObject j = true := by
  cases h
  rfl

theorem pending?_test_path (field : Field) (op : Comparator) (path path' : String) (j : Json) :
    (test field op path j).pending? .and = (test field op path' j).pending? .and := by
  unfold test
  split
  · rfl
  · split
    · rfl
    · split <;> rfl

theorem pending?_test {field : Field} {op : Comparator} {path : String} {j : Json} {p : Pending}
    (h : (test field op path j).pending? .and = some p) : field = .related p.field ∧ p.op = op := by
  unfold test at h
  split at h
  · cases h
  · split at h
    · cases h
    · split at h
      · cases h
      · cases h
        exact ⟨rfl, rfl⟩

theorem ofElement_single {name : String} (h : Key.classify ctx.marker name = .field name)
    (path : String) (value : Json) : ofElement ctx .and path (.obj [(name, value)]) =
      ofField ctx .and (joinPath path name) name value := by
  rw [ofElement, if_neg (by simp), ofEntries, ofEntries, List.append_nil]
  cases value <;> rw [ofEntry, h] <;> simp

theorem pendings_ofField_obj {name : String} {field : Field}
    (h : Field.resolve ctx.registry ctx.base name = .ok field) (path : String)
    (entries : List (String × Json)) :
    (ofField ctx .and path name (.obj entries)).filterMap (pending? .and) =
      entries.filterMap fun e => (entryTest? ctx.marker field path e).bind (pending? .and) := by
  have hstray :
      (entries.filterMap (entryStray? ctx.marker path)).filterMap (pending? .and) = [] := by
    refine List.filterMap_eq_nil_iff.mpr fun x hx => ?_
    obtain ⟨e, -, he⟩ := List.mem_filterMap.mp hx
    obtain ⟨_, rfl⟩ := eq_unrecognized_of_entryStray? he
    rfl
  cases entries with
  | nil => simp [ofField, h, malformed, pending?]
  | cons e entries =>
    simp only [ofField, h, List.filterMap_append, hstray, List.nil_append, together]
    rw [if_neg (by simp), List.filterMap_filterMap]

/-- Where a field stands does not change its tests on relations. -/
theorem pendings_ofField_path (path path' name : String) (value : Json) :
    (ofField ctx .and path name value).filterMap (pending? .and) =
      (ofField ctx .and path' name value).filterMap (pending? .and) := by
  cases hresolve : Field.resolve ctx.registry ctx.base name with
  | error e =>
    cases e with
    | malformed =>
      simp only [ofField, hresolve]
      rfl
    | unknownRelation => simp only [ofField, hresolve]
  | ok field =>
    cases value with
    | obj entries =>
      rw [pendings_ofField_obj hresolve, pendings_ofField_obj hresolve]
      refine List.filterMap_congr fun e _ => ?_
      unfold entryTest?
      split
      · exact pending?_test_path ..
      · rfl
    | arr =>
      simp only [ofField, hresolve]
      rfl
    | null | bool | num | str =>
      simp only [ofField, hresolve, List.filterMap_cons, List.filterMap_nil]
      rw [pending?_test_path field .eq path path']

/-- A test on a relation is on the field that it was written for, with one of the comparators that
were written for it. -/
theorem mem_pendings_ofField {path name : String} {value : Json} {p : Pending}
    (hp : p ∈ (ofField ctx .and path name value).filterMap (pending? .and)) :
    Field.resolve ctx.registry ctx.base name = .ok (.related p.field) ∧
      (p.op = .eq ∨ ∃ entries, value = .obj entries ∧
        ∃ e ∈ entries, Key.classify ctx.marker e.1 = .comparison p.op) := by
  cases hresolve : Field.resolve ctx.registry ctx.base name with
  | error e => cases e <;> simp [ofField, hresolve, malformed, pending?] at hp
  | ok field =>
    cases value with
    | obj entries =>
      rw [pendings_ofField_obj hresolve] at hp
      obtain ⟨e, he, hp⟩ := List.mem_filterMap.mp hp
      obtain ⟨x, hx, hp⟩ := Option.bind_eq_some_iff.mp hp
      unfold entryTest? at hx
      split at hx
      · next op hop =>
        cases hx
        obtain ⟨rfl, rfl⟩ := pending?_test hp
        exact ⟨rfl, Or.inr ⟨entries, rfl, e, he, hop⟩⟩
      · cases hx
    | arr => simp [ofField, hresolve, malformed, pending?] at hp
    | null | bool | num | str =>
      simp only [ofField, hresolve, List.mem_filterMap, List.mem_singleton, exists_eq_left] at hp
      obtain ⟨rfl, hop⟩ := pending?_test hp
      exact ⟨rfl, Or.inl hop⟩

theorem Selecting.pendings {j : Json} (h : Selecting ctx j) (path : String) :
    (ofElement ctx .and path j).filterMap (pending? .and) = elementTests ctx j := by
  cases h with
  | mk field =>
    rw [elementTests, ofElement_single field, ofElement_single field]
    exact pendings_ofField_path ..

theorem Selecting.positive {j : Json} (h : Selecting ctx j) :
    ∀ p ∈ elementTests ctx j, p.role = .positive := by
  intro p hp
  cases h with
  | mk field target operators =>
    rw [elementTests, ofElement_single field] at hp
    obtain ⟨hresolve, hop⟩ := mem_pendings_ofField hp
    have hselects : p.op.isNegated = false := by
      rcases hop with heq | ⟨entries, hvalue, e, he, hclassify⟩
      · rw [heq]
        rfl
      · obtain ⟨op, hop, hselects⟩ := operators entries hvalue e he
        rw [hclassify] at hop
        cases hop
        exact hselects
    simp [RelatedTest.role, hselects, target p.field hresolve]

/-- The tests on relations in a conjunction are those of its elements. -/
theorem pendings_ofElements {js : List Json} (h : ∀ j ∈ js, Selecting ctx j) (path : String)
    (i : Nat) :
    (ofElements ctx .and path i js).filterMap (pending? .and) = js.flatMap (elementTests ctx) := by
  induction js generalizing i with
  | nil => rw [ofElements]; rfl
  | cons j js ih =>
    obtain ⟨hj, hjs⟩ := List.forall_mem_cons.mp h
    rw [ofElements, List.filterMap_append, hj.pendings, ih hjs, List.flatMap_cons]

theorem positive_ofElements {js : List Json} (h : ∀ j ∈ js, Selecting ctx j) :
    ∀ p ∈ js.flatMap (elementTests ctx), p.role = .positive := by
  intro p hp
  obtain ⟨j, hj, hp⟩ := List.mem_flatMap.mp hp
  exact (h j hj).positive p hp

end Clause

/-! ## Documents that are conjunctions -/

/-- The key of a connective. -/
def Connective.key (marker : Char) (c : Connective) : String :=
  String.ofList (marker :: c.token.toList)

theorem Key.classify_key (marker : Char) (c : Connective) :
    Key.classify marker (c.key marker) = .logical c := by
  cases c <;> simp [Key.classify, Key.afterMarker?, Connective.key, Connective.token,
    Connective.ofToken?]

/-- The document that joins elements by `and`. -/
def Document.conjunction (marker : Char) (elements : List Json) : Document :=
  ⟨[(Connective.and.key marker, .arr elements)]⟩

section

variable {options : Options} {registry : Registry} {base : String} {js : List Json}

/-- The clauses in the group of a conjunction. -/
def conjunctionClauses (options : Options) (registry : Registry) (base : String)
    (js : List Json) : List Clause :=
  Clause.ofElements ⟨base, registry, options.marker⟩ .and (Connective.and.key options.marker) 0 js

theorem compileClauses_conjunction (h : ∀ j ∈ js, Clause.isObject j = true) :
    compileClauses options registry base (.conjunction options.marker js) =
      [.group (some (js.filter Clause.isObject).length) .and
        (conjunctionClauses options registry base js)] := by
  have hpath : Clause.joinPath "" (Connective.and.key options.marker) =
      Connective.and.key options.marker := by
    rw [Clause.joinPath, if_pos (by decide)]
  rw [compileClauses, Clause.ofDocument, Document.conjunction, Clause.ofEntries, Clause.ofEntries,
    hpath, Clause.ofEntry]
  simp only [Key.classify_key, Clause.strayElements_eq_nil h, List.nil_append, List.append_nil]
  rfl

/-- A conjunction fails to compile if one of its elements does. -/
theorem failure?_conjunction (h : ∀ j ∈ js, Clause.isObject j = true) :
    Step.failure? (compileSteps options registry base (.conjunction options.marker js)) = none ↔
      ∀ e, ∀ x ∈ conjunctionClauses options registry base js,
        Step.fail e ∉ x.steps options.strict ⟨base, options.baseKey⟩ := by
  rw [Step.failure?_eq_none]
  refine forall_congr' fun e => ?_
  rw [compileSteps, compileClauses_conjunction h, List.mem_append,
    or_iff_left Clause.fail_notMem_flushing, Clause.mem_allSteps]
  simp [Clause.steps_group, Clause.fail_notMem_flushing, Clause.mem_allSteps]

/-- A conjunction selects the rows of which its elements are true. -/
theorem whereTruth_conjunction (h : ∀ j ∈ js, Clause.isObject j = true) {db : Database α}
    {row : Row α} :
    (compileFilter options registry base (.conjunction options.marker js)).select.whereTruth db
        row = .true ↔
      ∀ p ∈ Clause.scopePredicates ⟨base, options.baseKey⟩ .and
          (conjunctionClauses options registry base js),
        p.holds db (Sql.Env.empty.bind base row) = true := by
  rw [CompiledFilter.whereTruth_select (Clause.joined_scopePredicates _ _ _),
    ← Clause.holds_predicates_group (some (js.filter Clause.isObject).length) .and]
  have hpredicates : (compileFilter options registry base
      (.conjunction options.marker js)).predicates = Clause.predicates ⟨base, options.baseKey⟩ .and
        (.group (some (js.filter Clause.isObject).length) .and
          (conjunctionClauses options registry base js)) := by
    have hmemberships : ∀ n xs, Clause.memberships ⟨base, options.baseKey⟩ .and
        [.group n .and xs] = [] := fun _ _ => rfl
    simp [compileFilter, compileClauses_conjunction h, Clause.scopePredicates,
      Clause.allPredicates, hmemberships]
  rw [hpredicates]
  rfl

variable {ts : List Pending}

/-- Tests on known relations compile. -/
theorem compile_conjunction_related (h : ∀ j ∈ js, Clause.isObject j = true)
    (hclauses : conjunctionClauses options registry base js =
      ts.map (.related ·.toRelatedTest)) :
    (compile options registry base (.conjunction options.marker js)).result =
      .ok (compileFilter options registry base (.conjunction options.marker js)) := by
  refine compile_result_eq_ok.mpr ⟨(failure?_conjunction h).mpr fun e x hx => ?_, rfl⟩
  rw [hclauses] at hx
  obtain ⟨p, -, rfl⟩ := List.mem_map.mp hx
  simp [Clause.steps]

/-- A conjunction of tests on relations selects the rows of which they are true together. -/
theorem whereTruth_conjunction_related (h : ∀ j ∈ js, Clause.isObject j = true)
    (hclauses : conjunctionClauses options registry base js =
      ts.map (.related ·.toRelatedTest)) (hts : ∀ p ∈ ts, p.connective = .and)
    (hregistry : registry.Built) {db : Database α} {row : Row α} {key : α}
    (hkeyed : ∀ name relation, registry.get? name = some relation → relation.Keyed db)
    (hkey : row options.baseKey = some key) :
    (compileFilter options registry base (.conjunction options.marker js)).select.whereTruth db
      row = .true ↔ Sense.testsHold db key ts = true := by
  have hat : AtRow registry db (Sql.Env.empty.bind base row) ⟨base, options.baseKey⟩ key :=
    ⟨hregistry.consistent, hkeyed, by simpa using hkey⟩
  have hsound : ∀ x ∈ conjunctionClauses options registry base js,
      x.Sound ⟨base, registry, options.marker⟩ := Clause.sound_ofElements .and _ 0 js
  have hpendings :
      (conjunctionClauses options registry base js).filterMap (Clause.pending? .and) = ts := by
    rw [hclauses, List.filterMap_map]
    refine (List.filterMap_congr fun p hp => ?_).trans List.filterMap_some
    rw [← hts p hp]
    rfl
  have hown : Clause.allPredicates ⟨base, options.baseKey⟩ .and
      (conjunctionClauses options registry base js) = [] := by
    rw [hclauses, Clause.allPredicates_eq_flatMap, List.flatMap_map]
    exact List.flatMap_eq_nil_iff.mpr fun p _ => by rw [Clause.predicates]
  rw [whereTruth_conjunction h, Clause.scopePredicates, hown, List.nil_append, Clause.memberships,
    forall_memberships_and hat (Clause.sound_pendings hsound .and), hpendings]

end

/-- A further element narrows a conjunction if its tests spare those of the conjunction: the
conjunction compiles without it, and selects every row that it selects with it. -/
theorem whereTruth_conjunction_append {options : Options} {registry : Registry} {base : String}
    {js : List Json} {j : Json} {f : CompiledFilter} {db : Database α} {row : Row α}
    (hjs : ∀ k ∈ js ++ [j], Clause.Selecting ⟨base, registry, options.marker⟩ k)
    (hspares : ∀ s ∈ Clause.elementTests ⟨base, registry, options.marker⟩ j,
      Pending.Spares (Pending.peers
        (js.flatMap (Clause.elementTests ⟨base, registry, options.marker⟩)) s) s)
    (hcompile : (compile options registry base
      (.conjunction options.marker (js ++ [j]))).result = .ok f)
    (hrow : f.select.whereTruth db row = .true) :
    ∃ g, (compile options registry base (.conjunction options.marker js)).result = .ok g ∧
      g.select.whereTruth db row = .true := by
  obtain ⟨hfailure, rfl⟩ := compile_result_eq_ok.mp hcompile
  obtain ⟨hjs', hj⟩ := List.forall_mem_append.mp hjs
  have hobjects : ∀ k ∈ js ++ [j], Clause.isObject k = true := fun k hk => (hjs k hk).isObject
  have hobjects' : ∀ k ∈ js, Clause.isObject k = true := fun k hk => (hjs' k hk).isObject
  -- the clauses of the further element come after those of the others
  have happend : ∃ ys, conjunctionClauses options registry base (js ++ [j]) =
      conjunctionClauses options registry base js ++ ys ∧
      (∀ y ∈ ys, y.Sound ⟨base, registry, options.marker⟩) ∧
      ys.filterMap (Clause.pending? .and) =
        Clause.elementTests ⟨base, registry, options.marker⟩ j := by
    refine ⟨_, Clause.ofElements_append .and _ 0 js [j], Clause.sound_ofElements .and _ _ [j], ?_⟩
    rw [Clause.pendings_ofElements hj, List.flatMap_singleton]
  obtain ⟨ys, happend, hys, htests⟩ := happend
  have htests' : (conjunctionClauses options registry base js).filterMap (Clause.pending? .and) =
      js.flatMap (Clause.elementTests ⟨base, registry, options.marker⟩) :=
    Clause.pendings_ofElements hjs' _ 0
  have hsteps := (failure?_conjunction hobjects).mp hfailure
  have hholds := (whereTruth_conjunction hobjects).mp hrow
  rw [happend] at hsteps hholds
  refine ⟨_, compile_result_eq_ok.mpr ⟨(failure?_conjunction hobjects').mpr fun e x hx => ?_, rfl⟩,
    (whereTruth_conjunction hobjects').mpr ?_⟩
  · exact hsteps e x (List.mem_append_left ys hx)
  · refine Clause.holds_scopePredicates_of_append (Clause.sound_ofElements .and _ 0 js) hys ?_ ?_ ?_
      hholds
    · rw [htests']
      exact Clause.positive_ofElements hjs'
    · rw [htests]
      exact (hj j (List.mem_singleton_self j)).positive
    · rw [htests, htests']
      exact hspares

/-! ### Posts by the names and levels of their tags -/

/-- The order of tests is known once they are in an order without ties. -/
theorem Pending.ranked_eq (ts us : List Pending) (hperm : ts.Perm us)
    (hsorted : us.Pairwise fun p q => p.precedes q = true)
    (hties : ∀ p ∈ us, ∀ q ∈ us, p.precedes q = true → q.precedes p = true → p = q) :
    Pending.ranked ts = us := by
  have hranked : (ranked ts).Perm us := (List.mergeSort_perm ts _).trans hperm
  refine hranked.eq_of_pairwise (fun p q hp hq => ?_) (pairwise_ranked ts) hsorted
  exact hties p (hranked.mem_iff.mp hp) q hq

/-- What tests say that are all on one relation. -/
theorem Sense.testsHold_of_peers {db : Database α} {key : α} {p : Pending} {ts : List Pending}
    (h : ∀ q ∈ p :: ts, q.field.name = p.field.name ∧ q.field.relation = p.field.relation) :
    Sense.testsHold db key (p :: ts) =
      Pending.together db (p.field.relation.rowsOf db key) (p :: ts) := by
  have hall : ∀ q ∈ p :: ts, Pending.together db (q.field.relation.rowsOf db key)
      ((p :: ts).filter (·.field.name == q.field.name)) =
        Pending.together db (p.field.relation.rowsOf db key) (p :: ts) := by
    intro q hq
    have hpeers : (p :: ts).filter (·.field.name == q.field.name) = p :: ts :=
      List.filter_eq_self.mpr fun t ht => by simp [(h t ht).1, (h q hq).1]
    rw [hpeers, (h q hq).2]
  rw [Sense.testsHold, Bool.eq_iff_iff, List.all_eq_true]
  constructor
  · intro htogether
    rw [← hall p List.mem_cons_self]
    exact htogether p List.mem_cons_self
  · intro htogether q hq
    rw [hall q hq]
    exact htogether

namespace Blog

/-- Asks for a tag with a name. -/
def withName (s : String) : Json := .obj [("tags.name", .str s)]

/-- Asks for a tag of a high level. -/
def withLevel : Json := .obj [("tags.level", .obj [("$gt", .num (.nat 3))])]

/-- The test for a tag of a high level. -/
def high : Pending := ⟨⟨⟨"tags", tags, "level", false⟩, .gt, .int 3⟩, .and⟩

/-- The post has a tag `async` of a high level, and tags `java` and `rust` of a low one. -/
def leveled : Database String where
  rows table :=
    if table = "posts_tags" then
      ["7", "8", "9"].map fun id c => if c = "tag_id" then some id else some "1"
    else if table = "tags" then
      [("7", "'async'", "5"), ("8", "'java'", "2"), ("9", "'rust'", "2")].map
        fun (id, name, level) c => if c = "id" then some id else
          if c = "name" then some name else some level
    else []
  literal v := v.display
  compare
    | .eq, a, b => a == b
    | .gt, a, b => decide (b < a)
    | _, _, _ => false

theorem resolve_name : Field.resolve registry "posts" "tags.name" =
    .ok (.related ⟨"tags", tags, "name", false⟩) := by
  decide

theorem resolve_level : Field.resolve registry "posts" "tags.level" =
    .ok (.related ⟨"tags", tags, "level", false⟩) := by
  decide

theorem selecting_withName (s : String) :
    Clause.Selecting ⟨"posts", registry, '$'⟩ (withName s) := by
  refine .mk (by decide) (fun f hf => ?_) (fun entries h => by cases h)
  cases resolve_name.symm.trans hf
  rfl

theorem selecting_withLevel : Clause.Selecting ⟨"posts", registry, '$'⟩ withLevel := by
  refine .mk (by decide) (fun f hf => ?_) (fun entries h e he => ?_)
  · cases resolve_level.symm.trans hf
    rfl
  · cases h
    obtain rfl := List.mem_singleton.mp he
    exact ⟨.gt, by decide, rfl⟩

theorem ofElement_withName (path s : String) :
    Clause.ofElement ⟨"posts", registry, '$'⟩ .and path (withName s) =
      [.related (named .eq s).toRelatedTest] := by
  have hread : Operand.read .eq (.str s) = .ok ⟨.str s, false⟩ := rfl
  rw [withName, Clause.ofElement_single (by decide)]
  simp [Clause.ofField, resolve_name, Clause.test, hread, named]

theorem ofElement_withLevel (path : String) :
    Clause.ofElement ⟨"posts", registry, '$'⟩ .and path withLevel =
      [.related high.toRelatedTest] := by
  have hkey : Key.classify '$' "$gt" = .comparison .gt := by decide
  have hread : Operand.read .gt (.num (.nat 3)) = .ok ⟨.int 3, false⟩ := rfl
  rw [withLevel, Clause.ofElement_single (by decide)]
  simp [Clause.ofField, resolve_level, Clause.entryStray?, Clause.entryTest?, hkey, Clause.together,
    Clause.test, hread, high]

/-- What a conjunction of tests on tags says about the post. -/
theorem whereTruth_leveled (js : List Json) (p : Pending) (ts : List Pending)
    (hjs : ∀ j ∈ js, Clause.isObject j = true)
    (hclauses : conjunctionClauses {} registry "posts" js =
      (p :: ts).map (.related ·.toRelatedTest))
    (htags : ∀ q ∈ p :: ts,
      (q.field.name = "tags" ∧ q.field.relation = tags) ∧ q.connective = .and) :
    ∃ f, (compile {} registry "posts" (.conjunction '$' js)).result = .ok f ∧
      (f.select.whereTruth leveled post = .true ↔
        Pending.together leveled (tags.rowsOf leveled "1") (p :: ts) = true) := by
  have hp := (htags p List.mem_cons_self).1
  have hkeyed : ∀ name relation, registry.get? name = some relation → relation.Keyed leveled :=
    keyed_of_rows (List.forall_mem_map.mpr fun id _ => by simp)
  refine ⟨_, compile_conjunction_related hjs hclauses, ?_⟩
  rw [← hp.2, ← Sense.testsHold_of_peers fun q hq => by rw [hp.1, hp.2]; exact (htags q hq).1]
  exact whereTruth_conjunction_related hjs hclauses (fun q hq => (htags q hq).2) built_registry
    hkeyed rfl

theorem spares_java : ∀ s ∈ Clause.elementTests ⟨"posts", registry, '$'⟩ (withName "java"),
    Pending.Spares (Pending.peers ([withLevel, withName "async", withName "rust"].flatMap
      (Clause.elementTests ⟨"posts", registry, '$'⟩)) s) s := by
  have hpeers : Pending.peers ([withLevel, withName "async", withName "rust"].flatMap
      (Clause.elementTests ⟨"posts", registry, '$'⟩)) (named .eq "java") =
        [high, named .eq "async", named .eq "rust"] := by
    simp only [List.flatMap_cons, List.flatMap_nil, Clause.elementTests, ofElement_withName,
      ofElement_withLevel]
    decide
  rw [Clause.elementTests, ofElement_withName]
  refine List.forall_mem_singleton.mpr ?_
  show Pending.Spares (Pending.peers _ (named .eq "java")) (named .eq "java")
  rw [hpeers]
  exact Or.inr (by decide +kernel)

/-- Conjunctions of tests on tags, each with its tests in the order of their keys and with what it
says about the post. The name `java` comes after `async` and before `rust`, and only the first of
them shares a subquery with the level. The name `async` comes before `rust`, and takes the level
away from it. -/
def conjunctions : List (List Pending × List Pending × Bool) :=
  [([high, named .eq "async", named .eq "rust", named .eq "java"],
      [high, named .eq "async", named .eq "java", named .eq "rust"], true),
    ([named .eq "rust", high, named .eq "async"],
      [high, named .eq "async", named .eq "rust"], true),
    ([named .eq "rust", high], [high, named .eq "rust"], false)]

theorem together_conjunctions : ∀ c ∈ conjunctions,
    Pending.together leveled (tags.rowsOf leveled "1") c.1 = c.2.2 := by
  have horder : ∀ c ∈ conjunctions, c.1.Perm c.2.1 ∧
      c.2.1.Pairwise (fun p q => p.precedes q = true) ∧
      ∀ p ∈ c.2.1, ∀ q ∈ c.2.1, p.precedes q = true → q.precedes p = true → p = q := by
    decide +kernel
  intro c hc
  obtain ⟨hperm, hsorted, hties⟩ := horder c hc
  simp only [Pending.together, Pending.served, Pending.slots, Pending.firstSlots, Pending.width,
    Pending.surplus, Pending.excluding, Pending.line, Pending.ranked_eq _ _ hperm hsorted hties]
  revert c
  decide +kernel

end Blog

theorem whereTruth_conjunction_append_blog :
    (∃ f, (compile {} Blog.registry "posts" (.conjunction '$'
        ([Blog.withLevel, Blog.withName "async", Blog.withName "rust"] ++
          [Blog.withName "java"]))).result = .ok f ∧
      f.select.whereTruth Blog.leveled Blog.post = .true) ∧
    ∃ g, (compile {} Blog.registry "posts" (.conjunction '$'
        [Blog.withLevel, Blog.withName "async", Blog.withName "rust"])).result = .ok g ∧
      g.select.whereTruth Blog.leveled Blog.post = .true := by
  have hjs : ∀ k ∈ [Blog.withLevel, Blog.withName "async", Blog.withName "rust"] ++
      [Blog.withName "java"], Clause.Selecting ⟨"posts", Blog.registry, '$'⟩ k := by
    simp [Blog.selecting_withLevel, Blog.selecting_withName]
  obtain ⟨f, hcompile, hrow⟩ := Blog.whereTruth_leveled
    ([Blog.withLevel, Blog.withName "async", Blog.withName "rust"] ++ [Blog.withName "java"])
    Blog.high [Blog.named .eq "async", Blog.named .eq "rust", Blog.named .eq "java"]
    (fun j hj => (hjs j hj).isObject)
    (by simp [conjunctionClauses, Clause.ofElements, Blog.ofElement_withLevel,
      Blog.ofElement_withName])
    (by decide)
  replace hrow := hrow.mpr (Blog.together_conjunctions _ List.mem_cons_self)
  refine ⟨⟨f, hcompile, hrow⟩, whereTruth_conjunction_append hjs ?_ hcompile hrow⟩
  exact Blog.spares_java

/-- A further element can widen a conjunction: the post has a tag `rust` and a tag of a high level,
but only asking for a tag `async` in addition makes that enough. -/
theorem whereTruth_conjunction_widened :
    (∀ k ∈ [Blog.withName "rust", Blog.withLevel] ++ [Blog.withName "async"],
      Clause.Selecting ⟨"posts", Blog.registry, '$'⟩ k) ∧
    (∃ f, (compile {} Blog.registry "posts" (.conjunction '$'
        ([Blog.withName "rust", Blog.withLevel] ++ [Blog.withName "async"]))).result = .ok f ∧
      f.select.whereTruth Blog.leveled Blog.post = .true) ∧
    ∃ g, (compile {} Blog.registry "posts" (.conjunction '$'
        [Blog.withName "rust", Blog.withLevel])).result = .ok g ∧
      g.select.whereTruth Blog.leveled Blog.post ≠ .true := by
  have hjs : ∀ k ∈ [Blog.withName "rust", Blog.withLevel] ++ [Blog.withName "async"],
      Clause.Selecting ⟨"posts", Blog.registry, '$'⟩ k := by
    simp [Blog.selecting_withLevel, Blog.selecting_withName]
  obtain ⟨f, hf, hrow⟩ := Blog.whereTruth_leveled
    ([Blog.withName "rust", Blog.withLevel] ++ [Blog.withName "async"])
    (Blog.named .eq "rust") [Blog.high, Blog.named .eq "async"]
    (fun k hk => (hjs k hk).isObject)
    (by simp [conjunctionClauses, Clause.ofElements, Blog.ofElement_withLevel,
      Blog.ofElement_withName])
    (by decide)
  obtain ⟨g, hg, hrow'⟩ := Blog.whereTruth_leveled [Blog.withName "rust", Blog.withLevel]
    (Blog.named .eq "rust") [Blog.high]
    (fun k hk => (hjs k (List.mem_append_left _ hk)).isObject)
    (by simp [conjunctionClauses, Clause.ofElements, Blog.ofElement_withLevel,
      Blog.ofElement_withName])
    (by decide)
  have hwide := Blog.together_conjunctions _ (List.mem_cons_of_mem _ List.mem_cons_self)
  have hnarrow := Blog.together_conjunctions _
    (List.mem_cons_of_mem _ (List.mem_cons_of_mem _ List.mem_cons_self))
  refine ⟨hjs, ⟨f, hf, hrow.mpr hwide⟩, g, hg, ?_⟩
  rw [Ne, hrow', hnarrow]
  decide

end DocFilter
