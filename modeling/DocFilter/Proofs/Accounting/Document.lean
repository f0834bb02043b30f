import DocFilter.Proofs.Accounting.Predicates
import DocFilter.Proofs.Clause.Sound
import DocFilter.Proofs.Compile.Outcome

/-!
# No clause is lost

The clauses that a document writes are listed without regard to scopes (`Written.ofDocument`), and
each has a verdict: it is passed over with a diagnostic, it becomes tests on the base table, or it
becomes a condition of a subquery. When a compilation succeeds, its diagnostics, the tests in its
predicates and the conditions of its subqueries are those of the verdicts, each as often as there
(`compile_accounts_for_clauses`).
-/

namespace DocFilter

/-- A clause as a document writes it, with its path. -/
inductive Written where
  /-- An entry of a comparison object. -/
  | operator (field : Field) (path key : String) (operand : Json)
  /-- A value that a field has to equal. -/
  | equality (field : Field) (path : String) (value : Json)
  /-- A field that is refused as a whole. -/
  | refused (path reason : String)
  /-- A field of an unknown relation. -/
  | stranger (relation field : String)
  /-- A key with the marker that is no logical operator, where a field is expected. -/
  | marked (path key : String)
  /-- A logical operator whose value is neither an object nor an array. -/
  | scalar (path : String) (value : Json)
  /-- An element of a logical operator's array that is no object. -/
  | element (path : String) (value : Json)

/-- What becomes of a clause. -/
inductive Verdict where
  /-- It is passed over. -/
  | passedOver (d : Diagnostic)
  /-- It becomes tests on the base table. -/
  | tested (tests : List SubqueryFilter)
  /-- It becomes a condition of a subquery. -/
  | deferred (condition : SubqueryFilter)
  /-- There is no compiled filter. -/
  | fatal (relation field : String)

namespace Verdict

/-- The diagnostic of a clause that is passed over. -/
def diagnostic? : Verdict → Option Diagnostic
  | .passedOver d => some d
  | _ => none

/-- The tests on the base table. -/
def tests : Verdict → List SubqueryFilter
  | .tested ts => ts
  | _ => []

/-- The condition of a subquery. -/
def condition? : Verdict → Option SubqueryFilter
  | .deferred q => some q
  | _ => none

/-- The condition that a comparator puts on a column of a relation. A subquery for a comparator that
excludes selects what is excluded. -/
def conditionOf (column : Column) (op : Comparator) (v : Value) : SubqueryFilter :=
  if v.isNull then .nullTest column false
  else if op.isNegated then .comparison column .isIn (.list v.toList)
  else .comparison column op v

/-- What becomes of a comparator and its operand. -/
def ofTest (field : Field) (op : Comparator) (path : String) (j : Json) : Verdict :=
  match Operand.read op j with
  | .error reason => .passedOver ⟨path, .malformed reason⟩
  | .ok operand =>
    match field with
    | .own column => .tested (operand.tests column op)
    | .related f =>
      if operand.listsNull then
        .passedOver ⟨path, .malformed s!"`{op.token}` on a relation field cannot list null"⟩
      else .deferred (conditionOf f.ref op operand.value)

end Verdict

namespace Written

/-! ## The clauses of a document -/

/-- The clauses of a field with a value. -/
def ofField (ctx : Clause.Context) (path name : String) (value : Json) : List Written :=
  match Field.resolve ctx.registry ctx.base name with
  | .error (.malformed reason) => [.refused path reason]
  | .error (.unknownRelation relation) => [.stranger relation name]
  | .ok field =>
    match value with
    | .obj [] => [.refused path "empty comparison object"]
    | .obj entries => entries.map fun e => .operator field (Clause.joinPath path e.1) e.1 e.2
    | .arr _ => [.refused path "a list of values needs an explicit `in` or `nin` operator"]
    | value => [.equality field path value]

mutual

/-- The clauses of an entry. -/
def ofEntry (ctx : Clause.Context) (path key : String) : Json → List Written
  | .arr items =>
    match Key.classify ctx.marker key with
    | .logical _ => ofElements ctx path 0 items
    | .field name => ofField ctx path name (.arr items)
    | _ => [.marked path key]
  | .obj entries =>
    match Key.classify ctx.marker key with
    | .logical _ => ofEntries ctx path entries
    | .field name => ofField ctx path name (.obj entries)
    | _ => [.marked path key]
  | j =>
    match Key.classify ctx.marker key with
    | .logical _ => [.scalar path j]
    | .field name => ofField ctx path name j
    | _ => [.marked path key]

/-- The clauses of the elements of an array, from an index on. -/
def ofElements (ctx : Clause.Context) (path : String) (index : Nat) : List Json → List Written
  | [] => []
  | j :: js => ofElement ctx (Clause.elementPath path index) j ++ ofElements ctx path (index + 1) js

/-- The clauses of an element of an array. -/
def ofElement (ctx : Clause.Context) (path : String) : Json → List Written
  | .obj entries => ofEntries ctx path entries
  | j => [.element path j]

/-- The clauses of several entries. -/
def ofEntries (ctx : Clause.Context) (path : String) : List (String × Json) → List Written
  | [] => []
  | (key, j) :: rest => ofEntry ctx (Clause.joinPath path key) key j ++ ofEntries ctx path rest

end

/-- The clauses of a document. -/
def ofDocument (ctx : Clause.Context) (d : Document) : List Written := ofEntries ctx "" d.entries

/-- What becomes of a clause. -/
def verdict (marker : Char) : Written → Verdict
  | .operator field path key j =>
    match Key.classify marker key with
    | .comparison op => .ofTest field op path j
    | _ => .passedOver ⟨path, .unrecognizedOperator key⟩
  | .equality field path j => .ofTest field .eq path j
  | .refused path reason => .passedOver ⟨path, .malformed reason⟩
  | .stranger relation field => .fatal relation field
  | .marked path key => .passedOver ⟨path, .unrecognizedOperator key⟩
  | .scalar path j =>
    .passedOver ⟨path, .malformed s!"expected an object or an array, found {j.kind}"⟩
  | .element path j => .passedOver ⟨path, .malformed s!"expected an object, found {j.kind}"⟩

/-! ## Clauses as they are compiled -/

/-- The leaf that a clause is read as. -/
def clause (marker : Char) : Written → Clause
  | .operator field path key j =>
    match Key.classify marker key with
    | .comparison op => Clause.test field op path j
    | _ => Clause.unrecognized path key
  | .equality field path j => Clause.test field .eq path j
  | .refused path reason => Clause.malformed path reason
  | .stranger relation field => .unknown relation field
  | .marked path key => Clause.unrecognized path key
  | .scalar path j => Clause.malformed path s!"expected an object or an array, found {j.kind}"
  | .element path j => Clause.malformed path s!"expected an object, found {j.kind}"

theorem map_clause_operators (marker : Char) (field : Field) (path : String)
    (entries : List (String × Json)) :
    (entries.filterMap (Clause.entryStray? marker path) ++
      entries.filterMap (Clause.entryTest? marker field path)).Perm
      ((entries.map fun e => operator field (Clause.joinPath path e.1) e.1 e.2).map
        (clause marker)) := by
  induction entries with
  | nil => exact .refl _
  | cons e entries ih =>
    -- each entry is either a test or a stray
    cases h : Key.classify marker e.1 with
    | comparison op =>
      have htest : Clause.entryTest? marker field path e =
          some (Clause.test field op (Clause.joinPath path e.1) e.2) := by
        simp [Clause.entryTest?, h]
      have hstray : Clause.entryStray? marker path e = none := by
        simp [Clause.entryStray?, h]
      rw [List.filterMap_cons_none hstray, List.filterMap_cons_some htest]
      refine List.perm_middle.trans ?_
      simpa [clause, h] using ih
    | _ =>
      have htest : Clause.entryTest? marker field path e = none := by
        simp [Clause.entryTest?, h]
      have hstray : Clause.entryStray? marker path e =
          some (Clause.unrecognized (Clause.joinPath path e.1) e.1) := by
        simp [Clause.entryStray?, h]
      rw [List.filterMap_cons_none htest, List.filterMap_cons_some hstray]
      simpa [clause, h] using ih

/-- Only groups have other clauses below them. -/
theorem leaves_clause (marker : Char) (w : Written) :
    (w.clause marker).leaves = [w.clause marker] := by
  cases w with
  | operator field path key j =>
    simp only [clause]
    split
    · exact Clause.leaves_test ..
    · exact Clause.leaves_unrecognized ..
  | equality field path j => exact Clause.leaves_test ..
  | stranger relation name =>
    simp only [clause]
    rw [Clause.leaves]
  | marked path key => exact Clause.leaves_unrecognized ..
  | refused path reason => exact Clause.leaves_malformed ..
  | scalar path j => exact Clause.leaves_malformed ..
  | element path j => exact Clause.leaves_malformed ..

theorem allLeaves_perm {marker : Char} {xs : List Clause} {ws : List Written}
    (h : xs.Perm (ws.map (clause marker))) :
    (Clause.allLeaves xs).Perm (ws.map (clause marker)) := by
  have hxs : ∀ x ∈ xs, x.leaves = [x] := by
    intro x hx
    obtain ⟨w, -, rfl⟩ := List.mem_map.mp (h.mem_iff.mp hx)
    exact leaves_clause marker w
  rwa [Clause.allLeaves_of_forall hxs]

theorem allLeaves_clause (marker : Char) (w : Written) :
    (Clause.allLeaves [w.clause marker]).Perm ([w].map (clause marker)) :=
  allLeaves_perm (.refl _)

variable (ctx : Clause.Context)

theorem allLeaves_ofField (scope : Connective) (path name : String) (value : Json) :
    (Clause.allLeaves (Clause.ofField ctx scope path name value)).Perm
      ((ofField ctx path name value).map (clause ctx.marker)) := by
  unfold Clause.ofField ofField
  cases Field.resolve ctx.registry ctx.base name with
  | error e =>
    cases e with
    | malformed reason => exact allLeaves_clause ctx.marker (.refused path reason)
    | unknownRelation relation => exact allLeaves_clause ctx.marker (.stranger relation name)
  | ok field =>
    cases value with
    | obj entries =>
      cases entries with
      | nil => exact allLeaves_clause ctx.marker (.refused path "empty comparison object")
      | cons e entries =>
        have h := allLeaves_perm (map_clause_operators ctx.marker field path (e :: entries))
        rw [Clause.allLeaves_append] at h
        simpa only [Clause.allLeaves_append, Clause.allLeaves_together] using h
    | arr items => exact allLeaves_clause ctx.marker (.refused path _)
    | null => exact allLeaves_clause ctx.marker (.equality field path .null)
    | bool b => exact allLeaves_clause ctx.marker (.equality field path (.bool b))
    | num n => exact allLeaves_clause ctx.marker (.equality field path (.num n))
    | str s => exact allLeaves_clause ctx.marker (.equality field path (.str s))

theorem allLeaves_strayElements (path : String) (index : Nat) (items : List Json) :
    Clause.allLeaves (Clause.strayElements path index items) =
      Clause.strayElements path index items := by
  refine Clause.allLeaves_of_forall fun x hx => ?_
  obtain ⟨p, reason, rfl⟩ := Clause.eq_malformed_of_mem_strayElements hx
  exact Clause.leaves_malformed p reason

theorem allLeaves_ofScalar (scope : Connective) (path key : String) {j : Json}
    (harr : ∀ items, j ≠ .arr items) (hobj : ∀ entries, j ≠ .obj entries) :
    (Clause.allLeaves (Clause.ofEntry ctx scope path key j)).Perm
      ((ofEntry ctx path key j).map (clause ctx.marker)) := by
  rw [Clause.ofEntry, ofEntry]
  · cases Key.classify ctx.marker key with
    | logical c => exact allLeaves_clause ctx.marker (.scalar path j)
    | field name => exact allLeaves_ofField ctx scope path name j
    | _ => exact allLeaves_clause ctx.marker (.marked path key)
  all_goals assumption

mutual

theorem allLeaves_ofEntry (scope : Connective) (path key : String) :
    ∀ j, (Clause.allLeaves (Clause.ofEntry ctx scope path key j)).Perm
      ((ofEntry ctx path key j).map (clause ctx.marker))
  | .arr items => by
    rw [Clause.ofEntry, ofEntry]
    cases Key.classify ctx.marker key with
    | logical c =>
      simpa [allLeaves_strayElements] using allLeaves_ofElements c path 0 items
    | field name => exact allLeaves_ofField ctx scope path name _
    | _ => exact allLeaves_clause ctx.marker (.marked path key)
  | .obj entries => by
    rw [Clause.ofEntry, ofEntry]
    cases Key.classify ctx.marker key with
    | logical c => simpa using allLeaves_ofEntries c path entries
    | field name => exact allLeaves_ofField ctx scope path name _
    | _ => exact allLeaves_clause ctx.marker (.marked path key)
  | .null => allLeaves_ofScalar ctx scope path key (by simp) (by simp)
  | .bool b => allLeaves_ofScalar ctx scope path key (by simp) (by simp)
  | .num n => allLeaves_ofScalar ctx scope path key (by simp) (by simp)
  | .str s => allLeaves_ofScalar ctx scope path key (by simp) (by simp)

/-- The elements of an array that are no objects come first, but are lost or repeated as little as
the others. -/
theorem allLeaves_ofElements (c : Connective) (path : String) (index : Nat) :
    ∀ items, (Clause.strayElements path index items ++
        Clause.allLeaves (Clause.ofElements ctx c path index items)).Perm
      ((ofElements ctx path index items).map (clause ctx.marker))
  | [] => by
    rw [Clause.strayElements, Clause.ofElements, ofElements]
    exact .refl _
  | j :: js => by
    have hmiddle := (List.perm_append_comm_assoc (Clause.strayElements path (index + 1) js)
      (Clause.allLeaves (Clause.ofElement ctx c (Clause.elementPath path index) j))
      (Clause.allLeaves (Clause.ofElements ctx c path (index + 1) js))).append_left
        (Clause.strayElements path index [j])
    rw [Clause.strayElements_cons, Clause.ofElements, ofElements, Clause.allLeaves_append,
      List.map_append, List.append_assoc]
    refine hmiddle.trans ?_
    rw [← List.append_assoc]
    exact (allLeaves_ofElement c path index j).append
      (allLeaves_ofElements c path (index + 1) js)

theorem allLeaves_ofElement (c : Connective) (path : String) (index : Nat) :
    ∀ j, (Clause.strayElements path index [j] ++
        Clause.allLeaves (Clause.ofElement ctx c (Clause.elementPath path index) j)).Perm
      ((ofElement ctx (Clause.elementPath path index) j).map (clause ctx.marker))
  | .obj entries => by
    rw [Clause.ofElement, ofElement]
    split
    · simpa [Clause.strayElements, Clause.isObject] using allLeaves_ofEntries .and _ entries
    · simpa [Clause.strayElements, Clause.isObject] using allLeaves_ofEntries c _ entries
  | .null | .bool _ | .num _ | .str _ | .arr _ => by
    simp [Clause.strayElements, Clause.isObject, Clause.ofElement, ofElement, clause]

theorem allLeaves_ofEntries (scope : Connective) (path : String) :
    ∀ entries, (Clause.allLeaves (Clause.ofEntries ctx scope path entries)).Perm
      ((ofEntries ctx path entries).map (clause ctx.marker))
  | [] => by
    rw [Clause.ofEntries, ofEntries]
    simp
  | (key, j) :: rest => by
    rw [Clause.ofEntries, ofEntries, Clause.allLeaves_append, List.map_append]
    exact (allLeaves_ofEntry scope _ key j).append (allLeaves_ofEntries scope path rest)

end

/-- The leaves of the clauses of a document are the clauses that it writes, in some order. -/
theorem allLeaves_ofDocument (d : Document) :
    (Clause.allLeaves (Clause.ofDocument ctx d)).Perm
      ((ofDocument ctx d).map (clause ctx.marker)) :=
  allLeaves_ofEntries ctx .and "" d.entries

/-! ## Verdicts -/

end Written

namespace Verdict

/-- What becomes of a clause as it is compiled. -/
def ofClause : Clause → Verdict
  | .own column op operand => .tested (operand.tests column op)
  | .related p => .deferred p.filter
  | .skipped d => .passedOver d
  | .unknown relation field => .fatal relation field
  | .group _ _ _ => .tested []

theorem diagnostic?_ofClause (x : Clause) : (ofClause x).diagnostic? = x.diagnostic? := by
  cases x <;> rfl

theorem tests_ofClause (x : Clause) : (ofClause x).tests = x.tests := by
  cases x <;> rfl

theorem condition?_ofClause (x : Clause) : (ofClause x).condition? = x.condition? := by
  cases x <;> rfl

theorem eq_unknown_of_ofClause {x : Clause} {relation field : String}
    (h : ofClause x = .fatal relation field) : x = .unknown relation field := by
  cases x with
  | unknown => cases h; rfl
  | _ => cases h

/-- The condition of a test on a relation depends only on its column, its comparator and its
operand. -/
theorem conditionOf_eq_filter {p : RelatedTest} (h : Operand.Fits p.op ⟨p.value, false⟩) :
    conditionOf p.field.ref p.op p.value = p.filter := by
  obtain ⟨field, op, v⟩ := p
  unfold conditionOf RelatedTest.filter
  split
  · rfl
  · next hnull =>
    have hne : v ≠ .null := fun hv => hnull (by rw [hv]; rfl)
    cases op with
    | ne =>
      -- the operand is no list, so it is its only item
      have hitem : v.toList = [v] := by
        cases v with
        | list items => cases (h.items items rfl).1
        | _ => rfl
      simp [Comparator.isNegated, hitem]
    | notIn =>
      obtain ⟨items, hitems⟩ := h.list rfl hne
      obtain rfl : v = .list items := hitems
      rfl
    | _ => rfl

theorem ofClause_test (field : Field) (op : Comparator) (path : String) (j : Json) :
    ofClause (Clause.test field op path j) = ofTest field op path j := by
  unfold Clause.test ofTest
  cases hread : Operand.read op j with
  | error reason => rfl
  | ok operand =>
    have hfits := Operand.fits_of_read hread
    cases field with
    | own column => rfl
    | related f =>
      show ofClause (if operand.listsNull then _ else _) = if operand.listsNull then _ else _
      split
      · rfl
      · exact congrArg deferred
          (conditionOf_eq_filter { hfits with nullItem := by simp }).symm

theorem ofClause_clause (marker : Char) (w : Written) :
    ofClause (w.clause marker) = w.verdict marker := by
  cases w with
  | operator field path key j =>
    simp only [Written.clause, Written.verdict]
    split
    · exact ofClause_test ..
    · rfl
  | equality field path j => exact ofClause_test ..
  | _ => rfl

theorem tests_ne_nil_of_ofTest {field : Field} {op : Comparator} {path : String} {j : Json}
    {ts : List SubqueryFilter} (h : ofTest field op path j = .tested ts) : ts ≠ [] := by
  unfold ofTest at h
  split at h
  · cases h
  · split at h
    · cases h
      unfold Operand.tests
      split
      · simp
      · split <;> simp
    · split at h <;> cases h

/-- A clause that becomes tests becomes at least one. -/
theorem tests_ne_nil {marker : Char} {w : Written} {ts : List SubqueryFilter}
    (h : w.verdict marker = .tested ts) : ts ≠ [] := by
  cases w with
  | operator field path key j =>
    simp only [Written.verdict] at h
    split at h
    · exact tests_ne_nil_of_ofTest h
    · cases h
  | equality field path j => exact tests_ne_nil_of_ofTest h
  | _ => cases h

end Verdict

namespace Written

/-- What becomes of the clauses of a document. -/
def verdicts (ctx : Clause.Context) (d : Document) : List Verdict :=
  (ofDocument ctx d).map (verdict ctx.marker)

theorem map_ofClause_perm (ctx : Clause.Context) (d : Document) :
    ((Clause.allLeaves (Clause.ofDocument ctx d)).map Verdict.ofClause).Perm
      (verdicts ctx d) := by
  have h := (allLeaves_ofDocument ctx d).map Verdict.ofClause
  rwa [List.map_map, show Verdict.ofClause ∘ clause ctx.marker = verdict ctx.marker from
    funext (Verdict.ofClause_clause ctx.marker)] at h

end Written

/-- No clause is lost and none is counted twice: each one is passed over with a diagnostic, becomes
tests on the base table, or becomes a condition of a subquery, and nothing else is in the compiled
filter but the guards of subqueries. -/
theorem compile_accounts_for_clauses {marker : Char} {baseKey base : String} {registry : Registry}
    {d : Document} {f : CompiledFilter}
    (hcompile : (compile ⟨false, marker, baseKey⟩ registry base d).result = .ok f) :
    (∀ v ∈ Written.verdicts ⟨base, registry, marker⟩ d,
      (∃ e, v = .passedOver e) ∨ (∃ ts, ts ≠ [] ∧ v = .tested ts) ∨ ∃ q, v = .deferred q) ∧
    (f.diagnostics : Multiset Diagnostic) =
      (Written.verdicts ⟨base, registry, marker⟩ d).filterMap Verdict.diagnostic? ∧
    (Predicate.allTests f.predicates : Multiset SubqueryFilter) =
      (Written.verdicts ⟨base, registry, marker⟩ d).flatMap Verdict.tests ∧
    (Predicate.allConditions f.predicates : Multiset SubqueryFilter) =
      (Written.verdicts ⟨base, registry, marker⟩ d).filterMap Verdict.condition? +
        Predicate.allGuards f.predicates := by
  obtain ⟨hfailure, rfl⟩ := compile_result_eq_ok.mp hcompile
  have hperm := Written.map_ofClause_perm ⟨base, registry, marker⟩ d
  refine ⟨?_, ?_, ?_, ?_⟩
  · intro v hv
    obtain ⟨w, -, rfl⟩ := List.mem_map.mp hv
    cases hw : w.verdict marker with
    | passedOver e => exact .inl ⟨e, rfl⟩
    | tested ts => exact .inr (.inl ⟨ts, Verdict.tests_ne_nil hw, rfl⟩)
    | deferred q => exact .inr (.inr ⟨q, rfl⟩)
    | fatal relation field =>
      -- its leaf would have ended the compilation
      obtain ⟨x, hx, hverdict⟩ := List.mem_map.mp (hperm.mem_iff.mpr hv)
      obtain rfl := Verdict.eq_unknown_of_ofClause (hverdict.trans hw)
      exact absurd hx (compile_lenient_succeeds.mp ⟨_, hcompile⟩ relation field)
  · have h := hperm.filterMap Verdict.diagnostic?
    rw [List.filterMap_map, show Verdict.diagnostic? ∘ Verdict.ofClause = Clause.diagnostic? from
      funext Verdict.diagnostic?_ofClause] at h
    exact Multiset.coe_eq_coe.mpr (.trans (.of_eq (diagnostics_compileFilter hfailure)) h)
  · have h := hperm.flatMap_right Verdict.tests
    rw [List.flatMap_map] at h
    simp only [Verdict.tests_ofClause] at h
    exact Multiset.coe_eq_coe.mpr (.trans (.of_eq (Clause.tests_scopePredicates _ _ _)) h)
  · have h := hperm.filterMap Verdict.condition?
    rw [List.filterMap_map, show Verdict.condition? ∘ Verdict.ofClause = Clause.condition? from
      funext Verdict.condition?_ofClause] at h
    rw [← Multiset.coe_eq_coe.mpr h]
    exact Clause.conditions_scopePredicates _ _ _

/-! ### Posts and their comments -/

namespace Blog

/-- Posts with no title or the title `a`, and with no comment by `d`; the rest makes no sense. -/
def titled : Document :=
  ⟨[("title", .obj [("$near", .str "b"), ("$in", .arr [.str "a", .null])]),
    ("$or", .arr [.str "c", .obj [("comments.author", .obj [("$ne", .str "d")])]])]⟩

/-- The filter that the document is compiled to. -/
def titledFilter : CompiledFilter := compileFilter ⟨false, '$', "id"⟩ registry "posts" titled

end Blog

theorem compile_accounts_for_titled :
    (compile ⟨false, '$', "id"⟩ Blog.registry "posts" Blog.titled).result =
      .ok Blog.titledFilter ∧
    (Blog.titledFilter.diagnostics : Multiset Diagnostic) =
      ([⟨"title.$near", .unrecognizedOperator "$near"⟩,
        ⟨"$or[0]", .malformed "expected an object, found a string"⟩] : List Diagnostic) ∧
    (Predicate.allTests Blog.titledFilter.predicates : Multiset SubqueryFilter) =
      [SubqueryFilter.comparison ⟨"posts", "title"⟩ .isIn (.list [.str "a"]),
        .nullTest ⟨"posts", "title"⟩ false] ∧
    (Predicate.allConditions Blog.titledFilter.predicates : Multiset SubqueryFilter) =
      [SubqueryFilter.comparison ⟨"comments", "author"⟩ .isIn (.list [.str "d"])] +
        Predicate.allGuards Blog.titledFilter.predicates := by
  have hcompile : (compile ⟨false, '$', "id"⟩ Blog.registry "posts" Blog.titled).result =
      .ok Blog.titledFilter :=
    compile_result_eq_ok.mpr ⟨by decide +kernel, rfl⟩
  have hpassedOver : (Written.verdicts ⟨"posts", Blog.registry, '$'⟩ Blog.titled).filterMap
      Verdict.diagnostic? =
        [⟨"title.$near", .unrecognizedOperator "$near"⟩,
          ⟨"$or[0]", .malformed "expected an object, found a string"⟩] := by
    decide +kernel
  have htested : (Written.verdicts ⟨"posts", Blog.registry, '$'⟩ Blog.titled).flatMap
      Verdict.tests =
        [.comparison ⟨"posts", "title"⟩ .isIn (.list [.str "a"]),
          .nullTest ⟨"posts", "title"⟩ false] := by
    decide +kernel
  have hdeferred : (Written.verdicts ⟨"posts", Blog.registry, '$'⟩ Blog.titled).filterMap
      Verdict.condition? =
        [.comparison ⟨"comments", "author"⟩ .isIn (.list [.str "d"])] := by
    decide +kernel
  rw [← hpassedOver, ← htested, ← hdeferred]
  exact ⟨hcompile, (compile_accounts_for_clauses hcompile).2⟩

end DocFilter
