import DocFilter.Proofs.Clause.Keys
import DocFilter.Proofs.Compile.Scoping
import DocFilter.Proofs.Compile.Strictness
import DocFilter.Proofs.Relation.Extension

/-!
# What a document refers to

A lenient compilation fails just if a field key of the document refers to a relation that the
registry misses, and the error is about the first that does (`compile_lenient_fails_iff`). So a
document that compiles asks the registry only for what it knows, and compiles to the same filter
when relations are added (`compile_conservative`).
-/

namespace DocFilter

/-! ## Unknown relations -/

section Unknown

variable {registry : Registry}

theorem unresolved?_eq_some_iff {base key : String} {e : FilterError} :
    Clause.unresolved? base registry key = some e ↔
      ∃ head, Field.resolve registry base key = .error (.unknownRelation head) ∧
        e = .unknownRelation head key := by
  unfold Clause.unresolved?
  cases Field.resolve registry base key with
  | ok field => simp
  | error failure =>
    cases failure with
    | malformed reason => simp
    | unknownRelation head => simp [eq_comm]

theorem unresolved?_eq_none_iff {base key : String} :
    Clause.unresolved? base registry key = none ↔
      ∀ head, Field.resolve registry base key ≠ .error (.unknownRelation head) := by
  rw [Option.eq_none_iff_forall_ne_some]
  constructor
  · intro h head hhead
    exact h _ (unresolved?_eq_some_iff.mpr ⟨head, hhead, rfl⟩)
  · intro h e he
    obtain ⟨head, hhead, -⟩ := unresolved?_eq_some_iff.mp he
    exact h head hhead

/-- A lenient compilation fails just if a field key refers to a relation that the registry misses,
whatever the value of the key, and the error is about the first such key. -/
theorem compile_lenient_fails_iff (hregistry : registry.Built) (marker : Char)
    (baseKey base : String) (d : Document) :
    ((∃ e, (compile ⟨false, marker, baseKey⟩ registry base d).result = .error e) ↔
      ∃ key ∈ d.fieldKeys marker, ∃ head, registry.Misses base key head) ∧
    ∀ e, (compile ⟨false, marker, baseKey⟩ registry base d).result = .error e ↔
      ∃ before key after head, d.fieldKeys marker = before ++ key :: after ∧
        (∀ k ∈ before, ∀ h, ¬ registry.Misses base k h) ∧ registry.Misses base key head ∧
        e = .unknownRelation head key := by
  have hindexed := hregistry.consistent.indexed
  have hresult : ∀ e, (compile ⟨false, marker, baseKey⟩ registry base d).result = .error e ↔
      (d.fieldKeys marker).findSome? (Clause.unresolved? base registry) = some e := by
    intro e
    rw [compile_lenient_eq_error, Clause.findSome?_error?_ofDocument]
  have hmisses : ∀ key, Clause.unresolved? base registry key = none ↔
      ∀ head, ¬ registry.Misses base key head := by
    intro key
    rw [unresolved?_eq_none_iff]
    exact forall_congr' fun head => not_congr hindexed.resolve_eq_unknownRelation_iff
  constructor
  · constructor
    · rintro ⟨e, he⟩
      obtain ⟨key, hkey, hunresolved⟩ := List.exists_of_findSome?_eq_some ((hresult e).mp he)
      obtain ⟨head, hhead, -⟩ := unresolved?_eq_some_iff.mp hunresolved
      exact ⟨key, hkey, head, hindexed.resolve_eq_unknownRelation_iff.mp hhead⟩
    · rintro ⟨key, hkey, head, hhead⟩
      cases hfirst : (d.fieldKeys marker).findSome? (Clause.unresolved? base registry) with
      | some e => exact ⟨e, (hresult e).mpr hfirst⟩
      | none =>
        have hnone := List.findSome?_eq_none_iff.mp hfirst key hkey
        exact absurd hhead ((hmisses key).mp hnone head)
  · intro e
    rw [hresult, List.findSome?_eq_some_iff]
    constructor
    · rintro ⟨before, key, after, hkeys, hunresolved, hbefore⟩
      obtain ⟨head, hhead, rfl⟩ := unresolved?_eq_some_iff.mp hunresolved
      exact ⟨before, key, after, head, hkeys, fun k hk => (hmisses k).mp (hbefore k hk),
        hindexed.resolve_eq_unknownRelation_iff.mp hhead, rfl⟩
    · rintro ⟨before, key, after, head, hkeys, hbefore, hhead, rfl⟩
      exact ⟨before, key, after, hkeys,
        unresolved?_eq_some_iff.mpr ⟨head, hindexed.resolve_eq_unknownRelation_iff.mpr hhead, rfl⟩,
        fun k hk => (hmisses k).mpr (hbefore k hk)⟩

/-! ### Posts with an editor -/

/-- Posts whose editor or whose site is asked for, but neither is registered. -/
def Blog.strangers : Document :=
  ⟨[("$or", .arr [
      .obj [("tags.name", .str "a"), ("posts_tags..sort_order", .null)],
      .str "b",
      .obj [("$and", .obj [("editor.name.first", .arr [])])]]),
    ("site.city", .str "c")]⟩

theorem compile_lenient_fails_strangers :
    Blog.registry.Built ∧
    Blog.registry.Misses "posts" "editor.name.first" "editor" ∧
    (compile ⟨false, '$', "id"⟩ Blog.registry "posts" Blog.strangers).result =
      .error (.unknownRelation "editor" "editor.name.first") := by
  have hindexed := Blog.built_registry.consistent.indexed
  have heditor : Field.resolve Blog.registry "posts" "editor.name.first" =
      .error (.unknownRelation "editor") := by decide +kernel
  have htags : Field.resolve Blog.registry "posts" "tags.name" =
      .ok (.related ⟨"tags", Blog.tags, "name", false⟩) := by decide +kernel
  have horder : Field.resolve Blog.registry "posts" "posts_tags..sort_order" =
      .error (.malformed "field path has an empty segment") := by decide +kernel
  have hbefore : ∀ k ∈ ["tags.name", "posts_tags..sort_order"], ∀ h,
      ¬ Blog.registry.Misses "posts" k h := by
    intro k hk h
    rw [← hindexed.resolve_eq_unknownRelation_iff]
    rcases List.mem_pair.mp hk with rfl | rfl
    · simp [htags]
    · simp [horder]
  have hmisses := hindexed.resolve_eq_unknownRelation_iff.mp heditor
  have hkeys : Blog.strangers.fieldKeys '$' =
      ["tags.name", "posts_tags..sort_order"] ++ "editor.name.first" :: ["site.city"] := by
    decide +kernel
  exact ⟨Blog.built_registry, hmisses,
    ((compile_lenient_fails_iff Blog.built_registry '$' "id" "posts" Blog.strangers).2 _).mpr
      ⟨_, _, _, _, hkeys, hbefore, hmisses, rfl⟩⟩

end Unknown

/-! ## More relations -/

section More

variable {options : Options} {registry registry' : Registry} {base : String} {d : Document}
  {f : CompiledFilter}

/-- No field key of a document that compiles refers to an unknown relation. -/
theorem resolve_ne_unknownRelation
    (h : (compile options registry base d).result = .ok f) :
    ∀ key ∈ d.fieldKeys options.marker, ∀ head,
      Field.resolve registry base key ≠ .error (.unknownRelation head) := by
  obtain ⟨strict, marker, baseKey⟩ := options
  -- a strict compilation fails wherever a lenient one does
  have hlenient : Step.failure? (compileSteps ⟨false, marker, baseKey⟩ registry base d) = none := by
    have hfailure := (compile_result_eq_ok.mp h).1
    cases strict with
    | false => exact hfailure
    | true =>
      rw [failure?_strict] at hfailure
      split at hfailure
      · cases hfailure
      · exact hfailure
  have hfirst : (d.fieldKeys marker).findSome? (Clause.unresolved? base registry) = none := by
    rw [← Clause.findSome?_error?_ofDocument]
    cases herror : (Clause.allLeaves (Clause.ofDocument ⟨base, registry, marker⟩ d)).findSome?
        Clause.error? with
    | none => rfl
    | some e =>
      have hresult : (compile ⟨false, marker, baseKey⟩ registry base d).result = .error e :=
        compile_lenient_eq_error.mpr herror
      rw [compile_result_eq_error, hlenient] at hresult
      cases hresult
  intro key hkey
  exact unresolved?_eq_none_iff.mp (List.findSome?_eq_none_iff.mp hfirst key hkey)

theorem compile_eq_of_keeps (hkeeps : registry.Keeps registry')
    (h : (compile options registry base d).result = .ok f) :
    compile options registry' base d = compile options registry base d := by
  have hclauses : Clause.ofDocument ⟨base, registry', options.marker⟩ d =
      Clause.ofDocument ⟨base, registry, options.marker⟩ d :=
    Clause.ofDocument_congr fun key hkey =>
      hkeeps.resolve_eq (resolve_ne_unknownRelation h key hkey)
  unfold compile
  rw [hclauses]

/-- A document that compiles still does, to the same filter, when a relation is added whose name is
no join table of the registry, and when several such relations are added in any order. -/
theorem compile_conservative (hcompile : (compile options registry base d).result = .ok f) :
    (∀ name relation registry', registry.register name relation = .ok registry' →
      registry.byJoinTable? name = none → (compile options registry' base d).result = .ok f) ∧
    ∀ added registry', registry.registerAll added = .ok registry' →
      (∀ e ∈ added, registry.byJoinTable? e.1 = none) → ∀ order, order.Perm added →
        ∃ grown, registry.registerAll order = .ok grown ∧
          (compile options grown base d).result = .ok f := by
  constructor
  · intro name relation registry' hregister hname
    rw [compile_eq_of_keeps ((Registry.Keeps.refl registry).register hregister hname) hcompile]
    exact hcompile
  · intro added registry' hadded hnames order horder
    have hadmits := (Registry.registerAll_succeeds_iff.mp ⟨registry', hadded⟩).perm horder
    obtain ⟨grown, hgrown⟩ := Registry.registerAll_succeeds_iff.mpr hadmits
    have hkeeps := (Registry.Keeps.refl registry).registerAll hgrown
      fun e he => hnames e (horder.mem_iff.mp he)
    refine ⟨grown, hgrown, ?_⟩
    rw [compile_eq_of_keeps hkeeps hcompile]
    exact hcompile

/-! ### Posts with drafts and sites -/

namespace Blog

/-- Each draft names its post. -/
def drafts : Relation where
  target := "drafts"
  link := .oneToMany "post_id"

/-- Posts are shown on sites, by way of a join table that has the name of a relation. -/
def sites : Relation where
  target := "sites"
  link := .manyToMany "comments" "post_id" "site_id"

end Blog

theorem compile_conservative_published :
    (compile {} Blog.registry "posts" Blog.published).result = .ok Blog.publishedFilter ∧
    (∃ registry', Blog.registry.registerAll
      [("drafts", Blog.drafts), ("sites", Blog.sites)] = .ok registry') ∧
    ∃ grown, Blog.registry.registerAll
        [("sites", Blog.sites), ("drafts", Blog.drafts)] = .ok grown ∧
      (compile {} grown "posts" Blog.published).result = .ok Blog.publishedFilter := by
  have hadded : ∃ registry', Blog.registry.registerAll
      [("drafts", Blog.drafts), ("sites", Blog.sites)] = .ok registry' :=
    ⟨_, rfl⟩
  obtain ⟨registry', hregistry'⟩ := hadded
  have hnames : ∀ e ∈ [("drafts", Blog.drafts), ("sites", Blog.sites)],
      Blog.registry.byJoinTable? e.1 = none := by decide +kernel
  exact ⟨Blog.compile_published, ⟨registry', hregistry'⟩,
    (compile_conservative Blog.compile_published).2 _ registry' hregistry' hnames _ (.swap ..)⟩

end More

end DocFilter
