import DocFilter.Proofs.Clause.Leaves

/-!
# The outcome of a compilation

A compilation goes through steps and fails at the first that does. Otherwise the filter it gives is
known from the clauses and the steps alone. A lenient compilation succeeds if and only if no clause
refers to an unknown relation (`compile_lenient_succeeds`), and its diagnostics are those of the
clauses.
-/

namespace DocFilter

variable (options : Options) (registry : Registry) (base : String) (d : Document)

/-- The clauses that a compilation goes through. -/
def compileClauses : List Clause := Clause.ofDocument ⟨base, registry, options.marker⟩ d

/-- The steps of a compilation. -/
def compileSteps : List Step :=
  Clause.allSteps options.strict ⟨base, options.baseKey⟩ (compileClauses options registry base d) ++
    Clause.flushing .and (compileClauses options registry base d)

/-- The filter that a compilation gives if it does not fail. -/
def compileFilter : CompiledFilter where
  base := base
  predicates := Clause.scopePredicates ⟨base, options.baseKey⟩ .and
    (compileClauses options registry base d)
  diagnostics := (Step.events (compileSteps options registry base d)).filterMap Event.diagnostic?

/-- The outcome of a compilation is decided by the first failure among its steps. -/
theorem compile_eq : compile options registry base d =
    match Step.failure? (compileSteps options registry base d) with
    | some e => ⟨Step.events (compileSteps options registry base d), .error e⟩
    | none =>
      ⟨Step.events (compileSteps options registry base d) ++
          [.compiled base (compileFilter options registry base d).predicates.length],
        .ok (compileFilter options registry base d)⟩ := rfl

variable {options registry base d}

theorem compile_result_eq_ok {f : CompiledFilter} :
    (compile options registry base d).result = .ok f ↔
      Step.failure? (compileSteps options registry base d) = none ∧
        compileFilter options registry base d = f := by
  rw [compile_eq]
  cases Step.failure? (compileSteps options registry base d) <;> simp

theorem compile_result_eq_error {e : FilterError} :
    (compile options registry base d).result = .error e ↔
      Step.failure? (compileSteps options registry base d) = some e := by
  rw [compile_eq]
  cases Step.failure? (compileSteps options registry base d) <;> simp

/-! ## Lenient compilations -/

section Lenient

variable {marker : Char} {baseKey : String}

theorem fail_mem_compileSteps {e : FilterError} :
    .fail e ∈ compileSteps ⟨false, marker, baseKey⟩ registry base d ↔
      ∃ relation field, e = .unknownRelation relation field ∧
        .unknown relation field ∈
          Clause.allLeaves (Clause.ofDocument ⟨base, registry, marker⟩ d) := by
  rw [compileSteps, List.mem_append, or_iff_left Clause.fail_notMem_flushing]
  exact Clause.fail_mem_allSteps _ e _

/-- A lenient compilation succeeds if and only if the document refers to no unknown relation. -/
theorem compile_lenient_succeeds :
    (∃ f, (compile ⟨false, marker, baseKey⟩ registry base d).result = .ok f) ↔
      ∀ relation field, .unknown relation field ∉
        Clause.allLeaves (Clause.ofDocument ⟨base, registry, marker⟩ d) := by
  simp only [compile_result_eq_ok, exists_and_left, exists_eq', and_true, Step.failure?_eq_none]
  constructor
  · intro h relation field hleaf
    exact h _ (fail_mem_compileSteps.mpr ⟨relation, field, rfl, hleaf⟩)
  · intro h e hfail
    obtain ⟨relation, field, -, hleaf⟩ := fail_mem_compileSteps.mp hfail
    exact h relation field hleaf

theorem diagnostics_compileFilter
    (h : Step.failure? (compileSteps ⟨false, marker, baseKey⟩ registry base d) = none) :
    (compileFilter ⟨false, marker, baseKey⟩ registry base d).diagnostics =
      (Clause.allLeaves (Clause.ofDocument ⟨base, registry, marker⟩ d)).filterMap
        Clause.diagnostic? := by
  rw [compileFilter, Step.filterMap_events h, compileSteps, List.filterMap_append,
    Clause.diagnostics_flushing, List.append_nil]
  exact Clause.diagnostics_allSteps _ _

/-- A lenient compilation fails at the first leaf that refers to an unknown relation. -/
theorem compile_lenient_eq_error {e : FilterError} :
    (compile ⟨false, marker, baseKey⟩ registry base d).result = .error e ↔
      (Clause.allLeaves (Clause.ofDocument ⟨base, registry, marker⟩ d)).findSome? Clause.error? =
        some e := by
  have hflushing : Step.failure?
      (Clause.flushing .and (Clause.ofDocument ⟨base, registry, marker⟩ d)) = none :=
    Step.failure?_eq_none.mpr fun _ => Clause.fail_notMem_flushing
  rw [compile_result_eq_error, compileSteps, Step.failure?_append, compileClauses, hflushing,
    Option.or_none, Clause.failure?_allSteps]

theorem unknownRelation_of_failure (marker : Char) (baseKey : String) (registry : Registry)
    (base : String) (d : Document) {e : FilterError}
    (h : Step.failure? (compileSteps ⟨false, marker, baseKey⟩ registry base d) = some e) :
    ∃ relation field, e = .unknownRelation relation field := by
  obtain ⟨relation, field, he, -⟩ := fail_mem_compileSteps.mp (Step.fail_mem_of_failure? h)
  exact ⟨relation, field, he⟩

end Lenient

end DocFilter
