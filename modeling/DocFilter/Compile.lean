import DocFilter.Event
import DocFilter.Options
import DocFilter.Scope

/-!
# Compilation

A compilation reads a document as clauses and goes through them in order (`Clause.steps`). A clause
that makes no sense is passed over, or ends a strict compilation; a reference to an unknown relation
ends any compilation. What happened before the end is reported all the same. If nothing ends the
compilation, the clauses become predicates.
-/

namespace DocFilter

/-- A step of a compilation. -/
inductive Step where
  | report (e : Event)
  | fail (e : FilterError)

namespace Clause

/-- The events when the tests on relations of a scope joined by `c` become subqueries. -/
def flushing (c : Connective) (clauses : List Clause) : List Step :=
  (buckets (clauses.filterMap (pending? c))).map fun b =>
    .report (.flushing b.tests.length b.name (partitions c b.tests).length)

mutual

/-- The steps of a clause. -/
def steps (strict : Bool) (base : Column) : Clause → List Step
  | .own _ _ _ => []
  | .related p => [.report (.deferring p.field.ref p.op p.field.name)]
  | .skipped d => if strict then [.fail d.toError] else [.report (.skipping d)]
  | .unknown relation field => [.fail (.unknownRelation relation field)]
  | .group written inner clauses =>
    (match written with
      | none => []
      | some n => [.report (.opening inner n)])
      ++ allSteps strict base clauses
      ++ flushing inner clauses
      ++ (if (scopePredicates base inner clauses).isEmpty then [.report (.dropping inner)] else [])

/-- The steps of several clauses. -/
def allSteps (strict : Bool) (base : Column) : List Clause → List Step
  | [] => []
  | x :: xs => x.steps strict base ++ allSteps strict base xs

end

end Clause

namespace Step

/-- The events before the first failure. -/
def events : List Step → List Event
  | [] => []
  | .report e :: rest => e :: events rest
  | .fail _ :: _ => []

/-- The first failure. -/
def failure? : List Step → Option FilterError
  | [] => none
  | .report _ :: rest => failure? rest
  | .fail e :: _ => some e

end Step

/-- The outcome of a compilation. -/
structure Compilation where
  /-- What was reported. -/
  events : List Event
  /-- The compiled filter, or why there is none. -/
  result : Except FilterError CompiledFilter

/-- Compiles a document as a filter on a base table. -/
def compile (options : Options) (registry : Registry) (base : String) (d : Document) :
    Compilation :=
  let clauses := Clause.ofDocument ⟨base, registry, options.marker⟩ d
  let key : Column := ⟨base, options.baseKey⟩
  let steps := Clause.allSteps options.strict key clauses ++ Clause.flushing .and clauses
  match Step.failure? steps with
  | some e => ⟨Step.events steps, .error e⟩
  | none =>
    let predicates := Clause.scopePredicates key .and clauses
    let events := Step.events steps
    ⟨events ++ [.compiled base predicates.length],
      .ok ⟨base, predicates, events.filterMap Event.diagnostic?⟩⟩

end DocFilter
