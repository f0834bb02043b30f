import DocFilter.Proofs.Clause.Leaves
import DocFilter.Proofs.Placement.Members
import Mathlib.Algebra.Order.Group.Multiset

/-!
# What becomes of clauses in predicates

Every test on the base table is in the predicates of its scope once
(`Clause.tests_scopePredicates`), and every test on a relation is a condition of one subquery
(`Clause.conditions_scopePredicates`). Subqueries that exclude by a foreign key have one condition
more, which guards against null; all other conditions come from tests. Conditions move between
subqueries and are sorted on the way, so they are compared as multisets.
-/

namespace DocFilter

namespace Predicate

mutual

/-- The predicates below a predicate that are no groups. -/
def leaves : Predicate → List Predicate
  | .comparison c column op v => [.comparison c column op v]
  | .nullTest c column negated => [.nullTest c column negated]
  | .membership c base m q => [.membership c base m q]
  | .group _ _ ps => allLeaves ps

/-- The predicates below several predicates that are no groups. -/
def allLeaves : List Predicate → List Predicate
  | [] => []
  | p :: ps => p.leaves ++ allLeaves ps

end

theorem allLeaves_append (ps qs : List Predicate) :
    allLeaves (ps ++ qs) = allLeaves ps ++ allLeaves qs := by
  induction ps with
  | nil => simp [allLeaves]
  | cons p ps ih => simp [allLeaves, ih]

theorem mem_allLeaves {p : Predicate} {ps : List Predicate} :
    p ∈ allLeaves ps ↔ ∃ q ∈ ps, p ∈ q.leaves := by
  induction ps with
  | nil => simp [allLeaves]
  | cons q ps ih => simp [allLeaves, ih]

/-- The test on the base table that a predicate is, without its connective. -/
def test? : Predicate → Option SubqueryFilter
  | .comparison _ column op v => some (.comparison column op v)
  | .nullTest _ column negated => some (.nullTest column negated)
  | _ => none

/-- The conditions of the subquery of a predicate. -/
def conditions : Predicate → List SubqueryFilter
  | .membership _ _ _ q => q.filters
  | _ => []

/-- The condition that keeps a foreign key from being null where that excludes. -/
def guard? : Predicate → Option SubqueryFilter
  | .membership _ _ .notIn ⟨select, _, none, _⟩ => some (.nullTest select true)
  | _ => none

/-- The tests on the base table in predicates. -/
def allTests (ps : List Predicate) : List SubqueryFilter := (allLeaves ps).filterMap test?

/-- The conditions of the subqueries in predicates. -/
def allConditions (ps : List Predicate) : List SubqueryFilter := (allLeaves ps).flatMap conditions

/-- The guards of the subqueries in predicates. -/
def allGuards (ps : List Predicate) : List SubqueryFilter := (allLeaves ps).filterMap guard?

@[simp] theorem allTests_append (ps qs : List Predicate) :
    allTests (ps ++ qs) = allTests ps ++ allTests qs := by
  simp [allTests, allLeaves_append]

@[simp] theorem allConditions_append (ps qs : List Predicate) :
    allConditions (ps ++ qs) = allConditions ps ++ allConditions qs := by
  simp [allConditions, allLeaves_append]

@[simp] theorem allGuards_append (ps qs : List Predicate) :
    allGuards (ps ++ qs) = allGuards ps ++ allGuards qs := by
  simp [allGuards, allLeaves_append]

/-- Putting predicates into a group changes none of this. -/
theorem allLeaves_group (c inner : Connective) (ps : List Predicate) :
    allLeaves [group c inner ps] = allLeaves ps := by
  simp [allLeaves, leaves]

end Predicate

/-! ## Membership tests -/

/-- The conditions of the subquery of a partition are those of its tests, and perhaps a guard. -/
theorem conditions_predicate (c : Connective) (base : Column) (r : Relation) (q : Partition) :
    (q.predicate c base r).conditions =
      q.members.map (·.1.filter) ++ (q.predicate c base r).guard?.toList := by
  obtain ⟨target, targetKey, link⟩ := r
  unfold Partition.predicate Predicate.conditions
  cases link with
  | oneToMany => cases q.membership <;> simp [subqueryOf, Membership.isNegated, Predicate.guard?]
  | manyToMany => cases q.membership <;> simp [subqueryOf, Predicate.guard?]

theorem leaves_predicate (c : Connective) (base : Column) (r : Relation) (q : Partition) :
    (q.predicate c base r).leaves = [q.predicate c base r] := by
  rw [Partition.predicate, Predicate.leaves]

theorem conditions_partitions (c : Connective) (base : Column) (r : Relation)
    (qs : List Partition) :
    (Predicate.allConditions (qs.map (·.predicate c base r)) : Multiset SubqueryFilter) =
      (allMembers qs).map (·.1.filter) +
        Predicate.allGuards (qs.map (·.predicate c base r)) := by
  induction qs with
  | nil => rfl
  | cons q qs ih =>
    have hconditions : Predicate.allConditions [q.predicate c base r] =
        (q.predicate c base r).conditions := by
      simp [Predicate.allConditions, Predicate.allLeaves, leaves_predicate]
    have hguards : Predicate.allGuards [q.predicate c base r] =
        (q.predicate c base r).guard?.toList := by
      simp [Predicate.allGuards, Predicate.allLeaves, leaves_predicate, List.filterMap_cons]
      cases (q.predicate c base r).guard? <;> rfl
    rw [List.map_cons, ← List.singleton_append, Predicate.allConditions_append,
      Predicate.allGuards_append, hconditions, hguards, conditions_predicate, allMembers_cons,
      List.map_append]
    simp only [← Multiset.coe_add, ih]
    exact add_add_add_comm _ _ _ _

/-- The conditions of the subqueries of a bucket are those of its tests, and guards. -/
theorem conditions_bucket (c : Connective) (base : Column) (b : Bucket) :
    (Predicate.allConditions (b.predicates c base) : Multiset SubqueryFilter) =
      b.tests.map (·.filter) + Predicate.allGuards (b.predicates c base) := by
  obtain ⟨name, tests⟩ := b
  cases tests with
  | nil => rfl
  | cons p tests =>
    have hmembers : ((allMembers (partitions c (p :: tests))).map (·.1.filter)).Perm
        ((p :: tests).map (·.filter)) := by
      have h := ((members_partitions c (p :: tests)).map Prod.fst).map (·.filter)
      rwa [List.zipIdx_map_fst, List.map_map] at h
    exact (conditions_partitions c base p.field.relation _).trans
      (congrArg (· + _) (Multiset.coe_eq_coe.mpr hmembers))

/-- The conditions of the membership tests of a scope are those of its tests on relations, and
guards. -/
theorem conditions_memberships (c : Connective) (base : Column) (xs : List Clause) :
    (Predicate.allConditions (Clause.memberships base c xs) : Multiset SubqueryFilter) =
      (xs.filterMap (Clause.pending? c)).map (·.filter) +
        Predicate.allGuards (Clause.memberships base c xs) := by
  have hbuckets : ∀ bs : List Bucket,
      (Predicate.allConditions (bs.flatMap (·.predicates c base)) : Multiset SubqueryFilter) =
        (bs.flatMap (·.tests)).map (·.filter) +
          Predicate.allGuards (bs.flatMap (·.predicates c base)) := by
    intro bs
    induction bs with
    | nil => rfl
    | cons b bs ih =>
      rw [List.flatMap_cons, List.flatMap_cons, Predicate.allConditions_append,
        Predicate.allGuards_append, List.map_append]
      simp only [← Multiset.coe_add, ih, conditions_bucket]
      exact add_add_add_comm _ _ _ _
  rw [Clause.memberships, hbuckets,
    Multiset.coe_eq_coe.mpr ((flatMap_tests_buckets _).map (·.filter))]

theorem tests_memberships (c : Connective) (base : Column) (xs : List Clause) :
    Predicate.allTests (Clause.memberships base c xs) = [] := by
  have hpartitions : ∀ (r : Relation) (qs : List Partition),
      Predicate.allTests (qs.map (·.predicate c base r)) = [] := by
    intro r qs
    induction qs with
    | nil => rfl
    | cons q qs ih =>
      rw [List.map_cons, ← List.singleton_append, Predicate.allTests_append, ih]
      simp [Predicate.allTests, Predicate.allLeaves, leaves_predicate]
      rfl
  rw [Clause.memberships]
  induction buckets (xs.filterMap (Clause.pending? c)) with
  | nil => rfl
  | cons b bs ih =>
    rw [List.flatMap_cons, Predicate.allTests_append, ih, List.append_nil, Bucket.predicates]
    split
    · rfl
    · exact hpartitions _ _

/-! ## Scopes -/

/-- The tests of a column against an operand. Null in a list is tested for apart from the other
items, if there are any. -/
def Operand.tests (column : Column) (op : Comparator) (o : Operand) : List SubqueryFilter :=
  if o.listsNull then
    (if o.value.toList = [] then [] else [.comparison column op (.list o.value.toList)]) ++
      [.nullTest column op.isNegated]
  else if o.value.isNull then [.nullTest column op.isNegated]
  else [.comparison column op o.value]

namespace Clause

/-- The tests on the base table that a clause is. -/
def tests : Clause → List SubqueryFilter
  | .own column op operand => operand.tests column op
  | _ => []

/-- The condition of a clause that is a test on a relation. -/
def condition? : Clause → Option SubqueryFilter
  | .related p => some p.filter
  | _ => none

theorem map_filter_pending? (c : Connective) (x : Clause) :
    (x.pending? c).map (·.filter) = x.condition? := by
  cases x <;> rfl

theorem allTests_ownPredicate (c : Connective) (column : Column) (op : Comparator)
    (operand : Operand) :
    Predicate.allTests [ownPredicate c column op operand] = operand.tests column op := by
  have hleaves : ∀ p : Predicate, Predicate.allTests [p] = p.leaves.filterMap Predicate.test? := by
    intro p
    simp [Predicate.allTests, Predicate.allLeaves]
  rw [hleaves, Operand.tests]
  unfold ownPredicate
  split
  · split
    · next hitems => simp [hitems, Predicate.leaves, Predicate.test?]
    · next hitems =>
      rw [if_neg hitems]
      simp [Predicate.leaves, Predicate.allLeaves, Predicate.test?]
  · split <;> simp [Predicate.leaves, Predicate.test?]

/-- What is in a group is what is in its scope, also when the group is left out for being empty. -/
theorem allLeaves_predicates_group (base : Column) (c : Connective) (written : Option Nat)
    (inner : Connective) (clauses : List Clause) :
    Predicate.allLeaves ((group written inner clauses).predicates base c) =
      Predicate.allLeaves (scopePredicates base inner clauses) := by
  rw [predicates, ← scopePredicates]
  split
  · next h => rw [h]
  · exact Predicate.allLeaves_group ..

mutual

theorem tests_predicates (base : Column) (c : Connective) :
    ∀ x : Clause, Predicate.allTests (x.predicates base c) = x.leaves.flatMap tests
  | .own column op operand => by
    rw [predicates, leaves, allTests_ownPredicate]
    simp [tests]
  | .group written inner clauses => by
    have hscope : Predicate.allTests (scopePredicates base inner clauses) =
        (allLeaves clauses).flatMap tests := by
      rw [scopePredicates, Predicate.allTests_append, tests_memberships, List.append_nil,
        tests_allPredicates base inner clauses]
    rw [Predicate.allTests, allLeaves_predicates_group, leaves_group, ← hscope]
    rfl
  | .related _ | .skipped _ | .unknown _ _ => by
    rw [predicates, leaves]
    rfl

/-- The tests on the base table are at their places in the predicates. -/
theorem tests_allPredicates (base : Column) (c : Connective) :
    ∀ xs, Predicate.allTests (allPredicates base c xs) = (allLeaves xs).flatMap tests
  | [] => by
    rw [allPredicates, allLeaves]
    rfl
  | x :: xs => by
    rw [allPredicates, allLeaves, Predicate.allTests_append, List.flatMap_append,
      tests_predicates base c x, tests_allPredicates base c xs]

end

/-- The tests on the base table in the predicates of a scope are those of its clauses, in order. -/
theorem tests_scopePredicates (base : Column) (c : Connective) (xs : List Clause) :
    Predicate.allTests (scopePredicates base c xs) = (allLeaves xs).flatMap tests := by
  rw [scopePredicates, Predicate.allTests_append, tests_memberships, List.append_nil,
    tests_allPredicates]

/-- Tests on the base table have no subqueries. -/
theorem forall_mem_leaves_ownPredicate (c : Connective) (column : Column) (op : Comparator)
    (operand : Operand) : ∀ p ∈ Predicate.allLeaves [ownPredicate c column op operand],
      p.conditions = [] ∧ p.guard? = none := by
  unfold ownPredicate
  split
  · split <;> simp [Predicate.allLeaves, Predicate.leaves, Predicate.conditions, Predicate.guard?]
  · split <;> simp [Predicate.allLeaves, Predicate.leaves, Predicate.conditions, Predicate.guard?]

/-- The conditions of a scope, if those at the places of its clauses are known. -/
theorem conditions_scope {base : Column} {c : Connective} {xs : List Clause}
    (h : (Predicate.allConditions (allPredicates base c xs) : Multiset SubqueryFilter) +
        (xs.filterMap (pending? c)).map (·.filter) =
      (allLeaves xs).filterMap condition? + Predicate.allGuards (allPredicates base c xs)) :
    (Predicate.allConditions (scopePredicates base c xs) : Multiset SubqueryFilter) =
      (allLeaves xs).filterMap condition? + Predicate.allGuards (scopePredicates base c xs) := by
  rw [scopePredicates, Predicate.allConditions_append, Predicate.allGuards_append,
    ← Multiset.coe_add, ← Multiset.coe_add, conditions_memberships c base xs, ← add_assoc, h,
    add_assoc]

mutual

/-- The conditions at the place of a clause, and its own condition, which is put off. -/
theorem conditions_predicates (base : Column) (c : Connective) : ∀ x : Clause,
    (Predicate.allConditions (x.predicates base c) : Multiset SubqueryFilter) +
        x.condition?.toList =
      x.leaves.filterMap condition? + Predicate.allGuards (x.predicates base c)
  | .own column op operand => by
    have hown := forall_mem_leaves_ownPredicate c column op operand
    have hconditions : Predicate.allConditions [ownPredicate c column op operand] = [] :=
      List.flatMap_eq_nil_iff.mpr fun p hp => (hown p hp).1
    have hguards : Predicate.allGuards [ownPredicate c column op operand] = [] :=
      List.filterMap_eq_nil_iff.mpr fun p hp => (hown p hp).2
    rw [predicates, leaves, hconditions, hguards]
    rfl
  | .group written inner clauses => by
    have hconditions : Predicate.allConditions ((group written inner clauses).predicates base c) =
        Predicate.allConditions (scopePredicates base inner clauses) :=
      congrArg (List.flatMap Predicate.conditions) (allLeaves_predicates_group ..)
    have hguards : Predicate.allGuards ((group written inner clauses).predicates base c) =
        Predicate.allGuards (scopePredicates base inner clauses) :=
      congrArg (List.filterMap Predicate.guard?) (allLeaves_predicates_group ..)
    rw [hconditions, hguards, leaves_group,
      conditions_scope (conditions_allPredicates base inner clauses)]
    exact add_zero _
  | .related _ | .skipped _ | .unknown _ _ => by
    rw [predicates, leaves]
    rfl

theorem conditions_allPredicates (base : Column) (c : Connective) : ∀ xs : List Clause,
    (Predicate.allConditions (allPredicates base c xs) : Multiset SubqueryFilter) +
        (xs.filterMap (pending? c)).map (·.filter) =
      (allLeaves xs).filterMap condition? + Predicate.allGuards (allPredicates base c xs)
  | [] => by
    rw [allPredicates, allLeaves]
    rfl
  | x :: xs => by
    have hcons : ((x :: xs).filterMap (pending? c)).map (·.filter) =
        x.condition?.toList ++ (xs.filterMap (pending? c)).map (·.filter) := by
      rw [List.filterMap_cons, ← map_filter_pending? c]
      cases x.pending? c <;> rfl
    rw [allPredicates, allLeaves, Predicate.allConditions_append, Predicate.allGuards_append,
      List.filterMap_append, hcons]
    simp only [← Multiset.coe_add]
    rw [add_add_add_comm, conditions_predicates base c x, conditions_allPredicates base c xs,
      add_add_add_comm]

end

/-- The conditions of the subqueries of a scope are those of its tests on relations, and guards. -/
theorem conditions_scopePredicates (base : Column) (c : Connective) (xs : List Clause) :
    (Predicate.allConditions (scopePredicates base c xs) : Multiset SubqueryFilter) =
      (allLeaves xs).filterMap condition? + Predicate.allGuards (scopePredicates base c xs) :=
  conditions_scope (conditions_allPredicates base c xs)

end Clause

end DocFilter
