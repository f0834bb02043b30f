import DocFilter.Proofs.Meaning.Memberships
import DocFilter.Scope

/-!
# The meaning of clauses

Clauses have a sense as the parts of a document have (`Clause.sense`), and the predicates of a scope
say what its clauses mean (`Clause.join_senses`): the tests on the base table and the groups make up
the facts, one predicate for each, and the membership tests say together what the tests on relations
say.
-/

namespace DocFilter

variable {α : Type}

/-- What a comparator says about a cell when null may be in the list of its operand. -/
def Operand.holds (db : Database α) (op : Comparator) (cell : Option α) (o : Operand) : Bool :=
  if o.listsNull then
    if op.isNegated then o.value.toList.all (db.avoids cell) && cell.isSome
    else o.value.toList.any (db.fits cell) || cell.isNone
  else op.holds db cell o.value

namespace Clause

section Sense

variable (db : Database α) (row : Row α) (key : α)

mutual

/-- What a clause says about a base row. -/
def sense : Clause → Sense
  | .own column op operand => { facts := [operand.holds db op (row column.name)] }
  | .related p => { tests := [⟨p, .and⟩] }
  | .skipped _ => {}
  | .unknown _ _ => {}
  | .group _ inner clauses => .ofOption (Sense.join db key inner (senses clauses))

/-- What clauses say about a base row. -/
def senses : List Clause → List Sense
  | [] => []
  | x :: xs => x.sense :: senses xs

end

theorem senses_eq_map (xs : List Clause) : senses db row key xs = xs.map (sense db row key) := by
  induction xs with
  | nil => rw [senses, List.map_nil]
  | cons x xs ih => rw [senses, ih, List.map_cons]

end Sense

/-! ## Joined predicates -/

theorem joined_ownPredicate (c : Connective) (column : Column) (op : Comparator)
    (operand : Operand) : (ownPredicate c column op operand).Joined c := by
  unfold ownPredicate
  split
  · split
    · exact .nullTest ..
    · refine .group c (List.cons_ne_nil _ _) ?_
      rintro p (_ | ⟨_, _ | ⟨_, ⟨⟩⟩⟩)
      · exact .comparison ..
      · exact .nullTest ..
  · split
    · exact .nullTest ..
    · exact .comparison ..

theorem joined_memberships (base : Column) (c : Connective) (clauses : List Clause) :
    ∀ p ∈ memberships base c clauses, p.Joined c := by
  intro p hp
  obtain ⟨m, s, rfl⟩ := eq_membership_of_mem_memberships hp
  exact .membership ..

mutual

theorem joined_predicates (base : Column) (c : Connective) :
    ∀ x, ∀ p ∈ predicates base c x, p.Joined c
  | .own column op operand => by
    rw [predicates]
    exact List.forall_mem_singleton.mpr (joined_ownPredicate ..)
  | .group _ inner clauses => by
    rw [predicates]
    split
    · exact List.forall_mem_nil _
    · next hne =>
      exact List.forall_mem_singleton.mpr (.group c hne (List.forall_mem_append.mpr
        ⟨joined_allPredicates base inner clauses, joined_memberships base inner clauses⟩))
  | .related _ | .skipped _ | .unknown _ _ => by
    rw [predicates]
    exact List.forall_mem_nil _

theorem joined_allPredicates (base : Column) (c : Connective) :
    ∀ xs, ∀ p ∈ allPredicates base c xs, p.Joined c
  | [] => by
    rw [allPredicates]
    exact List.forall_mem_nil _
  | x :: xs => by
    rw [allPredicates]
    exact List.forall_mem_append.mpr
      ⟨joined_predicates base c x, joined_allPredicates base c xs⟩

end

/-- The predicates of a scope are joined by its connective. -/
theorem joined_scopePredicates (base : Column) (c : Connective) (clauses : List Clause) :
    ∀ p ∈ scopePredicates base c clauses, p.Joined c :=
  List.forall_mem_append.mpr
    ⟨joined_allPredicates base c clauses, joined_memberships base c clauses⟩

/-! ## Tests on the base table -/

variable {db : Database α} {env : Sql.Env α}

/-- A list with null is tested by two predicates, or by one if null was all there was in it. -/
theorem holds_ownPredicate_of_listsNull (c : Connective) (column : Column) {op : Comparator}
    {items : List Value} (h : Operand.Fits op ⟨.list items, true⟩) :
    (ownPredicate c column op ⟨.list items, true⟩).holds db env =
      Operand.holds db op (env column.table column.name) ⟨.list items, true⟩ := by
  obtain ⟨hop, hitems⟩ := h.items items rfl
  have hcomparison := holds_comparisonExpr db env column op (v := .list items) rfl fun _ => hitems
  have hnull := holds_nullTestExpr db env column op.isNegated
  have hjoined : ∀ inner : Connective, ∀ p ∈ [Predicate.comparison inner column op (.list items),
      .nullTest inner column op.isNegated], p.Joined inner := by
    rintro inner p (_ | ⟨_, _ | ⟨_, ⟨⟩⟩⟩)
    · exact .comparison ..
    · exact .nullTest ..
  cases items with
  | nil =>
    refine (Predicate.holds_nullTest db env c column op.isNegated).trans (hnull.trans ?_)
    cases op <;> simp_all [Operand.holds, Comparator.takesList, Comparator.isNegated, Value.toList]
  | cons v vs =>
    refine (Predicate.holds_group db env (List.cons_ne_nil _ _) (hjoined _)).trans ?_
    simp only [List.map_cons, List.map_nil, Predicate.holds_comparison, Predicate.holds_nullTest,
      hcomparison, hnull]
    cases op <;> simp_all [Operand.holds, Comparator.takesList, Comparator.isNegated,
      Comparator.holds, Connective.combine, Value.toList]

/-- The predicate of a test on the base table says what the test says. -/
theorem holds_ownPredicate (c : Connective) (column : Column) {op : Comparator} {o : Operand}
    (h : o.Fits op) : (ownPredicate c column op o).holds db env =
      o.holds db op (env column.table column.name) := by
  obtain ⟨v, listsNull⟩ := o
  cases listsNull with
  | false =>
    have hholds : Operand.holds db op (env column.table column.name) ⟨v, false⟩ =
        op.holds db (env column.table column.name) v := rfl
    rw [hholds, ownPredicate, if_neg (by simp)]
    cases hv : v.isNull with
    | true =>
      obtain rfl : v = .null := by cases v <;> simp_all [Value.isNull]
      have hop := h.not_ordering
      rw [if_pos rfl, Predicate.holds_nullTest, holds_nullTestExpr]
      cases op <;> simp_all [Comparator.holds, Comparator.isOrdering, Comparator.isNegated,
        Database.fits, Database.avoids, Value.toList]
    | false =>
      rw [if_neg (by simp), Predicate.holds_comparison]
      exact holds_comparisonExpr db env column op hv (h.toList hv)
  | true =>
    obtain ⟨items, hitems⟩ := h.nullItem rfl
    obtain rfl : v = .list items := hitems
    exact holds_ownPredicate_of_listsNull c column h

end Clause

/-! ## Senses -/

namespace Sense

variable (db : Database α) (key : α)

@[simp] theorem facts_concat (ss : List Sense) : (concat ss).facts = ss.flatMap (·.facts) := by
  induction ss with
  | nil => rfl
  | cons s ss ih => rw [List.flatMap_cons, ← ih]; rfl

@[simp] theorem tests_concat (ss : List Sense) : (concat ss).tests = ss.flatMap (·.tests) := by
  induction ss with
  | nil => rfl
  | cons s ss ih => rw [List.flatMap_cons, ← ih]; rfl

/-- A part that says one thing: nothing at all, a fact, or a test. -/
def Simple (s : Sense) : Prop := (∃ o, s = ofOption o) ∨ ∃ p, s = { tests := [p] }

@[simp] theorem close_ofOption (o : Option Bool) : (ofOption o).close db key = o := by
  cases o <;> simp [ofOption, close, testsHold]

theorem close_test (p : Pending) :
    close db key { tests := [p] } = some (testsHold db key [p]) := by
  simp [close]

/-- What simple parts of a disjunction say. -/
theorem filterMap_close {ss : List Sense} (h : ∀ s ∈ ss, s.Simple) :
    (ss.filterMap (close db key)).Perm (ss.flatMap (·.facts) ++
      (ss.flatMap (·.tests)).map fun p => testsHold db key [p]) := by
  induction ss with
  | nil => exact .refl _
  | cons s ss ih =>
    obtain ⟨hs, hss⟩ := List.forall_mem_cons.mp h
    obtain ⟨o, rfl⟩ | ⟨p, rfl⟩ := hs
    · cases o with
      | none => simpa [ofOption, close] using ih hss
      | some b =>
        simpa [ofOption, close, testsHold] using ih hss
    · rw [List.filterMap_cons, close_test]
      exact ((ih hss).cons _).trans List.perm_middle.symm

end Sense

/-- What conditions joined by a connective say, unless there are none. -/
def Connective.summary (c : Connective) (bs : List Bool) : Option Bool :=
  if bs.isEmpty then none else some (c.combine bs)

theorem Connective.summary_congr {c : Connective} {as bs : List Bool} (hempty : as = [] ↔ bs = [])
    (hcombine : c.combine as = c.combine bs) : c.summary as = c.summary bs := by
  simp [Connective.summary, List.isEmpty_iff, hempty, hcombine]

namespace Sense

variable (db : Database α) (key : α)

theorem join_and (ss : List Sense) : join db key .and ss =
    if ss.flatMap (·.facts) = [] ∧ ss.flatMap (·.tests) = [] then none
    else some ((ss.flatMap (·.facts)).all id && testsHold db key (ss.flatMap (·.tests))) := by
  simp [join, close]

theorem join_or {ss : List Sense} (h : ∀ s ∈ ss, s.Simple) : join db key .or ss =
    Connective.or.summary (ss.flatMap (·.facts) ++
      (ss.flatMap (·.tests)).map fun p => testsHold db key [p]) := by
  have hperm := filterMap_close db key h
  have hjoin : join db key .or ss = Connective.or.summary (ss.filterMap (close db key)) := by
    rw [join]
    cases ss.filterMap (close db key) <;> rfl
  rw [hjoin]
  refine Connective.summary_congr ?_ hperm.any_eq
  rw [← List.length_eq_zero_iff, hperm.length_eq, List.length_eq_zero_iff]

end Sense

namespace Clause

variable {db : Database α} {env : Sql.Env α} {ctx : Context} {base : Column} {row : Row α} {key : α}

theorem simple_sense (x : Clause) : (x.sense db row key).Simple := by
  cases x with
  | own => exact .inl ⟨some _, by rw [sense]; rfl⟩
  | related p => exact .inr ⟨_, by rw [sense]⟩
  | skipped | unknown => exact .inl ⟨none, by rw [sense]; rfl⟩
  | group => exact .inl ⟨_, by rw [sense]⟩

theorem tests_sense (x : Clause) : (x.sense db row key).tests = (x.pending? .and).toList := by
  cases x with
  | own | related | skipped | unknown => rw [sense]; rfl
  | group =>
    rw [sense]
    cases Sense.join .. <;> rfl

theorem tests_senses (xs : List Clause) :
    (senses db row key xs).flatMap (·.tests) = xs.filterMap (pending? .and) := by
  rw [senses_eq_map, List.flatMap_map, List.filterMap_eq_flatMap_toList]
  simp only [tests_sense]

/-- The tests on relations of clauses in two scopes differ only in what joins them. -/
theorem filterMap_pending? (c c' : Connective) (xs : List Clause) :
    xs.filterMap (pending? c) =
      (xs.filterMap (pending? c')).map fun p => ⟨p.toRelatedTest, c⟩ := by
  rw [List.map_filterMap]
  congr 1
  funext x
  cases x <;> rfl

/-- The predicates of a scope say what its clauses mean, if this is so for those that are no
membership tests. -/
theorem join_senses (hat : AtRow ctx.registry db env base key) (c : Connective) {xs : List Clause}
    (hxs : ∀ x ∈ xs, x.Sound ctx) (hfacts : (allPredicates base c xs).map (·.holds db env) =
      (senses db row key xs).flatMap (·.facts)) :
    Sense.join db key c (senses db row key xs) =
      c.summary ((scopePredicates base c xs).map (·.holds db env)) := by
  have hts := sound_pendings hxs c
  have hnil : memberships base c xs = [] ↔ xs.filterMap (pending? .and) = [] :=
    (memberships_eq_nil hts c base).trans (by rw [filterMap_pending? c .and, List.map_eq_nil_iff])
  rw [scopePredicates, List.map_append, hfacts]
  cases c with
  | and =>
    have hall : ((memberships base .and xs).map (·.holds db env)).all id =
        Sense.testsHold db key (xs.filterMap (pending? .and)) := by
      have h : (∀ x ∈ memberships base .and xs, x.holds db env = true) ↔ _ :=
        forall_memberships_and hat hts
      rw [Bool.eq_iff_iff, ← h]
      simp
    rw [Sense.join_and, tests_senses, Connective.summary, Connective.combine, List.all_append, hall]
    simp [hnil]
  | or =>
    have hany : ((memberships base .or xs).map (·.holds db env)).any id =
        ((xs.filterMap (pending? .and)).map fun p => Sense.testsHold db key [p]).any id := by
      have h : (∃ x ∈ memberships base .or xs, x.holds db env = true) ↔ _ :=
        exists_memberships_or hat hts
      have hjoined : (xs.filterMap (pending? .or)).map (fun p => Sense.testsHold db key [p]) =
          (xs.filterMap (pending? .and)).map fun p => Sense.testsHold db key [p] := by
        rw [filterMap_pending? .or .and, List.map_map]
        exact List.map_congr_left fun p _ => testsHold_singleton_congr rfl
      rw [← hjoined, Bool.eq_iff_iff, List.any_map, List.any_map, List.any_eq_true,
        List.any_eq_true]
      exact h
    have hsimple : ∀ s ∈ senses db row key xs, s.Simple := by
      rw [senses_eq_map]
      exact List.forall_mem_map.mpr fun x _ => simple_sense x
    rw [Sense.join_or db key hsimple, tests_senses]
    refine Connective.summary_congr ?_ ?_
    · simp [hnil]
    · rw [Connective.combine, Connective.combine, List.any_append, List.any_append, hany]

mutual

/-- The predicates at the place of a clause say what the clause says by itself. -/
theorem holds_predicates (hat : AtRow ctx.registry db env base key) (henv : env ctx.base = row)
    (c : Connective) : ∀ x : Clause, x.Sound ctx →
      (x.predicates base c).map (·.holds db env) = (x.sense db row key).facts
  | .own column op operand, h => by
    cases h with
    | own htable hfits =>
      rw [predicates, sense, List.map_singleton, holds_ownPredicate c column hfits, htable, henv]
  | .group written inner clauses, h => by
    cases h with
    | group hmembers =>
      have hjoin := join_senses hat inner hmembers
        (holds_allPredicates hat henv inner clauses hmembers)
      have hjoined := joined_scopePredicates base inner clauses
      rw [predicates, sense, hjoin, ← scopePredicates]
      split
      · next hnil => simp [hnil, Connective.summary, Sense.ofOption]
      · next hne =>
        rw [List.map_singleton, Predicate.holds_group db env hne hjoined, Connective.summary,
          if_neg (by simpa using hne)]
        rfl
  | .related _, _ | .skipped _, _ | .unknown _ _, _ => by
    rw [predicates, sense]
    rfl

theorem holds_allPredicates (hat : AtRow ctx.registry db env base key) (henv : env ctx.base = row)
    (c : Connective) : ∀ xs : List Clause, (∀ x ∈ xs, x.Sound ctx) →
      (allPredicates base c xs).map (·.holds db env) =
        (senses db row key xs).flatMap (·.facts)
  | [], _ => by
    rw [allPredicates, senses]
    rfl
  | x :: xs, h => by
    obtain ⟨hx, hxs⟩ := List.forall_mem_cons.mp h
    rw [allPredicates, senses, List.map_append, List.flatMap_cons, holds_predicates hat henv c x hx,
      holds_allPredicates hat henv c xs hxs]

end

end Clause

end DocFilter
