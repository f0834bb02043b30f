import DocFilter.Proofs.Clause.Scope
import DocFilter.Proofs.Reordering.Predicates

/-!
# Rearranged clauses

Two lists of clauses are rearranged if they differ only in the order of siblings, here or inside
groups, and in what is said about clauses that make no sense (`Clause.Rearranged`). They refer to
the same unknown relations (`Clause.Rearranged.unknown_mem_iff`), and they become rearranged
predicates (`Clause.Rearranged.scopePredicates`).
-/

namespace DocFilter

namespace Clause

/-- Clauses that differ in the order of siblings and in their diagnostics. A step is taken at the
front, where the order of siblings brings any clause. -/
inductive Rearranged : List Clause → List Clause → Prop
  /-- Siblings in another order. -/
  | siblings {xs ys : List Clause} (h : xs.Perm ys) : Rearranged xs ys
  /-- Another diagnostic: it names a path, which depends on the order of the document. -/
  | diagnostic (d d' : Diagnostic) (rest : List Clause) :
      Rearranged (.skipped d :: rest) (.skipped d' :: rest)
  /-- A group whose clauses are rearranged. -/
  | group {xs ys : List Clause} (written written' : Option Nat) (inner : Connective)
      (rest : List Clause) (h : Rearranged xs ys) :
      Rearranged (.group written inner xs :: rest) (.group written' inner ys :: rest)
  /-- One after the other. -/
  | trans {xs ys zs : List Clause} (h : Rearranged xs ys) (h' : Rearranged ys zs) :
      Rearranged xs zs

namespace Rearranged

variable {xs ys zs ws : List Clause}

theorem refl (xs : List Clause) : Rearranged xs xs := .siblings (.refl xs)

theorem symm (h : Rearranged xs ys) : Rearranged ys xs := by
  induction h with
  | siblings h => exact .siblings h.symm
  | diagnostic d d' rest => exact .diagnostic d' d rest
  | group written written' inner rest _ ih => exact .group written' written inner rest ih
  | trans _ _ ih ih' => exact ih'.trans ih

theorem length_eq (h : Rearranged xs ys) : xs.length = ys.length := by
  induction h with
  | siblings h => exact h.length_eq
  | diagnostic => rfl
  | group => rfl
  | trans _ _ ih ih' => exact ih.trans ih'

theorem append_right (h : Rearranged xs ys) (zs : List Clause) :
    Rearranged (xs ++ zs) (ys ++ zs) := by
  induction h with
  | siblings h => exact .siblings (h.append_right zs)
  | diagnostic d d' rest => exact .diagnostic d d' (rest ++ zs)
  | group written written' inner rest h => exact .group written written' inner (rest ++ zs) h
  | trans _ _ ih ih' => exact ih.trans ih'

theorem orderFree : OrderFree Rearranged := ⟨siblings, trans, append_right⟩

theorem append (h : Rearranged xs ys) (h' : Rearranged zs ws) :
    Rearranged (xs ++ zs) (ys ++ ws) :=
  orderFree.append h h'

end Rearranged

theorem allPredicates_eq_flatMap (base : Column) (c : Connective) (xs : List Clause) :
    allPredicates base c xs = xs.flatMap (predicates base c) := by
  induction xs with
  | nil => rw [allPredicates, List.flatMap_nil]
  | cons x xs ih => rw [allPredicates, ih, List.flatMap_cons]

namespace Rearranged

variable {ctx : Context} {xs ys : List Clause}

/-- Rearranged clauses refer to the same unknown relations. -/
theorem unknown_mem_iff (h : Rearranged xs ys) (relation field : String) :
    .unknown relation field ∈ allLeaves xs ↔ .unknown relation field ∈ allLeaves ys := by
  induction h with
  | siblings h =>
    rw [allLeaves_eq_flatMap, allLeaves_eq_flatMap]
    exact (h.flatMap_right leaves).mem_iff
  | diagnostic d d' rest => simp [leaves]
  | group written written' inner rest _ ih => simp [ih]
  | trans _ _ ih ih' => exact ih.trans ih'

theorem sound (h : Rearranged xs ys) (hxs : ∀ x ∈ xs, x.Sound ctx) : ∀ y ∈ ys, y.Sound ctx := by
  induction h with
  | siblings h => exact fun y hy => hxs y (h.mem_iff.mpr hy)
  | diagnostic d d' rest =>
    exact List.forall_mem_cons.mpr ⟨.skipped d', (List.forall_mem_cons.mp hxs).2⟩
  | group written written' inner rest _ ih =>
    obtain ⟨hgroup, hrest⟩ := List.forall_mem_cons.mp hxs
    cases hgroup with
    | group members => exact List.forall_mem_cons.mpr ⟨.group (ih members), hrest⟩
  | trans _ _ ih ih' => exact ih' (ih hxs)

theorem pending (h : Rearranged xs ys) (c : Connective) :
    (xs.filterMap (pending? c)).Perm (ys.filterMap (pending? c)) := by
  induction h with
  | siblings h => exact h.filterMap (pending? c)
  | diagnostic => exact .refl _
  | group => exact .refl _
  | trans _ _ ih ih' => exact ih.trans ih'

/-- The predicates of a scope, if those at the places of its clauses are rearranged. -/
theorem scope (hplain : ctx.registry.PlainTables) (h : Rearranged xs ys)
    (hxs : ∀ x ∈ xs, x.Sound ctx) {base : Column} {c : Connective}
    (hplaces : Predicate.Rearranged ((allPredicates base c xs).map Predicate.shown)
      ((allPredicates base c ys).map Predicate.shown)) :
    Predicate.Rearranged ((Clause.scopePredicates base c xs).map Predicate.shown)
      ((Clause.scopePredicates base c ys).map Predicate.shown) := by
  rw [Clause.scopePredicates, Clause.scopePredicates, List.map_append, List.map_append]
  exact hplaces.append (rearranged_memberships hplain (sound_pendings hxs c) (h.pending c)
    (fun p hp => (mem_pendings.mp hp).2) base)

/-- A rearranged group is left out if and only if the group is. -/
theorem predicates_group {inner : Connective} {base : Column}
    (h : Predicate.Rearranged ((Clause.scopePredicates base inner xs).map Predicate.shown)
      ((Clause.scopePredicates base inner ys).map Predicate.shown))
    (written written' : Option Nat) (c : Connective) :
    Predicate.Rearranged (((Clause.group written inner xs).predicates base c).map Predicate.shown)
      (((Clause.group written' inner ys).predicates base c).map Predicate.shown) := by
  have hlength := h.length_eq
  rw [List.length_map, List.length_map] at hlength
  rw [predicates, predicates, ← Clause.scopePredicates, ← Clause.scopePredicates]
  cases hxs : Clause.scopePredicates base inner xs with
  | nil =>
    rw [hxs] at hlength
    rw [List.eq_nil_of_length_eq_zero hlength.symm]
    exact .refl _
  | cons p ps =>
    cases hys : Clause.scopePredicates base inner ys with
    | nil => rw [hxs, hys] at hlength; cases hlength
    | cons q qs =>
      rw [hxs, hys] at h
      simp only [List.map_cons, List.map_nil, Predicate.shown, Predicate.allShown_eq_map] at h ⊢
      exact .group c inner [] h

theorem allPredicates (hplain : ctx.registry.PlainTables) (h : Rearranged xs ys)
    (hxs : ∀ x ∈ xs, x.Sound ctx) (base : Column) (c : Connective) :
    Predicate.Rearranged ((Clause.allPredicates base c xs).map Predicate.shown)
      ((Clause.allPredicates base c ys).map Predicate.shown) := by
  induction h generalizing c with
  | siblings h =>
    rw [allPredicates_eq_flatMap, allPredicates_eq_flatMap]
    exact .siblings ((h.flatMap_right _).map _)
  | diagnostic d d' rest =>
    rw [Clause.allPredicates, Clause.allPredicates, predicates, predicates]
    exact .refl _
  | group written written' inner rest h ih =>
    obtain ⟨hgroup, hrest⟩ := List.forall_mem_cons.mp hxs
    cases hgroup with
    | group members =>
      rw [Clause.allPredicates, Clause.allPredicates, List.map_append, List.map_append]
      have hscope := scope hplain h members (ih members inner)
      exact (predicates_group hscope written written' c).append_right _
  | trans h h' ih ih' => exact (ih hxs c).trans (ih' (h.sound hxs) c)

/-- Rearranged clauses become rearranged predicates. -/
theorem scopePredicates (hplain : ctx.registry.PlainTables) (h : Rearranged xs ys)
    (hxs : ∀ x ∈ xs, x.Sound ctx) (base : Column) (c : Connective) :
    Predicate.Rearranged ((Clause.scopePredicates base c xs).map Predicate.shown)
      ((Clause.scopePredicates base c ys).map Predicate.shown) :=
  scope hplain h hxs (allPredicates hplain h hxs base c)

end Rearranged

end Clause

end DocFilter
