import DocFilter.Proofs.Clause.Leaves
import DocFilter.Proofs.Clause.Sound
import DocFilter.Proofs.Placement.Members

/-!
# The predicates of a scope

The predicates of a scope are tests on the base table, groups and membership tests, and a membership
test comes from a partition of the tests on one relation (`mem_memberships`). What holds of each of
the three by what it is made of holds of all predicates of a scope, at every depth
(`Clause.Inherited.scopePredicates`).
-/

namespace DocFilter

variable {registry : Registry} {ts : List Pending}

/-! ## Buckets -/

theorem mem_buckets {b : Bucket} : b ∈ buckets ts ↔
    ∃ p ∈ ts, b = ⟨p.field.name, ts.filter (·.field.name == p.field.name)⟩ := by
  unfold buckets
  simp only [List.mem_map, List.mem_eraseDups]
  constructor
  · rintro ⟨_, ⟨p, hp, rfl⟩, rfl⟩
    exact ⟨p, hp, rfl⟩
  · rintro ⟨p, hp, rfl⟩
    exact ⟨_, ⟨p, hp, rfl⟩, rfl⟩

/-- The tests that share the relation of a test. -/
def Pending.peers (ts : List Pending) (p : Pending) : List Pending :=
  ts.filter (·.field.name == p.field.name)

theorem Pending.mem_peers {p q : Pending} :
    q ∈ Pending.peers ts p ↔ q ∈ ts ∧ q.field.name = p.field.name := by
  simp [Pending.peers]

/-- The predicates of the bucket of a test. -/
theorem predicates_bucket (hts : ∀ p ∈ ts, p.Sound registry) (c : Connective) (base : Column)
    {p : Pending} (hp : p ∈ ts) :
    (⟨p.field.name, Pending.peers ts p⟩ : Bucket).predicates c base =
      (partitions c (Pending.peers ts p)).map (·.predicate c base p.field.relation) := by
  have hpeer : p ∈ Pending.peers ts p := Pending.mem_peers.mpr ⟨hp, rfl⟩
  obtain ⟨q, rest, hpeers⟩ := List.exists_cons_of_ne_nil (List.ne_nil_of_mem hpeer)
  have hq : q ∈ Pending.peers ts p := by
    rw [hpeers]
    exact List.mem_cons_self
  obtain ⟨hq, hname⟩ := Pending.mem_peers.mp hq
  rw [hpeers, ← (hts q hq).relation_eq (hts p hp) hname]
  rfl

/-- The predicates of all buckets. -/
theorem mem_memberships (hts : ∀ p ∈ ts, p.Sound registry) (c : Connective) (base : Column)
    {x : Predicate} : x ∈ (buckets ts).flatMap (·.predicates c base) ↔
      ∃ p ∈ ts, ∃ q ∈ partitions c (Pending.peers ts p),
        x = q.predicate c base p.field.relation := by
  simp only [List.mem_flatMap, mem_buckets]
  constructor
  · rintro ⟨_, ⟨p, hp, rfl⟩, hx⟩
    rw [← Pending.peers, predicates_bucket hts c base hp] at hx
    obtain ⟨q, hq, rfl⟩ := List.mem_map.mp hx
    exact ⟨p, hp, q, hq, rfl⟩
  · rintro ⟨p, hp, q, hq, rfl⟩
    refine ⟨_, ⟨p, hp, rfl⟩, ?_⟩
    rw [← Pending.peers, predicates_bucket hts c base hp]
    exact List.mem_map_of_mem hq

theorem memberships_eq_nil (hts : ∀ p ∈ ts, p.Sound registry) (c : Connective) (base : Column) :
    (buckets ts).flatMap (·.predicates c base) = [] ↔ ts = [] := by
  constructor
  · intro h
    by_contra hne
    obtain ⟨p, rest, rfl⟩ := List.exists_cons_of_ne_nil hne
    have hp : p ∈ p :: rest := List.mem_cons_self
    have hpeers : partitions c (Pending.peers (p :: rest) p) ≠ [] := by
      rw [Ne, partitions_eq_nil]
      exact List.ne_nil_of_mem (Pending.mem_peers.mpr ⟨hp, rfl⟩)
    obtain ⟨q, _, hq⟩ := List.exists_cons_of_ne_nil hpeers
    have hmem := (mem_memberships hts c base).mpr ⟨p, hp, q, by simp [hq], rfl⟩
    rw [h] at hmem
    cases hmem
  · rintro rfl
    rfl

namespace Clause

/-- The tests on relations of a scope are its clauses of that kind, with what joins the scope. -/
theorem mem_pendings {c : Connective} {xs : List Clause} {p : Pending} :
    p ∈ xs.filterMap (pending? c) ↔ .related p.toRelatedTest ∈ xs ∧ p.connective = c := by
  rw [List.mem_filterMap]
  constructor
  · rintro ⟨x, hx, hp⟩
    cases x with
    | related t =>
      cases hp
      exact ⟨hx, rfl⟩
    | own | skipped | unknown | group => cases hp
  · rintro ⟨hx, rfl⟩
    exact ⟨_, hx, rfl⟩

theorem sound_pendings {ctx : Context} {xs : List Clause} (h : ∀ x ∈ xs, x.Sound ctx)
    (c : Connective) : ∀ p ∈ xs.filterMap (pending? c), p.Sound ctx.registry := by
  intro p hp
  cases h _ (mem_pendings.mp hp).1 with
  | related hsound => exact hsound

/-- The predicates for the tests on relations of a scope are membership tests on the key of the base
row, joined as the scope is. -/
theorem eq_membership_of_mem_memberships {base : Column} {c : Connective} {xs : List Clause}
    {p : Predicate} (hp : p ∈ memberships base c xs) : ∃ m s, p = .membership c base m s := by
  obtain ⟨b, hb, hp⟩ := List.mem_flatMap.mp hp
  obtain ⟨t, -, rfl⟩ := mem_buckets.mp hb
  unfold Bucket.predicates at hp
  split at hp
  · cases hp
  · obtain ⟨q, hq, rfl⟩ := List.mem_map.mp hp
    have hc : q.connective c = c := connective_of_mem_partitions hq fun t ht =>
      (mem_pendings.mp (List.mem_filter.mp ht).1).2
    rw [Partition.predicate, hc]
    exact ⟨_, _, rfl⟩

mutual

theorem sound_leaves {ctx : Context} : ∀ x : Clause, x.Sound ctx → ∀ y ∈ x.leaves, y.Sound ctx
  | .group _ _ clauses, h => by
    cases h with
    | group members =>
      rw [leaves_group]
      exact sound_allLeaves clauses members
  | .own .., h | .related _, h | .skipped _, h | .unknown .., h => by
    rw [leaves]
    exact List.forall_mem_singleton.mpr h

/-- The leaves of sound clauses are sound. -/
theorem sound_allLeaves {ctx : Context} :
    ∀ xs : List Clause, (∀ x ∈ xs, x.Sound ctx) → ∀ y ∈ allLeaves xs, y.Sound ctx
  | [], _ => by
    rw [allLeaves]
    exact List.forall_mem_nil _
  | x :: xs, h => by
    obtain ⟨hx, hxs⟩ := List.forall_mem_cons.mp h
    rw [allLeaves]
    exact List.forall_mem_append.mpr ⟨sound_leaves x hx, sound_allLeaves xs hxs⟩

end

/-! ## Properties of all predicates -/

/-- A property of predicates in a scope joined by a connective that is handed up from the leaves of
clauses with `S`: tests on the base table and membership tests have it, and a group has it if all
predicates of its scope have it. -/
structure Inherited (registry : Registry) (S : Clause → Prop) (base : Column)
    (P : Connective → Predicate → Prop) : Prop where
  sound : ∀ t, S (.related t) → t.Sound registry
  own : ∀ (c : Connective) {column : Column} {op : Comparator} {operand : Operand},
    S (.own column op operand) → P c (ownPredicate c column op operand)
  membership : ∀ (c : Connective) {ts : List Pending} {p : Pending} {q : Partition},
    (∀ t ∈ ts, S (.related t.toRelatedTest)) → p ∈ ts → q ∈ partitions c (Pending.peers ts p) →
      P c (.membership c base q.membership
        (subqueryOf p.field.relation q.membership (q.members.map (·.1.filter))))
  group : ∀ (c inner : Connective) {xs : List Clause}, scopePredicates base inner xs ≠ [] →
    (∀ p ∈ scopePredicates base inner xs, P inner p) →
      P c (.group c inner (scopePredicates base inner xs))

namespace Inherited

variable {S : Clause → Prop} {base : Column} {P : Connective → Predicate → Prop}

theorem memberships (h : Inherited registry S base P) (c : Connective) {xs : List Clause}
    (hxs : ∀ x ∈ allLeaves xs, S x) : ∀ p ∈ Clause.memberships base c xs, P c p := by
  have htests : ∀ t ∈ xs.filterMap (pending? c), S (.related t.toRelatedTest) := by
    intro t ht
    refine hxs _ ?_
    rw [allLeaves_eq_flatMap]
    exact List.mem_flatMap.mpr ⟨_, (mem_pendings.mp ht).1, by simp [leaves]⟩
  have hsound : ∀ t ∈ xs.filterMap (pending? c), t.Sound registry := fun t ht =>
    h.sound t.toRelatedTest (htests t ht)
  intro p hp
  obtain ⟨t, ht, q, hq, rfl⟩ := (mem_memberships hsound c base).mp hp
  have hc : q.connective c = c := connective_of_mem_partitions hq fun t' ht' =>
    (mem_pendings.mp (Pending.mem_peers.mp ht').1).2
  rw [Partition.predicate, hc]
  exact h.membership c htests ht hq

mutual

theorem predicates (h : Inherited registry S base P) (c : Connective) :
    ∀ x : Clause, (∀ y ∈ x.leaves, S y) → ∀ p ∈ x.predicates base c, P c p
  | .own column op operand, hx => by
    rw [leaves] at hx
    rw [Clause.predicates]
    exact List.forall_mem_singleton.mpr (h.own c (List.forall_mem_singleton.mp hx))
  | .group _ inner clauses, hx => by
    rw [leaves_group] at hx
    have hscope : ∀ p ∈ Clause.scopePredicates base inner clauses, P inner p :=
      List.forall_mem_append.mpr ⟨allPredicates h inner clauses hx, h.memberships inner hx⟩
    rw [Clause.predicates, ← Clause.scopePredicates]
    split
    · exact List.forall_mem_nil _
    · next hne => exact List.forall_mem_singleton.mpr (h.group c inner hne hscope)
  | .related _, _ | .skipped _, _ | .unknown _ _, _ => by
    rw [Clause.predicates]
    exact List.forall_mem_nil _

theorem allPredicates (h : Inherited registry S base P) (c : Connective) :
    ∀ xs : List Clause, (∀ x ∈ allLeaves xs, S x) → ∀ p ∈ Clause.allPredicates base c xs, P c p
  | [], _ => by
    rw [Clause.allPredicates]
    exact List.forall_mem_nil _
  | x :: xs, hxs => by
    rw [allLeaves_cons] at hxs
    obtain ⟨hx, hrest⟩ := List.forall_mem_append.mp hxs
    rw [Clause.allPredicates]
    exact List.forall_mem_append.mpr ⟨predicates h c x hx, allPredicates h c xs hrest⟩

end

/-- All predicates of a scope have an inherited property. -/
theorem scopePredicates (h : Inherited registry S base P) (c : Connective) {xs : List Clause}
    (hxs : ∀ x ∈ allLeaves xs, S x) : ∀ p ∈ Clause.scopePredicates base c xs, P c p := by
  rw [Clause.scopePredicates]
  exact List.forall_mem_append.mpr ⟨h.allPredicates c xs hxs, h.memberships c hxs⟩

end Inherited

end Clause

end DocFilter
