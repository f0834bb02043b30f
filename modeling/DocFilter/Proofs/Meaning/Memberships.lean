import DocFilter.Proofs.Clause.Scope
import DocFilter.Proofs.Meaning.Document
import DocFilter.Proofs.Meaning.Subqueries
import DocFilter.Proofs.Placement.Count

/-!
# Membership tests

The membership tests that the tests of a scope on relations become. In a conjunction they say what
the tests say together (`forall_memberships_and`); in a disjunction every test has a membership test
of its own (`exists_memberships_or`).
-/

namespace DocFilter

variable {α : Type} {db : Database α} {env : Sql.Env α} {registry : Registry} {ts : List Pending}

/-- Tests on one relation are either on its target or on its join table. -/
theorem Pending.separate_peers (hr : registry.Consistent) (hts : ∀ p ∈ ts, p.Sound registry)
    (p : Pending) : Pending.Separate (Pending.peers ts p) := by
  apply Pending.separate_of_registered hr
  · intro a ha
    exact (hts a (Pending.mem_peers.mp ha).1).registered
  · intro a ha b hb
    exact (Pending.mem_peers.mp ha).2.trans (Pending.mem_peers.mp hb).2.symm

/-! ## What membership tests say -/

/-- The base table has a current row with a key, in a database whose join tables always name base
rows. -/
structure AtRow (registry : Registry) (db : Database α) (env : Sql.Env α) (base : Column)
    (key : α) : Prop where
  consistent : registry.Consistent
  keyed : ∀ name r, registry.get? name = some r → r.Keyed db
  key : env base.table base.name = some key

variable {base : Column} {key : α}

theorem holds_predicate_peers (hat : AtRow registry db env base key)
    (hts : ∀ p ∈ ts, p.Sound registry) (c : Connective) {p : Pending} (hp : p ∈ ts) {q : Partition}
    (hq : q ∈ partitions c (Pending.peers ts p)) :
    (q.predicate c base p.field.relation).holds db env =
      q.holds db (p.field.relation.rowsOf db key) := by
  have hfound := (hts p hp).registered.found
  refine Partition.holds_predicate hat.consistent ⟨fun m hm => ?_, fun m hm => ?_⟩
    (fun table htable => Registry.joinTable_ne_target (hat.consistent.flawless _ _ hfound) htable)
    (hat.keyed _ _ hfound) hat.key c
  · obtain ⟨hm, hname⟩ := Pending.mem_peers.mp (mem_of_mem_partitions hq hm)
    exact (hts _ hm).relation_eq (hts p hp) hname
  · exact hts _ (Pending.mem_peers.mp (mem_of_mem_partitions hq hm)).1

/-- In a conjunction the membership tests say what the tests say together. -/
theorem forall_memberships_and (hat : AtRow registry db env base key)
    (hts : ∀ p ∈ ts, p.Sound registry) :
    (∀ x ∈ (buckets ts).flatMap (·.predicates .and base), x.holds db env = true) ↔
      Sense.testsHold db key ts = true := by
  simp only [mem_memberships hts, Sense.testsHold, List.all_eq_true]
  constructor
  · intro hall p hp
    rw [← Pending.peers, ← all_partitions_and _ _ (Pending.separate_peers hat.consistent hts p),
      List.all_eq_true]
    intro q hq
    rw [← holds_predicate_peers hat hts .and hp hq]
    exact hall _ ⟨p, hp, q, hq, rfl⟩
  · rintro htogether _ ⟨p, hp, q, hq, rfl⟩
    have hp' := htogether p hp
    rw [← Pending.peers, ← all_partitions_and _ _ (Pending.separate_peers hat.consistent hts p),
      List.all_eq_true] at hp'
    rw [holds_predicate_peers hat hts .and hp hq]
    exact hp' q hq

theorem buckets_singleton (p : Pending) : buckets [p] = [⟨p.field.name, [p]⟩] := by
  simp [buckets, List.eraseDups_cons]

theorem partitions_singleton (p : Pending) : partitions .and [p] = [.single (p, 0)] := by
  have horder : placingOrder [(p, 0)] = [(p, 0)] :=
    List.perm_singleton.mp (placingOrder_perm [(p, 0)])
  have hplace : place [] (p, 0) = [.single (p, 0)] := by
    have hnone : p.role.hosts.findSome? (fun role => joinFirst? (p, 0) role []) = none :=
      List.findSome?_eq_none_iff.mpr fun _ _ => rfl
    rw [place, hnone]
    rfl
  have hsorted : (Partition.single (p, 0)).sorted = .single (p, 0) := by
    simp [Partition.sorted, Partition.single]
  simp [partitions, horder, hplace, hsorted]

theorem Clause.memberships_related (base : Column) (p : RelatedTest) :
    Clause.memberships base .and [.related p] =
      [(Partition.single (⟨p, .and⟩, 0)).predicate .and base p.field.relation] := by
  have hpendings : [Clause.related p].filterMap (Clause.pending? .and) = [⟨p, .and⟩] := rfl
  rw [Clause.memberships, hpendings, buckets_singleton, List.flatMap_singleton, Bucket.predicates,
    partitions_singleton]
  rfl

/-- A test by itself is met as the partition that it makes up. -/
theorem testsHold_singleton (p : Pending) (i : Nat) :
    Sense.testsHold db key [p] =
      (Partition.single (p, i)).holds db (p.field.relation.rowsOf db key) := by
  have hseparate : Pending.Separate [p] := by
    intro a ha b hb hpositive hqualifier
    rw [List.mem_singleton.mp ha] at hpositive
    rw [List.mem_singleton.mp hb, hpositive] at hqualifier
    cases hqualifier
  have htogether := all_partitions_and db (p.field.relation.rowsOf db key) hseparate
  rw [partitions_singleton] at htogether
  simpa [Sense.testsHold, Partition.holds, Partition.membership, Partition.single] using
    htogether.symm

/-- What joins a test by itself does not matter. -/
theorem testsHold_singleton_congr {p p' : Pending} (h : p.toRelatedTest = p'.toRelatedTest) :
    Sense.testsHold db key [p] = Sense.testsHold db key [p'] := by
  obtain ⟨t, c⟩ := p
  obtain ⟨t', c'⟩ := p'
  obtain rfl : t = t' := h
  rw [testsHold_singleton _ 0, testsHold_singleton _ 0]
  rfl

/-- In a disjunction each test on a relation has a membership test of its own. -/
theorem exists_memberships_or (hat : AtRow registry db env base key)
    (hts : ∀ p ∈ ts, p.Sound registry) :
    (∃ x ∈ (buckets ts).flatMap (·.predicates .or base), x.holds db env = true) ↔
      ∃ p ∈ ts, Sense.testsHold db key [p] = true := by
  simp only [mem_memberships hts]
  constructor
  · rintro ⟨_, ⟨p, hp, q, hq, rfl⟩, hholds⟩
    rw [holds_predicate_peers hat hts .or hp hq] at hholds
    obtain ⟨⟨p', i⟩, hp', rfl⟩ := List.mem_map.mp hq
    obtain ⟨hp', hname⟩ := Pending.mem_peers.mp (List.fst_mem_of_mem_zipIdx hp')
    refine ⟨p', hp', ?_⟩
    rw [testsHold_singleton p' i, (hts p' hp').relation_eq (hts p hp) hname]
    exact hholds
  · rintro ⟨p, hp, hholds⟩
    have hpeer : p ∈ Pending.peers ts p := Pending.mem_peers.mpr ⟨hp, rfl⟩
    obtain ⟨i, hi⟩ := List.getElem?_of_mem hpeer
    have hq : Partition.single (p, i) ∈ partitions .or (Pending.peers ts p) :=
      List.mem_map_of_mem (List.mem_zipIdx_iff_getElem?.mpr hi)
    refine ⟨_, ⟨p, hp, _, hq, rfl⟩, ?_⟩
    rw [holds_predicate_peers hat hts .or hp hq, ← testsHold_singleton p i]
    exact hholds

end DocFilter
