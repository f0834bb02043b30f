import DocFilter.Proofs.Placement.FirstFit
import Mathlib.Data.List.Perm.Basic

/-!
# The members of partitions

Splitting tests into partitions loses none and doubles none: the members of all partitions together
are the tests with their positions, in some order (`members_partitions`). The same holds of the
buckets of a scope (`flatMap_tests_buckets`).
-/

namespace DocFilter

/-- All tests of several partitions. -/
def allMembers (qs : List Partition) : List (Pending × Nat) := qs.flatMap (·.members)

@[simp] theorem allMembers_nil : allMembers [] = [] := rfl

@[simp] theorem allMembers_cons (q : Partition) (qs : List Partition) :
    allMembers (q :: qs) = q.members ++ allMembers qs := rfl

@[simp] theorem allMembers_append (qs rs : List Partition) :
    allMembers (qs ++ rs) = allMembers qs ++ allMembers rs := List.flatMap_append

/-- A placed test is in one partition, and the others stay where they are. -/
theorem allMembers_place (qs : List Partition) (p : Pending × Nat) :
    (allMembers (place qs p)).Perm (p :: allMembers qs) := by
  rcases place_cases qs p with ⟨hplace, -⟩ | ⟨l, q, r, rfl, hplace, -⟩
  · simp [hplace, Partition.single]
  · rw [hplace]
    simp only [allMembers_append, allMembers_cons, Partition.add, List.append_assoc]
    refine (List.Perm.append_left _ ?_).trans List.perm_middle
    exact List.perm_middle

theorem allMembers_foldl_place (ps : List (Pending × Nat)) (qs : List Partition) :
    (allMembers (ps.foldl place qs)).Perm (ps ++ allMembers qs) := by
  induction ps generalizing qs with
  | nil => exact .refl _
  | cons p ps ih =>
    calc (allMembers (ps.foldl place (place qs p))).Perm (ps ++ allMembers (place qs p)) := ih _
      _ |>.Perm (ps ++ p :: allMembers qs) := (allMembers_place qs p).append_left ps
      _ |>.Perm (p :: ps ++ allMembers qs) := List.perm_middle

/-- The order of placement goes through each role, and so through all tests. -/
theorem placingOrder_perm (ps : List (Pending × Nat)) : (placingOrder ps).Perm ps := by
  have hroles : ∀ l : List (Pending × Nat),
      ([Role.positive, .negated, .qualifier].flatMap fun role =>
        l.filter (·.1.role == role)).Perm l := by
    intro l
    induction l with
    | nil => exact .refl _
    | cons p l ih =>
      simp only [List.flatMap_cons, List.flatMap_nil, List.append_nil, List.filter_cons] at ih ⊢
      cases p.1.role with
      | positive => exact ih.cons p
      | negated => exact List.perm_middle.trans (ih.cons p)
      | qualifier =>
        refine (List.perm_middle.append_left _).trans (List.perm_middle.trans (ih.cons p))
  exact (hroles _).trans (List.mergeSort_perm _ _)

theorem Partition.sorted_members_perm (q : Partition) : q.sorted.members.Perm q.members :=
  List.mergeSort_perm _ _

theorem Partition.mem_sorted {q : Partition} {m : Pending × Nat} :
    m ∈ q.sorted.members ↔ m ∈ q.members :=
  q.sorted_members_perm.mem_iff

theorem allMembers_sorted (qs : List Partition) :
    (allMembers (qs.map Partition.sorted)).Perm (allMembers qs) := by
  rw [allMembers, List.flatMap_map]
  exact .flatMap_left qs fun q _ => q.sorted_members_perm

/-- The members of partitions are the tests that were split. -/
theorem members_partitions (c : Connective) (ts : List Pending) :
    (allMembers (partitions c ts)).Perm ts.zipIdx := by
  cases c with
  | or =>
    have hsingle : allMembers (ts.zipIdx.map .single) = ts.zipIdx := by
      rw [allMembers, List.flatMap_map]
      exact List.flatMap_singleton' _
    rw [partitions, hsingle]
  | and =>
    calc (allMembers (partitions .and ts)).Perm
          (allMembers (((placingOrder ts.zipIdx).foldl place []).map Partition.sorted)) :=
        (List.mergeSort_perm _ _).flatMap_right _
      _ |>.Perm (allMembers ((placingOrder ts.zipIdx).foldl place [])) := allMembers_sorted _
      _ |>.Perm (placingOrder ts.zipIdx ++ []) := allMembers_foldl_place _ []
      _ |>.Perm ts.zipIdx := by simpa using placingOrder_perm ts.zipIdx

theorem mem_of_mem_partitions {c : Connective} {ts : List Pending} {q : Partition}
    (hq : q ∈ partitions c ts) {m : Pending × Nat} (hm : m ∈ q.members) : m.1 ∈ ts := by
  have hall : m ∈ ts.zipIdx :=
    (members_partitions c ts).mem_iff.mp (List.mem_flatMap.mpr ⟨q, hq, hm⟩)
  exact List.fst_mem_of_mem_zipIdx hall

theorem members_ne_nil_place {qs : List Partition} (hqs : ∀ q ∈ qs, q.members ≠ [])
    (p : Pending × Nat) : ∀ q ∈ place qs p, q.members ≠ [] := by
  rcases place_cases qs p with ⟨hplace, -⟩ | ⟨l, q, r, rfl, hplace, -⟩
  · rw [hplace]
    exact List.forall_mem_append.mpr
      ⟨hqs, List.forall_mem_singleton.mpr (List.cons_ne_nil p [])⟩
  · rw [hplace]
    obtain ⟨hl, hqr⟩ := List.forall_mem_append.mp hqs
    obtain ⟨-, hr⟩ := List.forall_mem_cons.mp hqr
    exact List.forall_mem_append.mpr
      ⟨hl, List.forall_mem_cons.mpr ⟨by simp [Partition.add], hr⟩⟩

/-- A partition is opened for a test, and no test leaves one. -/
theorem members_ne_nil_foldl_place (ps : List (Pending × Nat)) {qs : List Partition}
    (hqs : ∀ q ∈ qs, q.members ≠ []) : ∀ q ∈ ps.foldl place qs, q.members ≠ [] := by
  induction ps generalizing qs with
  | nil => exact hqs
  | cons p ps ih => exact ih (members_ne_nil_place hqs p)

theorem members_ne_nil_of_mem_partitions {c : Connective} {ts : List Pending} {q : Partition}
    (hq : q ∈ partitions c ts) : q.members ≠ [] := by
  cases c with
  | or =>
    obtain ⟨p, -, rfl⟩ := List.mem_map.mp hq
    exact List.cons_ne_nil p []
  | and =>
    rw [partitions, List.mem_mergeSort] at hq
    obtain ⟨q', hq', rfl⟩ := List.mem_map.mp hq
    have hne := members_ne_nil_foldl_place _ (List.forall_mem_nil _) q' hq'
    intro hnil
    exact hne (q'.sorted_members_perm.symm.trans (.of_eq hnil)).eq_nil

/-- A subquery is joined to its scope as the first of its tests is. -/
theorem connective_eq_head {c : Connective} {ts : List Pending} {q : Partition}
    (hq : q ∈ partitions c ts) :
    ∃ m, q.members.head? = some m ∧ q.connective c = m.1.connective := by
  obtain ⟨m, ms, hmembers⟩ := List.exists_cons_of_ne_nil (members_ne_nil_of_mem_partitions hq)
  refine ⟨m, by rw [hmembers]; rfl, ?_⟩
  rw [Partition.connective, hmembers]

/-- A subquery is joined to its scope as its tests are, if these are all joined alike. -/
theorem connective_of_mem_partitions {c : Connective} {ts : List Pending} {q : Partition}
    (hq : q ∈ partitions c ts) (hts : ∀ t ∈ ts, t.connective = c) : q.connective c = c := by
  obtain ⟨m, hm, hconnective⟩ := connective_eq_head hq
  rw [hconnective]
  exact hts m.1 (mem_of_mem_partitions hq (List.mem_of_head? hm))

/-- There are no partitions only when there are no tests. -/
theorem partitions_eq_nil {c : Connective} {ts : List Pending} :
    partitions c ts = [] ↔ ts = [] := by
  constructor
  · intro h
    have hperm := members_partitions c ts
    rw [h, allMembers_nil] at hperm
    simpa using hperm.symm.eq_nil
  · rintro rfl
    cases c <;> simp [partitions, placingOrder]

/-! ## Buckets -/

theorem nodup_eraseDups (names : List String) : names.eraseDups.Nodup := by
  induction hn : names.length using Nat.strongRecOn generalizing names with
  | _ n ih =>
    cases names with
    | nil => exact List.nodup_nil
    | cons name names =>
      have hlen : (names.filter fun b => !b == name).length < n :=
        hn ▸ Nat.lt_succ_of_le (List.length_filter_le _ _)
      rw [List.eraseDups_cons, List.nodup_cons, List.mem_eraseDups]
      exact ⟨by simp, ih _ hlen _ rfl⟩

/-- Tests with names from a list without duplicates are shared out by their names. -/
theorem flatMap_filter_perm {names : List String} (hnodup : names.Nodup) {ps : List Pending}
    (hps : ∀ p ∈ ps, p.field.name ∈ names) :
    (names.flatMap fun name => ps.filter (·.field.name == name)).Perm ps := by
  induction names generalizing ps with
  | nil =>
    cases ps with
    | nil => exact .refl _
    | cons p ps => cases hps p List.mem_cons_self
  | cons name names ih =>
    obtain ⟨hname, hnodup⟩ := List.nodup_cons.mp hnodup
    -- the other names do not see the tests of this one
    have hrest : (names.flatMap fun n => ps.filter (·.field.name == n)) =
        names.flatMap fun n => (ps.filter (!·.field.name == name)).filter (·.field.name == n) := by
      refine List.flatMap_congr fun n hn => ?_
      rw [List.filter_filter]
      refine List.filter_congr fun p _ => ?_
      by_cases hp : p.field.name = n
      · have hne : n ≠ name := fun h => hname (h ▸ hn)
        simp [hp, hne]
      · simp [hp]
    have hothers : ∀ p ∈ ps.filter (!·.field.name == name), p.field.name ∈ names := by
      intro p hp
      obtain ⟨hp, hne⟩ := List.mem_filter.mp hp
      rcases List.mem_cons.mp (hps p hp) with h | h
      · simp [h] at hne
      · exact h
    rw [List.flatMap_cons, hrest]
    exact ((ih hnodup hothers).append_left _).trans (List.filter_append_perm _ ps)

/-- The tests of a scope are shared out to buckets by their relation. -/
theorem flatMap_tests_buckets (ts : List Pending) : ((buckets ts).flatMap (·.tests)).Perm ts := by
  rw [buckets, List.flatMap_map]
  exact flatMap_filter_perm (nodup_eraseDups _) fun p hp =>
    List.mem_eraseDups.mpr (List.mem_map_of_mem hp)

end DocFilter
