import DocFilter.Proofs.Placement.Members
import DocFilter.Proofs.Placement.Slots
import Mathlib.Data.List.Lattice
import Mathlib.Data.List.Nodup
import Mathlib.Data.List.Pairwise

/-!
# What shares a partition

Partitions cover the tests they are made of: every test is in exactly one of them, and the order of
the document is kept within and between them (`Partition.Covers`). In each of them the tests are on
different columns, at most one is negated, and none that selects target rows is with a negated one
(`Partition.Fair`). Of the partitions of tests joined by `and`, a qualifier is only in one that it
likes less when all that it likes better have another test on its column (`Partition.Yield`).

The last two are kept by each placement. It matters that tests are placed in the order of their
roles: a partition that a qualifier likes better is never opened after the qualifier was placed.
-/

namespace DocFilter

/-- Only a qualifier joins a partition that was opened for another role. -/
theorem Role.eq_of_mem_hosts {a b : Role} (h : a ∈ b.hosts) (hb : b ≠ .qualifier) : a = b := by
  cases a <;> cases b <;> simp_all [Role.hosts]

theorem Role.mem_hosts_qualifier (role : Role) : role ∈ Role.qualifier.hosts := by
  cases role <;> decide

namespace Partition

variable {q : Partition} {p : Pending × Nat} {c : Column}

theorem constrains_eq_true : q.constrains c = true ↔ ∃ m ∈ q.members, m.1.field.ref = c := by
  simp [constrains]

theorem constrains_eq_false : q.constrains c = false ↔ ∀ m ∈ q.members, m.1.field.ref ≠ c := by
  simp [constrains]

theorem constrains_add (h : q.constrains c = true) : (q.add p).constrains c = true := by
  obtain ⟨m, hm, hc⟩ := constrains_eq_true.mp h
  exact constrains_eq_true.mpr ⟨m, List.mem_append_left _ hm, hc⟩

/-! ## One partition -/

/-- A partition as placements leave it: the tests after the first were let in by its role. -/
structure Formed (q : Partition) : Prop where
  apart : q.members.Pairwise fun a b => a.1.field.ref ≠ b.1.field.ref
  opened : ∃ first rest, q.members = first :: rest ∧ first.1.role = q.role ∧
    ∀ m ∈ rest, q.role ∈ m.1.role.hosts

theorem formed_single (p : Pending × Nat) : (single p).Formed :=
  ⟨List.pairwise_singleton _ p, p, [], rfl, rfl, List.forall_mem_nil _⟩

theorem Formed.add (h : q.Formed) (hrole : q.role ∈ p.1.role.hosts)
    (hfree : q.constrains p.1.field.ref = false) : (q.add p).Formed := by
  constructor
  · refine List.pairwise_append.mpr ⟨h.apart, List.pairwise_singleton _ p, fun m hm n hn => ?_⟩
    rw [List.mem_singleton.mp hn]
    exact constrains_eq_false.mp hfree m hm
  · obtain ⟨first, rest, hmembers, hfirst, hrest⟩ := h.opened
    refine ⟨first, rest ++ [p], by simp [Partition.add, hmembers], hfirst, ?_⟩
    exact List.forall_mem_append.mpr ⟨hrest, List.forall_mem_singleton.mpr hrole⟩

/-- What the tests of one partition have to do with each other. -/
structure Fair (q : Partition) : Prop where
  apart : q.members.Pairwise fun a b => a.1.field.ref ≠ b.1.field.ref
  positive : q.role = .positive ↔ ∃ m ∈ q.members, m.1.role = .positive
  negated : q.role = .negated ↔ ∃ m ∈ q.members, m.1.role = .negated
  neutral : q.role = .qualifier ↔ ∀ m ∈ q.members, m.1.role = .qualifier
  oneNegated : q.members.countP (·.1.role == .negated) ≤ 1
  unmixed : (∃ m ∈ q.members, m.1.role = .negated) → ∀ m ∈ q.members, m.1.role ≠ .positive

theorem Formed.role_eq_iff (h : q.Formed) {role : Role} (hrole : role ≠ .qualifier) :
    q.role = role ↔ ∃ m ∈ q.members, m.1.role = role := by
  obtain ⟨first, rest, hmembers, hfirst, hrest⟩ := h.opened
  rw [hmembers]
  constructor
  · intro hq
    exact ⟨first, List.mem_cons_self, hfirst.trans hq⟩
  · rintro ⟨m, hm, rfl⟩
    rcases List.mem_cons.mp hm with rfl | hm
    · exact hfirst.symm
    · exact Role.eq_of_mem_hosts (hrest m hm) hrole

theorem Formed.role_eq_qualifier_iff (h : q.Formed) :
    q.role = .qualifier ↔ ∀ m ∈ q.members, m.1.role = .qualifier := by
  constructor
  · intro hq m hm
    by_contra hne
    have hrole := (h.role_eq_iff hne).mpr ⟨m, hm, rfl⟩
    exact hne (hrole.symm.trans hq)
  · intro hall
    obtain ⟨first, rest, hmembers, hfirst, -⟩ := h.opened
    rw [← hfirst]
    exact hall first (hmembers ▸ List.mem_cons_self)

/-- No negated test joins a partition, so only the first one can be negated. -/
theorem Formed.countP_negated_le (h : q.Formed) :
    q.members.countP (·.1.role == .negated) ≤ 1 := by
  obtain ⟨first, rest, hmembers, -, hrest⟩ := h.opened
  have hnone : rest.countP (·.1.role == .negated) = 0 := by
    rw [List.countP_eq_zero]
    intro m hm hneg
    have hhosts := hrest m hm
    rw [beq_iff_eq.mp hneg] at hhosts
    cases hhosts
  rw [hmembers, List.countP_cons, hnone]
  split <;> omega

theorem Formed.fair (h : q.Formed) : q.Fair where
  apart := h.apart
  positive := h.role_eq_iff (by decide)
  negated := h.role_eq_iff (by decide)
  neutral := h.role_eq_qualifier_iff
  oneNegated := h.countP_negated_le
  unmixed := by
    intro hneg m hm hpos
    have hnegated := (h.role_eq_iff (by decide : Role.negated ≠ .qualifier)).mpr hneg
    have hpositive := (h.role_eq_iff (by decide : Role.positive ≠ .qualifier)).mpr ⟨m, hm, hpos⟩
    cases hnegated.symm.trans hpositive

@[simp] theorem role_sorted (q : Partition) : q.sorted.role = q.role := rfl

/-- Nothing about fairness is about the order of the tests. -/
theorem Fair.sorted (h : q.Fair) : q.sorted.Fair where
  apart := (q.sorted_members_perm.pairwise_iff fun hne => hne.symm).mpr h.apart
  positive := by simpa only [mem_sorted, role_sorted] using h.positive
  negated := by simpa only [mem_sorted, role_sorted] using h.negated
  neutral := by simpa only [mem_sorted, role_sorted] using h.neutral
  oneNegated := by simpa only [q.sorted_members_perm.countP_eq] using h.oneNegated
  unmixed := by simpa only [mem_sorted] using h.unmixed

/-! ## One placement after the other -/

/-- Whenever a qualifier is in a partition, those that it likes better have a test on its column. -/
def Ceded (qs : List Partition) : Prop :=
  ∀ q ∈ qs, ∀ m ∈ q.members, m.1.role = .qualifier →
    ∀ q' ∈ qs, q'.role.rank < q.role.rank → q'.constrains m.1.field.ref = true

theorem formed_place {qs : List Partition} (h : ∀ q ∈ qs, q.Formed) (p : Pending × Nat) :
    ∀ q ∈ place qs p, q.Formed := by
  rcases place_cases qs p with ⟨hplace, -⟩ | ⟨l, q, r, rfl, hplace, hrole, hfree, -⟩
  · rw [hplace]
    exact List.forall_mem_append.mpr ⟨h, List.forall_mem_singleton.mpr (formed_single p)⟩
  · rw [hplace]
    obtain ⟨hl, hqr⟩ := List.forall_mem_append.mp h
    obtain ⟨hq, hr⟩ := List.forall_mem_cons.mp hqr
    exact List.forall_mem_append.mpr ⟨hl, List.forall_mem_cons.mpr ⟨hq.add hrole hfree, hr⟩⟩

theorem formed_foldl_place (ps : List (Pending × Nat)) {qs : List Partition}
    (h : ∀ q ∈ qs, q.Formed) : ∀ q ∈ ps.foldl place qs, q.Formed := by
  induction ps generalizing qs with
  | nil => exact h
  | cons p ps ih => exact ih (formed_place h p)

theorem Ceded.place {qs : List Partition} (h : Ceded qs) {p : Pending × Nat}
    (hrank : ∀ m ∈ allMembers qs, m.1.role.rank ≤ p.1.role.rank) : Ceded (place qs p) := by
  rcases place_cases qs p with ⟨hplace, hfull⟩ | ⟨l, q₀, r, hqs, hplace, -, -, hbetter⟩
  · rw [hplace]
    intro q hq m hm hqual q' hq' hlt
    rcases List.mem_append.mp hq with hq | hq
    · rcases List.mem_append.mp hq' with hq' | hq'
      · exact h q hq m hm hqual q' hq' hlt
      · -- a partition opened after a qualifier was placed is for a qualifier too
        obtain rfl := List.mem_singleton.mp hq'
        have hle := hrank m (List.mem_flatMap.mpr ⟨q, hq, hm⟩)
        have hmax : q.role.rank ≤ Role.qualifier.rank := by cases q.role <;> decide
        rw [hqual] at hle
        have hlt' : p.1.role.rank < q.role.rank := hlt
        omega
    · obtain rfl := List.mem_singleton.mp hq
      obtain rfl := List.mem_singleton.mp hm
      rcases List.mem_append.mp hq' with hq' | hq'
      · exact hfull q' hq' (hqual ▸ q'.role.mem_hosts_qualifier)
      · obtain rfl := List.mem_singleton.mp hq'
        exact absurd hlt (Nat.lt_irrefl _)
  · -- the partitions are those from before, but for one that has `p` in addition
    have hnew : ∀ q ∈ DocFilter.place qs p, q ∈ qs ∨ q = q₀.add p := by
      intro q hq
      rw [hplace] at hq
      rw [hqs]
      simp only [List.mem_append, List.mem_cons] at hq ⊢
      tauto
    have hq₀ : q₀ ∈ qs := hqs ▸ List.mem_append_right _ List.mem_cons_self
    have hkeep : ∀ q ∈ qs, ∀ m ∈ q.members, m.1.role = .qualifier →
        ∀ q' ∈ DocFilter.place qs p, q'.role.rank < q.role.rank →
          q'.constrains m.1.field.ref = true := by
      intro q hq m hm hqual q' hq' hlt
      rcases hnew q' hq' with hq' | rfl
      · exact h q hq m hm hqual q' hq' hlt
      · exact constrains_add (h q hq m hm hqual q₀ hq₀ hlt)
    intro q hq m hm hqual q' hq' hlt
    rcases hnew q hq with hq | rfl
    · exact hkeep q hq m hm hqual q' hq' hlt
    · rcases List.mem_append.mp hm with hm | hm
      · exact hkeep q₀ hq₀ m hm hqual q' hq' hlt
      · obtain rfl := List.mem_singleton.mp hm
        rcases hnew q' hq' with hq' | rfl
        · exact hbetter q' hq' (hqual ▸ q'.role.mem_hosts_qualifier) hlt
        · exact absurd hlt (Nat.lt_irrefl _)

theorem Ceded.foldl_place {ps : List (Pending × Nat)} {qs : List Partition} (h : Ceded qs)
    (hps : ps.Pairwise fun a b => a.1.role.rank ≤ b.1.role.rank)
    (hrank : ∀ m ∈ allMembers qs, ∀ p ∈ ps, m.1.role.rank ≤ p.1.role.rank) :
    Ceded (ps.foldl DocFilter.place qs) := by
  induction ps generalizing qs with
  | nil => exact h
  | cons p ps ih =>
    obtain ⟨hp, hps⟩ := List.pairwise_cons.mp hps
    refine ih (h.place fun m hm => hrank m hm p List.mem_cons_self) hps fun m hm p' hp' => ?_
    rcases List.mem_cons.mp ((allMembers_place qs p).mem_iff.mp hm) with rfl | hm
    · exact hp p' hp'
    · exact hrank m hm p' (List.mem_cons_of_mem _ hp')

/-! ## The partitions of a scope -/

theorem pairwise_rank_placingOrder (ts : List Pending) :
    (placingOrder ts.zipIdx).Pairwise fun a b => a.1.role.rank ≤ b.1.role.rank := by
  have hrole : ∀ role, ∀ m ∈ Pending.ofRole ts role, m.1.role = role :=
    fun _ m hm => (Pending.mem_of_mem_ofRole hm).2
  have hsame : ∀ role, (Pending.ofRole ts role).Pairwise
      fun a b => a.1.role.rank ≤ b.1.role.rank := by
    intro role
    apply List.pairwise_of_forall_mem_list
    intro a ha b hb
    rw [hrole role a ha, hrole role b hb]
  rw [Pending.placingOrder_zipIdx]
  refine List.pairwise_append.mpr ⟨hsame _, List.pairwise_append.mpr ⟨hsame _, hsame _, ?_⟩, ?_⟩
  · intro a ha b hb
    rw [hrole _ a ha, hrole _ b hb]
    decide
  · intro a ha b _
    rw [hrole _ a ha]
    exact Nat.zero_le _

theorem ceded_placed (ts : List Pending) : Ceded (Pending.placed ts) :=
  Ceded.foldl_place (fun _ hq => absurd hq List.not_mem_nil) (pairwise_rank_placingOrder ts)
    fun _ hm => absurd hm List.not_mem_nil

theorem fair_of_mem_partitions {c : Connective} {ts : List Pending} {q : Partition}
    (hq : q ∈ partitions c ts) : q.Fair := by
  cases c with
  | or =>
    obtain ⟨p, -, rfl⟩ := List.mem_map.mp hq
    exact (formed_single p).fair
  | and =>
    obtain ⟨q', hq', rfl⟩ := Pending.mem_partitions_and.mp hq
    exact (formed_foldl_place _ (List.forall_mem_nil _) q' hq').fair.sorted

theorem pairwise_mergeSort_le {β : Type} (f : β → Nat) (l : List β) :
    (l.mergeSort fun a b => decide (f a ≤ f b)).Pairwise fun a b => f a ≤ f b := by
  have hsort := List.pairwise_mergeSort
    (fun a b c (hab : decide (f a ≤ f b) = true) (hbc : decide (f b ≤ f c) = true) =>
      decide_eq_true (Nat.le_trans (of_decide_eq_true hab) (of_decide_eq_true hbc)))
    (fun a b => by simpa using Nat.le_total (f a) (f b)) l
  exact hsort.imp fun hab => of_decide_eq_true hab

/-- No position is in two partitions, or twice in one. -/
theorem nodup_positions (c : Connective) (ts : List Pending) :
    (∀ q ∈ partitions c ts, (q.members.map Prod.snd).Nodup) ∧
      (partitions c ts).Pairwise fun a b =>
        (a.members.map Prod.snd).Disjoint (b.members.map Prod.snd) := by
  have hall : ((allMembers (partitions c ts)).map Prod.snd).Nodup := by
    rw [((members_partitions c ts).map Prod.snd).nodup_iff, List.zipIdx_map_snd]
    exact List.nodup_range'
  rw [allMembers, List.map_flatMap, List.nodup_flatMap] at hall
  exact hall

theorem eq_of_mem_members {c : Connective} {ts : List Pending} {a b : Partition}
    (ha : a ∈ partitions c ts) (hb : b ∈ partitions c ts) {m n : Pending × Nat}
    (hm : m ∈ a.members) (hn : n ∈ b.members) (h : m.2 = n.2) : a = b := by
  by_contra hne
  have hsymm : Std.Symm fun a b : Partition =>
      (a.members.map Prod.snd).Disjoint (b.members.map Prod.snd) :=
    ⟨fun _ _ hd => List.Disjoint.symm hd⟩
  have hdisjoint := (nodup_positions c ts).2.forall ha hb hne
  exact hdisjoint (List.mem_map_of_mem hm) (h ▸ List.mem_map_of_mem hn)

theorem pairwise_positions {c : Connective} {ts : List Pending} {q : Partition}
    (hq : q ∈ partitions c ts) : q.members.Pairwise fun a b => a.2 < b.2 := by
  have hle : q.members.Pairwise fun a b => a.2 ≤ b.2 := by
    cases c with
    | or =>
      obtain ⟨p, -, rfl⟩ := List.mem_map.mp hq
      exact List.pairwise_singleton _ p
    | and =>
      obtain ⟨q', -, rfl⟩ := Pending.mem_partitions_and.mp hq
      exact pairwise_mergeSort_le Prod.snd q'.members
  have hne := List.pairwise_map.mp ((nodup_positions c ts).1 q hq)
  exact (hle.and hne).imp fun ⟨hab, hab'⟩ => Nat.lt_of_le_of_ne hab hab'

theorem firstIndex_mem (h : q.members ≠ []) : q.firstIndex ∈ q.members.map Prod.snd := by
  cases hq : q.members with
  | nil => exact absurd hq h
  | cons m ms => simp [firstIndex, hq]

theorem pairwise_firstIndex (c : Connective) (ts : List Pending) :
    (partitions c ts).Pairwise fun a b => a.firstIndex < b.firstIndex := by
  have hle : (partitions c ts).Pairwise fun a b => a.firstIndex ≤ b.firstIndex := by
    cases c with
    | or =>
      have hrange : (ts.zipIdx.map Prod.snd).Pairwise (· < ·) := by
        rw [List.zipIdx_map_snd]
        exact List.pairwise_lt_range'
      exact List.pairwise_map.mpr ((List.pairwise_map.mp hrange).imp Nat.le_of_lt)
    | and =>
      exact pairwise_mergeSort_le firstIndex ((Pending.placed ts).map Partition.sorted)
  have hboth := hle.and (nodup_positions c ts).2
  refine hboth.imp_of_mem fun {a b} ha hb ⟨hab, hdisjoint⟩ => Nat.lt_of_le_of_ne hab fun heq => ?_
  have hfa := firstIndex_mem (members_ne_nil_of_mem_partitions ha)
  have hfb := firstIndex_mem (members_ne_nil_of_mem_partitions hb)
  exact hdisjoint hfa (heq ▸ hfb)

/-- Partitions hold each test at its position once, in the order of the positions. -/
structure Covers (qs : List Partition) (ts : List Pending) : Prop where
  once : (allMembers qs).Perm ts.zipIdx
  nonempty : ∀ q ∈ qs, q.members ≠ []
  increasing : ∀ q ∈ qs, q.members.Pairwise fun a b => a.2 < b.2
  byFirst : qs.Pairwise fun a b => a.firstIndex < b.firstIndex

theorem covers_partitions (c : Connective) (ts : List Pending) :
    Covers (partitions c ts) ts where
  once := members_partitions c ts
  nonempty := fun _ => members_ne_nil_of_mem_partitions
  increasing := fun _ => pairwise_positions
  byFirst := pairwise_firstIndex c ts

/-- A qualifier is in a partition only if those opened for a role that it likes better (positive
before negated before neutral) have another test on its column. -/
def Yield (qs : List Partition) : Prop :=
  ∀ q ∈ qs, ∀ m ∈ q.members, m.1.role = .qualifier → ∀ q' ∈ qs, q'.role.rank < q.role.rank →
    ∃ n ∈ q'.members, n.2 ≠ m.2 ∧ n.1.field.ref = m.1.field.ref

theorem yield_partitions (ts : List Pending) : Yield (partitions .and ts) := by
  intro q hq m hm hqual q' hq' hlt
  obtain ⟨r, hr, rfl⟩ := Pending.mem_partitions_and.mp hq
  obtain ⟨r', hr', rfl⟩ := Pending.mem_partitions_and.mp hq'
  have hceded := ceded_placed ts r hr m (mem_sorted.mp hm) hqual r' hr' hlt
  obtain ⟨n, hn, hc⟩ := constrains_eq_true.mp hceded
  refine ⟨n, mem_sorted.mpr hn, fun heq => ?_, hc⟩
  have hsame := eq_of_mem_members hq' hq (mem_sorted.mpr hn) hm heq
  rw [hsame] at hlt
  exact Nat.lt_irrefl _ hlt

/-- Excludes when a test is negated. -/
def polarity (q : Partition) : Membership :=
  if q.members.any (·.1.op.isNegated) then .notIn else .isIn

theorem Fair.membership_eq (h : q.Fair) : q.membership = q.polarity := by
  have hany : q.members.any (·.1.op.isNegated) = true ↔ q.role = .negated := by
    rw [h.negated, List.any_eq_true]
    simp only [Pending.role_eq_negated_iff]
  unfold membership polarity
  cases hr : q.role with
  | negated => rw [if_pos (hany.mpr hr)]
  | positive => rw [if_neg fun h => by cases hr.symm.trans (hany.mp h)]
  | qualifier => rw [if_neg fun h => by cases hr.symm.trans (hany.mp h)]

end Partition

/-- Partitions cover the tests, each is fair, excludes just when it has a negated test and is joined
to its scope as its first test; tests joined by `or` stay apart, and qualifiers joined by `and`
yield. -/
theorem partitions_cover (ts : List Pending) :
    (∀ c, Partition.Covers (partitions c ts) ts ∧ ∀ q ∈ partitions c ts, q.Fair ∧
      ∃ m, q.members.head? = some m ∧ ∀ base r, q.predicate c base r =
        .membership m.1.connective base q.polarity
          (subqueryOf r q.polarity (q.members.map (·.1.filter)))) ∧
    (∀ q ∈ partitions .or ts, q.members.length = 1) ∧
    Partition.Yield (partitions .and ts) := by
  refine ⟨fun c => ⟨Partition.covers_partitions c ts, fun q hq => ?_⟩, fun q hq => ?_,
    Partition.yield_partitions ts⟩
  · have hfair := Partition.fair_of_mem_partitions hq
    obtain ⟨m, hm, hconnective⟩ := connective_eq_head hq
    refine ⟨hfair, m, hm, fun base r => ?_⟩
    rw [Partition.predicate, hfair.membership_eq, hconnective]
  · obtain ⟨p, -, rfl⟩ := List.mem_map.mp hq
    rfl

end DocFilter
