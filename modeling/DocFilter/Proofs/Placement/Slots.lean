import DocFilter.Proofs.Meaning.Sharing
import DocFilter.Proofs.Placement.FirstFit
import Mathlib.Data.List.MinMax
import Mathlib.Order.Nat

/-!
# Partitions are slots

The partitions of tests joined by `and` are the slots of `Pending.slots`: they are as many, and each
of them has the tests that its slot serves (`placed_slots`). So the number of partitions, and which
tests share one, are known without going through the placements one by one.

This needs that no column has both positive tests and qualifiers, which holds when a join table is
never the target of its relation.
-/

namespace DocFilter

namespace Pending

/-- No column has both positive tests and qualifiers. -/
def Separate (ts : List Pending) : Prop :=
  ∀ p ∈ ts, ∀ q ∈ ts, p.role = .positive → q.role = .qualifier → p.field.ref ≠ q.field.ref

/-! ## The order of placement -/

/-- Tests with their positions, in the order of their sort keys. -/
def rankedPairs (ts : List Pending) : List (Pending × Nat) :=
  ts.zipIdx.mergeSort fun a b => a.1.precedes b.1

/-- The tests of a role with their positions, in the order of their sort keys. -/
def ofRole (ts : List Pending) (role : Role) : List (Pending × Nat) :=
  (rankedPairs ts).filter (·.1.role == role)

variable {ts : List Pending}

theorem map_fst_rankedPairs (ts : List Pending) : (rankedPairs ts).map Prod.fst = ranked ts := by
  have hsort := List.map_mergeSort (f := Prod.fst) (l := ts.zipIdx)
    (r := fun a b => a.1.precedes b.1) (s := precedes) fun _ _ _ _ => rfl
  rw [rankedPairs, hsort, List.zipIdx_map_fst, ranked]

theorem mem_of_mem_ofRole {m : Pending × Nat} {role : Role} (h : m ∈ ofRole ts role) :
    m.1 ∈ ts ∧ m.1.role = role := by
  obtain ⟨hm, hr⟩ := List.mem_filter.mp h
  have hmem : m.1 ∈ ranked ts := by
    rw [← map_fst_rankedPairs]
    exact List.mem_map_of_mem hm
  exact ⟨List.mem_mergeSort.mp hmem, by simpa using hr⟩

theorem placingOrder_zipIdx (ts : List Pending) : placingOrder ts.zipIdx =
    ofRole ts .positive ++ (ofRole ts .negated ++ ofRole ts .qualifier) := by
  simp [placingOrder, ofRole, rankedPairs]

theorem role_eq_negated_iff (p : Pending) : p.role = .negated ↔ p.op.isNegated = true := by
  unfold RelatedTest.role
  split
  · simp [*]
  · split <;> simp [*]

/-- The excluding tests are the negated ones. -/
theorem map_fst_ofRole_negated (ts : List Pending) :
    (ofRole ts .negated).map Prod.fst = excluding ts := by
  unfold ofRole excluding
  rw [← map_fst_rankedPairs, List.filter_map]
  congr 1
  apply List.filter_congr
  intro m _
  rw [Bool.eq_iff_iff, beq_iff_eq, role_eq_negated_iff]
  rfl

/-- Two filters one after the other are one filter, when one of them has nothing. -/
theorem filter_append_filter {β : Type} {f g : β → Bool} {l : List β}
    (h : (∀ a ∈ l, f a = false) ∨ ∀ a ∈ l, g a = false) :
    l.filter f ++ l.filter g = l.filter fun a => f a || g a := by
  rcases h with h | h
  · rw [List.filter_eq_nil_iff.mpr fun a ha => by simp [h a ha], List.nil_append]
    exact List.filter_congr fun a ha => by simp [h a ha]
  · rw [List.filter_eq_nil_iff (p := g).mpr fun a ha => by simp [h a ha], List.append_nil]
    exact List.filter_congr fun a ha => by simp [h a ha]

/-- The tests that select by a column have one role, so it does not matter whether they are taken by
role first. -/
theorem map_fst_lines (h : Separate ts) (c : Column) :
    (Lines.ofList (ofRole ts .positive ++ ofRole ts .qualifier) c).map Prod.fst = line ts c := by
  have hone : (∀ m ∈ rankedPairs ts, (m.1.field.ref == c && m.1.role == .positive) = false) ∨
      ∀ m ∈ rankedPairs ts, (m.1.field.ref == c && m.1.role == .qualifier) = false := by
    by_contra hboth
    push Not at hboth
    obtain ⟨⟨p, hp, hpc⟩, q, hq, hqc⟩ := hboth
    simp only [ne_eq, Bool.not_eq_false, Bool.and_eq_true, beq_iff_eq] at hpc hqc
    have hp' : p ∈ ofRole ts .positive := List.mem_filter.mpr ⟨hp, by simp [hpc]⟩
    have hq' : q ∈ ofRole ts .qualifier := List.mem_filter.mpr ⟨hq, by simp [hqc]⟩
    exact h p.1 (mem_of_mem_ofRole hp').1 q.1 (mem_of_mem_ofRole hq').1 hpc.2 hqc.2
      (by rw [hpc.1, hqc.1])
  have hsel : ∀ p : Pending, (p.field.ref == c && p.role == .positive ||
      p.field.ref == c && p.role == .qualifier) = (!p.op.isNegated && p.field.ref == c) := by
    intro p
    have hneg := role_eq_negated_iff p
    cases hr : p.role <;> cases hn : p.op.isNegated <;> simp_all
  unfold Lines.ofList ofRole
  rw [List.filter_append, List.filter_filter, List.filter_filter, filter_append_filter hone, line,
    ← map_fst_rankedPairs, List.filter_map]
  congr 1
  exact List.filter_congr fun m _ => hsel m.1

/-! ## Dealing out the tests of a scope -/

/-- The partitions of tests joined by `and`, before they are put back into the order of the
document. -/
def placed (ts : List Pending) : List Partition := (placingOrder ts.zipIdx).foldl place []

theorem mem_partitions_and {q : Partition} :
    q ∈ partitions .and ts ↔ ∃ q' ∈ placed ts, q'.sorted = q := by
  rw [partitions, List.mem_mergeSort, List.mem_map]
  rfl

/-- The positive tests are dealt out to partitions of their own, the negated tests open one
partition each, and the qualifiers are dealt out to all of these and to further partitions. -/
theorem dealt_placed (ts : List Pending) : ∃ n k,
    Dealt (List.replicate n none) (.ofList (ofRole ts .positive))
      ((ofRole ts .positive).foldl place []) ∧
    Dealt (List.replicate n none ++ (ofRole ts .negated).map some ++ List.replicate k none)
      (.ofList (ofRole ts .positive ++ ofRole ts .qualifier)) (placed ts) := by
  have hstart : Dealt [] (.ofList []) [] := ⟨rfl, fun _ => rfl⟩
  have hrole : ∀ role, ∀ m ∈ ofRole ts role, m.1.role = role :=
    fun _ m hm => (mem_of_mem_ofRole hm).2
  obtain ⟨⟨n, hn⟩, hopen⟩ := hstart.foldl_place (by decide : Role.positive ≠ .negated)
    (hrole .positive) ⟨by simp, List.Pairwise.nil⟩
  obtain ⟨hneg, happend⟩ := hn.foldl_place_negated (hrole .negated)
  -- positive partitions stand before negated ones
  have hopen' : Role.qualifier.Open ((ofRole ts .negated).foldl place
      ((ofRole ts .positive).foldl place [])) := by
    rw [happend]
    refine ⟨fun q _ => by cases q.role <;> decide, List.pairwise_append.mpr ⟨hopen.sorted, ?_, ?_⟩⟩
    · rw [List.pairwise_map]
      apply List.pairwise_of_forall_mem_list
      intro a ha b hb
      simp [Partition.single, hrole .negated a ha, hrole .negated b hb]
    · intro q hq q' hq'
      have hpos : q.role = .positive := by simpa [Role.hosts] using hopen.hosts q hq
      rw [hpos]
      exact Nat.zero_le _
  obtain ⟨⟨k, hk⟩, -⟩ := hneg.foldl_place (by decide : Role.qualifier ≠ .negated)
    (hrole .qualifier) hopen'
  refine ⟨n, k, by simpa using hn, ?_⟩
  rw [placed, placingOrder_zipIdx, List.foldl_append, List.foldl_append]
  simpa using hk

/-! ## Counting slots -/

theorem countP_admits_none (n : Nat) (c : Column) :
    (List.replicate n none).countP (admits · c) = n := by
  simp [List.countP_replicate, admits]

/-- Of the partitions, only those opened for positive tests have tests on a target column. -/
theorem length_positive_line (h : Separate ts) {p : Pending} (hp : p ∈ ts)
    (hr : p.role = .positive) :
    (Lines.ofList (ofRole ts .positive) p.field.ref).length = (line ts p.field.ref).length := by
  have hnone : (ofRole ts .qualifier).filter (·.1.field.ref == p.field.ref) = [] := by
    rw [List.filter_eq_nil_iff]
    intro m hm hc
    obtain ⟨hmt, hmr⟩ := mem_of_mem_ofRole hm
    exact h p hp m.1 hmt hr hmr (by simpa using hc : m.1.field.ref = p.field.ref).symm
  rw [← map_fst_lines h, List.length_map]
  unfold Lines.ofList
  rw [List.filter_append, hnone, List.append_nil]

theorem foldr_max_eq {l : List Nat} {n : Nat} (hle : ∀ x ∈ l, x ≤ n)
    (hge : ∀ k, n = k + 1 → ∃ x ∈ l, k < x) : l.foldr max 0 = n := by
  apply le_antisymm (List.max_le_of_forall_le l n hle)
  cases n with
  | zero => exact Nat.zero_le _
  | succ k =>
    obtain ⟨x, hx, hlt⟩ := hge k rfl
    exact List.le_max_of_le hx hlt

/-- Positive tests need as many partitions as the longest of their lines. -/
theorem width_eq (h : Separate ts) {n : Nat}
    (hd : Dealt (List.replicate n none) (.ofList (ofRole ts .positive))
      ((ofRole ts .positive).foldl place [])) : width ts = n := by
  apply foldr_max_eq
  · intro x hx
    obtain ⟨p, hp, rfl⟩ := List.mem_map.mp hx
    obtain ⟨hpt, hpr⟩ := List.mem_filter.mp hp
    have hle := hd.length_le p.field.ref
    rwa [countP_admits_none, length_positive_line h hpt (by simpa using hpr)] at hle
  · rintro k rfl
    rw [List.replicate_succ'] at hd
    obtain ⟨m, hm, hlt⟩ := hd.exists_lt_length
    obtain ⟨hmt, hmr⟩ := mem_of_mem_ofRole (List.mem_filter.mp hm).1
    rw [countP_admits_none, length_positive_line h hmt hmr] at hlt
    exact ⟨_, List.mem_map.mpr ⟨m.1, List.mem_filter.mpr ⟨hmt, by simp [hmr]⟩, rfl⟩, hlt⟩

/-- The slot that a partition stands for. -/
def slotOf : Option (Pending × Nat) → Slot
  | none => .selecting
  | some m => .excluding m.1

theorem admits_slotOf (own : Option (Pending × Nat)) (c : Column) :
    (slotOf own).admits c = admits own c := by
  cases own <;> rfl

theorem countP_map_slotOf (owns : List (Option (Pending × Nat))) (c : Column) :
    (owns.map slotOf).countP (·.admits c) = owns.countP (admits · c) := by
  rw [List.countP_map]
  exact List.countP_congr fun own _ => by simp [admits_slotOf]

theorem firstSlots_eq (ts : List Pending) : firstSlots ts =
    (List.replicate (width ts) none ++ (ofRole ts .negated).map some).map slotOf := by
  rw [firstSlots, List.map_append, List.map_replicate, ← map_fst_ofRole_negated, List.map_map,
    List.map_map]
  rfl

/-- Qualifiers need as many further partitions as they find no place in the first ones. -/
theorem surplus_eq (h : Separate ts) {k : Nat}
    (hd : Dealt (List.replicate (width ts) none ++ (ofRole ts .negated).map some ++
        List.replicate k none) (.ofList (ofRole ts .positive ++ ofRole ts .qualifier))
      (placed ts)) :
    surplus ts = k := by
  have hlen : ∀ c, (line ts c).length =
      (Lines.ofList (ofRole ts .positive ++ ofRole ts .qualifier) c).length := by
    intro c
    rw [← map_fst_lines h, List.length_map]
  have hfirst : ∀ c, (firstSlots ts).countP (·.admits c) =
      (List.replicate (width ts) none ++ (ofRole ts .negated).map some).countP (admits · c) := by
    intro c
    rw [firstSlots_eq, countP_map_slotOf]
  apply foldr_max_eq
  · intro x hx
    obtain ⟨p, -, rfl⟩ := List.mem_map.mp hx
    have hle := hd.length_le p.field.ref
    rw [List.countP_append, countP_admits_none, ← hlen, ← hfirst] at hle
    omega
  · rintro k rfl
    rw [List.replicate_succ', ← List.append_assoc] at hd
    obtain ⟨m, hm, hlt⟩ := hd.exists_lt_length
    rw [List.countP_append, countP_admits_none, ← hlen, ← hfirst] at hlt
    rcases List.mem_append.mp (List.mem_filter.mp hm).1 with hpos | hqual
    · -- a line of positive tests ends within the first slots
      obtain ⟨hmt, hmr⟩ := mem_of_mem_ofRole hpos
      have hle : (line ts m.1.field.ref).length ≤ width ts :=
        List.le_max_of_le
          (List.mem_map.mpr ⟨m.1, List.mem_filter.mpr ⟨hmt, by simp [hmr]⟩, rfl⟩) le_rfl
      rw [hfirst, List.countP_append, countP_admits_none] at hlt
      omega
    · obtain ⟨hmt, hmr⟩ := mem_of_mem_ofRole hqual
      exact ⟨_, List.mem_map.mpr ⟨m.1, List.mem_filter.mpr ⟨hmt, by simp [hmr]⟩, rfl⟩, by omega⟩

/-- The tests of a scope are dealt out to their slots. -/
theorem dealt_slots (h : Separate ts) : ∃ owns : List (Option (Pending × Nat)),
    slots ts = owns.map slotOf ∧
    Dealt owns (.ofList (ofRole ts .positive ++ ofRole ts .qualifier)) (placed ts) := by
  obtain ⟨n, k, hpos, hall⟩ := dealt_placed ts
  obtain rfl := width_eq h hpos
  obtain rfl := surplus_eq h hall
  refine ⟨_, ?_, hall⟩
  rw [slots, firstSlots_eq]
  simp [slotOf]

/-- There are as many partitions as slots. -/
theorem length_placed (h : Separate ts) : (placed ts).length = (slots ts).length := by
  obtain ⟨owns, hslots, hd⟩ := dealt_slots h
  rw [hd.length_eq, hslots, List.length_map]

theorem mem_served {i : Nat} {s : Slot} {p : Pending} : p ∈ served ts i s ↔
    p ∈ s.own ∨ (p ∈ ts ∧ p.op.isNegated = false ∧ s.admits p.field.ref = true ∧
      (line ts p.field.ref)[((slots ts).take i).countP (·.admits p.field.ref)]? = some p) := by
  simp [served, and_assoc]

/-- A partition has the tests that its slot serves, and excludes when its slot does. -/
theorem placed_slots (h : Separate ts) {i : Nat} {q : Partition} {s : Slot}
    (hq : (placed ts)[i]? = some q) (hs : (slots ts)[i]? = some s) :
    (∀ p, p ∈ q.members.map Prod.fst ↔ p ∈ served ts i s) ∧
      (q.role = .negated ↔ s ≠ .selecting) := by
  obtain ⟨owns, hslots, hd⟩ := dealt_slots h
  rw [hslots, List.getElem?_map] at hs
  obtain ⟨own, ho, rfl⟩ := Option.map_eq_some_iff.mp hs
  obtain ⟨hmem, hneg⟩ := hd.mem_iff ho hq
  refine ⟨fun p => ?_, by rw [hneg]; cases own <;> simp [slotOf]⟩
  rw [mem_served, admits_slotOf, hslots, ← List.map_take, countP_map_slotOf, ← map_fst_lines h,
    List.getElem?_map]
  constructor
  · intro hp
    obtain ⟨m, hm, rfl⟩ := List.mem_map.mp hp
    rcases (hmem m).mp hm with hown | ⟨hadmits, hline⟩
    · obtain rfl : own = some m := hown
      exact Or.inl (List.mem_singleton.mpr rfl)
    · have hl : m ∈ ofRole ts .positive ++ ofRole ts .qualifier :=
        (List.mem_filter.mp (List.mem_of_getElem? hline)).1
      have hmr : m.1 ∈ ts ∧ m.1.role ≠ .negated := by
        rcases List.mem_append.mp hl with hl | hl
        · obtain ⟨h1, h2⟩ := mem_of_mem_ofRole hl
          exact ⟨h1, by simp [h2]⟩
        · obtain ⟨h1, h2⟩ := mem_of_mem_ofRole hl
          exact ⟨h1, by simp [h2]⟩
      refine Or.inr ⟨hmr.1, ?_, hadmits, by rw [hline]; rfl⟩
      simpa [role_eq_negated_iff] using hmr.2
  · rintro (hown | ⟨-, -, hadmits, hline⟩)
    · cases own with
      | none => exact absurd hown List.not_mem_nil
      | some m =>
        obtain rfl := List.mem_singleton.mp hown
        exact List.mem_map_of_mem ((hmem m).mpr (Or.inl rfl))
    · obtain ⟨m, hm, rfl⟩ := Option.map_eq_some_iff.mp hline
      exact List.mem_map_of_mem ((hmem m).mpr (Or.inr ⟨hadmits, hm⟩))

end Pending

/-! ## What partitions say -/

section

variable {α : Type} (db : Database α) (rows : List (RelatedRow α))

/-- What a partition says about the related rows. -/
def Partition.holds (q : Partition) : Bool :=
  match q.membership with
  | .isIn => rows.any fun r => q.members.all (·.1.meets db r)
  | .notIn => !rows.any fun r => q.members.all (·.1.meets db r)

/-- A partition says what a slot with the same tests says. -/
theorem Partition.holds_eq {q : Partition} {s : Pending.Slot} {tests : List Pending}
    (hmem : ∀ p, p ∈ q.members.map Prod.fst ↔ p ∈ tests)
    (hneg : q.role = .negated ↔ s ≠ .selecting) : q.holds db rows = s.holds db rows tests := by
  have hall : ∀ r, (q.members.all fun m => m.1.meets db r) = tests.all (Pending.meets db r) := by
    intro r
    rw [Bool.eq_iff_iff, List.all_eq_true, List.all_eq_true]
    exact ⟨fun h p hp => by
        obtain ⟨m, hm, rfl⟩ := List.mem_map.mp ((hmem p).mpr hp)
        exact h m hm,
      fun h m hm => h m.1 ((hmem m.1).mp (List.mem_map_of_mem hm))⟩
  unfold Partition.holds Partition.membership Pending.Slot.holds
  simp only [hall]
  cases s with
  | selecting => cases hr : q.role <;> simp_all
  | excluding p => cases hr : q.role <;> simp_all

/-- Putting the tests of a partition back into the order of the document changes nothing. -/
theorem Partition.holds_sorted (q : Partition) : q.sorted.holds db rows = q.holds db rows := by
  have hall : ∀ r, (q.sorted.members.all fun m => m.1.meets db r) =
      q.members.all fun m => m.1.meets db r :=
    fun _ => (List.mergeSort_perm ..).all_eq
  unfold Partition.holds
  simp only [hall]
  rfl

/-- The partitions of tests joined by `and` say what the conjunction of the tests says. -/
theorem all_partitions_and {ts : List Pending} (h : Pending.Separate ts) :
    (partitions .and ts).all (·.holds db rows) = Pending.together db rows ts := by
  have hperm : (partitions .and ts).Perm ((Pending.placed ts).map Partition.sorted) :=
    List.mergeSort_perm _ _
  rw [hperm.all_eq, List.all_map, Bool.eq_iff_iff, List.all_eq_true, Pending.together,
    List.all_eq_true]
  simp only [Function.comp_apply, Partition.holds_sorted]
  constructor
  · rintro hall ⟨s, i⟩ hs
    have hs' : (Pending.slots ts)[i]? = some s := List.mem_zipIdx_iff_getElem?.mp hs
    have hi : i < (Pending.placed ts).length := by
      rw [Pending.length_placed h]
      exact (List.getElem?_eq_some_iff.mp hs').1
    have hq := List.getElem?_eq_getElem hi
    obtain ⟨hmem, hneg⟩ := Pending.placed_slots h hq hs'
    have hholds := hall _ (List.getElem_mem hi)
    rwa [Partition.holds_eq db rows hmem hneg] at hholds
  · intro hall q hq
    obtain ⟨i, hi, rfl⟩ := List.getElem_of_mem hq
    have hs := List.getElem?_eq_getElem (l := Pending.slots ts) (i := i)
      (by rw [← Pending.length_placed h]; exact hi)
    obtain ⟨hmem, hneg⟩ := Pending.placed_slots h (List.getElem?_eq_getElem hi) hs
    rw [Partition.holds_eq db rows hmem hneg]
    exact hall (_, i) (List.mem_zipIdx_iff_getElem?.mpr hs)

end

end DocFilter
