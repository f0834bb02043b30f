import DocFilter.Proofs.Placement.Members
import DocFilter.Proofs.Reordering.Tests

/-!
# Placing more tests

What becomes of the partitions of positive tests when further ones are placed with them. A further
test goes to its place in the line of its column, and those behind it move to the next partition
each, away from the tests that they shared one with. Nothing is lost by that if there are none
behind it, or if they were alone in their partitions (`Pending.Spares`): then the tests of each
partition still share one (`Pending.exists_partition_superset`).
-/

namespace DocFilter

namespace Pending

variable {ts us : List Pending} {c : Column}

/-! ## Lines of tests -/

/-- Whether a test selects by a column. -/
def selectsBy (c : Column) (p : Pending) : Bool := !p.op.isNegated && p.field.ref == c

theorem line_eq_filter (ts : List Pending) (c : Column) :
    line ts c = (ranked ts).filter (selectsBy c) := rfl

theorem mem_line {p : Pending} : p ∈ line ts c ↔ p ∈ ts ∧ selectsBy c p = true := by
  rw [line_eq_filter, List.mem_filter, ranked, List.mem_mergeSort]

theorem countP_line (f : Pending → Bool) (ts : List Pending) (c : Column) :
    (line ts c).countP f = ts.countP fun p => f p && selectsBy c p := by
  rw [line_eq_filter, List.countP_filter, ranked, (List.mergeSort_perm ts _).countP_eq]

theorem pairwise_line (ts : List Pending) (c : Column) :
    (line ts c).Pairwise fun p q => p.precedes q = true :=
  (pairwise_ranked ts).filter _

theorem line_cons_of_not {p : Pending} (h : selectsBy c p = false) :
    line (p :: ts) c = line ts c := by
  obtain ⟨l₁, l₂, hcons, hts, -⟩ := List.mergeSort_cons precedes_trans precedes_total p ts
  rw [line_eq_filter, line_eq_filter, ranked, ranked, hcons, hts]
  simp [h]

/-- A test goes between those that come before it and those that do not. -/
theorem exists_line_cons (ts : List Pending) {p : Pending} (h : selectsBy c p = true) :
    ∃ l₁ l₂, line (p :: ts) c = l₁ ++ p :: l₂ ∧ line ts c = l₁ ++ l₂ ∧
      (∀ q ∈ l₁, p.precedes q = false) ∧ ∀ q ∈ l₂, p.precedes q = true := by
  obtain ⟨l₁, l₂, hcons, hts, hbefore⟩ :=
    List.mergeSort_cons precedes_trans precedes_total p ts
  have hsorted := pairwise_ranked (p :: ts)
  rw [ranked, hcons] at hsorted
  have hafter := (List.pairwise_cons.mp (List.pairwise_append.mp hsorted).2.1).1
  refine ⟨l₁.filter (selectsBy c), l₂.filter (selectsBy c), ?_, ?_, fun q hq => ?_, fun q hq =>
    hafter q (List.mem_filter.mp hq).1⟩
  · rw [line_eq_filter, ranked, hcons, List.filter_append, List.filter_cons_of_pos h]
  · rw [line_eq_filter, ranked, hts, List.filter_append]
  · simpa using hbefore q (List.mem_filter.mp hq).1

/-- The numbers in a line with a further test: those that come before it keep theirs, and the others
move up by one. -/
theorem getElem?_line_cons {p t : Pending} {i : Nat} (h : selectsBy c p = true) :
    (line (p :: ts) c)[i]? = some t ↔
      (p.precedes t = false ∧ (line ts c)[i]? = some t) ∨
      (i = (line ts c).countP (!p.precedes ·) ∧ p = t) ∨
      ∃ j, i = j + 1 ∧ p.precedes t = true ∧ (line ts c)[j]? = some t := by
  obtain ⟨l₁, l₂, hcons, hts, hl₁, hl₂⟩ := exists_line_cons ts h
  have hcount : (l₁ ++ l₂).countP (!p.precedes ·) = l₁.length := by
    have h₁ : l₁.countP (!p.precedes ·) = l₁.length :=
      List.countP_eq_length.mpr fun q hq => by simp [hl₁ q hq]
    have h₂ : l₂.countP (!p.precedes ·) = 0 :=
      List.countP_eq_zero.mpr fun q hq => by simp [hl₂ q hq]
    rw [List.countP_append, h₁, h₂, Nat.add_zero]
  -- a test is in the first part or in the second by what the further test says of it
  have hsplit : ∀ j, (l₁ ++ l₂)[j]? = some t → (p.precedes t = false ↔ j < l₁.length) := by
    intro j hj
    by_cases hlt : j < l₁.length
    · rw [List.getElem?_append_left hlt] at hj
      exact iff_of_true (hl₁ t (List.mem_of_getElem? hj)) hlt
    · rw [List.getElem?_append_right (by omega)] at hj
      simp [hl₂ t (List.mem_of_getElem? hj), hlt]
  rw [hcons, hts, hcount]
  rcases Nat.lt_trichotomy i l₁.length with hlt | rfl | hgt
  · have hsame : (l₁ ++ p :: l₂)[i]? = (l₁ ++ l₂)[i]? := by
      rw [List.getElem?_append_left hlt, List.getElem?_append_left hlt]
    rw [hsame]
    constructor
    · intro ht
      exact Or.inl ⟨(hsplit i ht).mpr hlt, ht⟩
    · rintro (⟨-, ht⟩ | ⟨rfl, -⟩ | ⟨j, rfl, hp, hj⟩)
      · exact ht
      · omega
      · simp [(hsplit j hj).mpr (by omega)] at hp
  · constructor
    · intro ht
      exact Or.inr (Or.inl ⟨rfl, by simpa using ht⟩)
    · rintro (⟨hp, ht⟩ | ⟨-, rfl⟩ | ⟨j, hj, hp, ht⟩)
      · have := (hsplit _ ht).mp hp
        omega
      · simp
      · simp [(hsplit j ht).mpr (by omega)] at hp
  · obtain ⟨j, rfl⟩ : ∃ j, i = j + 1 := ⟨i - 1, by omega⟩
    have hnext : (l₁ ++ p :: l₂)[j + 1]? = (l₁ ++ l₂)[j]? := by
      rw [List.getElem?_append_right (by omega), List.getElem?_append_right (by omega),
        Nat.sub_add_comm (by omega), List.getElem?_cons_succ]
    rw [hnext]
    constructor
    · intro ht
      have hp : p.precedes t = true := by
        rw [← Bool.not_eq_false, hsplit j ht]
        omega
      exact Or.inr (Or.inr ⟨j, rfl, hp, ht⟩)
    · rintro (⟨hp, ht⟩ | ⟨hj, -⟩ | ⟨k, hk, -, ht⟩)
      · have := (hsplit _ ht).mp hp
        omega
      · omega
      · obtain rfl : j = k := by omega
        exact ht

/-- A test keeps its number in its line if it precedes all further tests on the column. -/
theorem getElem?_line_append {t : Pending} {i : Nat} (ht : (line ts c)[i]? = some t)
    (hus : ∀ s ∈ us, s.field.ref = c → t.precedes s = true) :
    (line (ts ++ us) c)[i]? = some t := by
  induction ts generalizing i with
  | nil => simp [line, ranked] at ht
  | cons p ts ih =>
    cases hp : selectsBy c p with
    | false =>
      rw [line_cons_of_not hp] at ht
      rw [List.cons_append, line_cons_of_not hp]
      exact ih ht
    | true =>
      rw [List.cons_append, getElem?_line_cons hp]
      rcases (getElem?_line_cons hp).mp ht with ⟨hpt, ht⟩ | ⟨rfl, rfl⟩ | ⟨j, rfl, hpt, ht⟩
      · exact Or.inl ⟨hpt, ih ht⟩
      · -- none of the further tests is counted
        have hnone : (us.countP fun s => !p.precedes s && selectsBy c s) = 0 := by
          refine List.countP_eq_zero.mpr fun s hs hcounted => ?_
          simp only [selectsBy, Bool.and_eq_true, beq_iff_eq] at hcounted
          simp [hus s hs hcounted.2.2] at hcounted
        refine Or.inr (Or.inl ⟨?_, rfl⟩)
        rw [countP_line, countP_line, List.countP_append, hnone, Nat.add_zero]
      · exact Or.inr (Or.inr ⟨j, rfl, hpt, ih ht⟩)

/-- A test that does not precede another one has all those behind it that do. -/
theorem countP_precedes_le {s t : Pending} {i : Nat} (ht : (line ts c)[i]? = some t)
    (hs : t.precedes s = false) : (line ts c).countP (·.precedes s) ≤ i := by
  obtain ⟨hi, rfl⟩ := List.getElem?_eq_some_iff.mp ht
  have hdrop : ((line ts c).drop i).countP (·.precedes s) = 0 := by
    refine List.countP_eq_zero.mpr fun q hq hqs => ?_
    have hrest : (line ts c)[i].precedes q = true := by
      have hsorted := (pairwise_line ts c).drop (i := i)
      rw [List.drop_eq_getElem_cons hi] at hsorted hq
      rcases List.mem_cons.mp hq with rfl | hq
      · simpa using precedes_total (line ts c)[i] (line ts c)[i]
      · exact (List.pairwise_cons.mp hsorted).1 q hq
    simp [precedes_trans _ _ _ hrest hqs] at hs
  calc (line ts c).countP (·.precedes s)
      = ((line ts c).take i).countP (·.precedes s) +
          ((line ts c).drop i).countP (·.precedes s) := by
        rw [← List.countP_append, List.take_append_drop]
    _ = ((line ts c).take i).countP (·.precedes s) := by rw [hdrop, Nat.add_zero]
    _ ≤ ((line ts c).take i).length := List.countP_le_length
    _ ≤ i := List.length_take_le _ _

/-! ## Partitions of positive tests -/

theorem selectsBy_of_positive {p : Pending} (hp : p.role = .positive) :
    selectsBy c p = (p.field.ref == c) := by
  have hneg : p.op.isNegated = false := by
    simpa [hp] using (role_eq_negated_iff p).not
  simp [selectsBy, hneg]

theorem separate_of_positive (hts : ∀ p ∈ ts, p.role = .positive) : Separate ts := by
  intro p _ q hq _ hqualifier
  rw [hts q hq] at hqualifier
  cases hqualifier

theorem slots_of_positive (hts : ∀ p ∈ ts, p.role = .positive) :
    slots ts = List.replicate (width ts) .selecting := by
  have hexcluding : excluding ts = [] := by
    refine List.filter_eq_nil_iff.mpr fun p hp => ?_
    rw [← role_eq_negated_iff, hts p (List.mem_mergeSort.mp hp)]
    decide
  have hqualifiers : ts.filter (·.role == .qualifier) = [] :=
    List.filter_eq_nil_iff.mpr fun p hp => by simp [hts p hp]
  have hsurplus : surplus ts = 0 := by
    rw [surplus, hqualifiers]
    rfl
  rw [slots, firstSlots, hexcluding, hsurplus]
  simp

/-- A partition of positive tests selects, and has from each line the test with its number. -/
theorem mem_placed_iff (hts : ∀ p ∈ ts, p.role = .positive) {i : Nat} {q : Partition}
    (hq : (placed ts)[i]? = some q) : q.membership = .isIn ∧
      ∀ p, p ∈ q.members.map Prod.fst ↔ (line ts p.field.ref)[i]? = some p := by
  have hsep := separate_of_positive hts
  have hi : i < width ts := by
    have hlt := (List.getElem?_eq_some_iff.mp hq).1
    rwa [length_placed hsep, slots_of_positive hts, List.length_replicate] at hlt
  have hs : (slots ts)[i]? = some .selecting := by
    rw [slots_of_positive hts, List.getElem?_replicate_of_lt hi]
  obtain ⟨hmem, hneg⟩ := placed_slots hsep hq hs
  refine ⟨?_, fun p => ?_⟩
  · unfold Partition.membership
    cases hr : q.role <;> simp_all
  · have hcount : ((slots ts).take i).countP (·.admits p.field.ref) = i := by
      rw [slots_of_positive hts, List.take_replicate, Nat.min_eq_left hi.le]
      simp [List.countP_replicate, Slot.admits]
    rw [hmem, mem_served, hcount]
    constructor
    · rintro (hown | ⟨-, -, -, hline⟩)
      · exact absurd hown List.not_mem_nil
      · exact hline
    · intro hline
      obtain ⟨hp, hsel⟩ := mem_line.mp (List.mem_of_getElem? hline)
      exact Or.inr ⟨hp, by simpa [selectsBy] using hsel, rfl, hline⟩

/-- There are enough partitions for every line. -/
theorem lt_length_placed (hts : ∀ p ∈ ts, p.role = .positive) {p : Pending} {i : Nat}
    (hp : (line ts p.field.ref)[i]? = some p) : i < (placed ts).length := by
  have hmem : p ∈ ts := (mem_line.mp (List.mem_of_getElem? hp)).1
  rw [length_placed (separate_of_positive hts), slots_of_positive hts, List.length_replicate]
  refine Nat.lt_of_lt_of_le (List.getElem?_eq_some_iff.mp hp).1 ?_
  exact List.le_max_of_le
    (List.mem_map_of_mem (List.mem_filter.mpr ⟨hmem, by simp [hts p hmem]⟩)) le_rfl

/-! ## Further tests -/

/-- A further test leaves together what is together: no test on its column comes after it, or as
many come before it as there are tests on any other column. -/
def Spares (ts : List Pending) (s : Pending) : Prop :=
  (∀ t ∈ ts, t.field.ref = s.field.ref → t.precedes s = true) ∨
  ∀ t ∈ ts, t.field.ref ≠ s.field.ref →
    ts.countP (·.field.ref == t.field.ref) ≤
      ts.countP fun u => u.precedes s && u.field.ref == s.field.ref

variable (hts : ∀ p ∈ ts, p.role = .positive) (hus : ∀ s ∈ us, s.role = .positive)
  (hspares : ∀ s ∈ us, Spares ts s)
include hts

/-- A test that a further test moves up is alone in its partition. -/
theorem eq_of_not_precedes {p p' s : Pending} {i : Nat} (hs : Spares ts s)
    (hp : (line ts p.field.ref)[i]? = some p) (hp' : (line ts p'.field.ref)[i]? = some p')
    (href : s.field.ref = p.field.ref) (hlater : p.precedes s = false) : p' = p := by
  have hmem : p ∈ ts := (mem_line.mp (List.mem_of_getElem? hp)).1
  have hmem' : p' ∈ ts := (mem_line.mp (List.mem_of_getElem? hp')).1
  rcases hs with hlast | hroom
  · simp [hlast p hmem href.symm] at hlater
  · by_cases hsame : p'.field.ref = p.field.ref
    · rw [hsame, hp] at hp'
      exact (Option.some.inj hp').symm
    · exfalso
      have hlength : (line ts p'.field.ref).length = ts.countP (·.field.ref == p'.field.ref) := by
        rw [← List.countP_true, countP_line]
        refine List.countP_congr fun u hu => ?_
        rw [selectsBy_of_positive (hts u hu)]
        simp
      have hbefore : (line ts p.field.ref).countP (·.precedes s) =
          ts.countP fun u => u.precedes s && u.field.ref == s.field.ref := by
        rw [countP_line]
        refine List.countP_congr fun u hu => ?_
        rw [selectsBy_of_positive (hts u hu), href]
      have hi : i < (line ts p'.field.ref).length := (List.getElem?_eq_some_iff.mp hp').1
      have hle := countP_precedes_le hp hlater
      have hcount := hroom p' hmem' (by rwa [href])
      omega

include hus hspares

theorem exists_placed_superset {i : Nat} {q : Partition} (hq : (placed ts)[i]? = some q) :
    ∃ q' ∈ placed (ts ++ us), q.members.map Prod.fst ⊆ q'.members.map Prod.fst := by
  have hall : ∀ p ∈ ts ++ us, p.role = .positive := List.forall_mem_append.mpr ⟨hts, hus⟩
  have hmem := (mem_placed_iff hts hq).2
  by_cases hkept : ∀ p ∈ q.members.map Prod.fst, ∀ s ∈ us, s.field.ref = p.field.ref →
      p.precedes s = true
  · -- all tests of the partition keep their number, and so they stay together
    have hline : ∀ p ∈ q.members.map Prod.fst,
        (line (ts ++ us) p.field.ref)[i]? = some p :=
      fun p hp => getElem?_line_append ((hmem p).mp hp) (hkept p hp)
    have hmembers : q.members ≠ [] :=
      members_ne_nil_foldl_place _ (List.forall_mem_nil _) q (List.mem_of_getElem? hq)
    obtain ⟨p, hp⟩ := List.exists_mem_of_ne_nil _ (List.map_eq_nil_iff.not.mpr hmembers)
    have hi := lt_length_placed hall (hline p hp)
    refine ⟨_, List.getElem_mem hi, fun p hp => ?_⟩
    exact ((mem_placed_iff hall (List.getElem?_eq_getElem hi)).2 p).mpr (hline p hp)
  · -- one of them moves, and it is the only one
    simp only [not_forall, Bool.not_eq_true] at hkept
    obtain ⟨p, hp, s, hs, href, hlater⟩ := hkept
    have hpts : p ∈ ts := (mem_line.mp (List.mem_of_getElem? ((hmem p).mp hp))).1
    have hnew : p ∈ line (ts ++ us) p.field.ref := by
      refine mem_line.mpr ⟨List.mem_append_left us hpts, ?_⟩
      simp [selectsBy_of_positive (hts p hpts)]
    obtain ⟨j, hj⟩ := List.getElem?_of_mem hnew
    have hlt := lt_length_placed hall hj
    refine ⟨_, List.getElem_mem hlt, fun p' hp' => ?_⟩
    rw [eq_of_not_precedes hts (hspares s hs) ((hmem p).mp hp) ((hmem p').mp hp') href hlater]
    exact ((mem_placed_iff hall (List.getElem?_eq_getElem hlt)).2 p).mpr hj

/-- Tests that share a partition still share one when further tests spare them. -/
theorem exists_partition_superset {q : Partition} (hq : q ∈ partitions .and ts) :
    q.membership = .isIn ∧ ∃ q' ∈ partitions .and (ts ++ us), q'.membership = .isIn ∧
      q.members.map Prod.fst ⊆ q'.members.map Prod.fst := by
  have hall : ∀ p ∈ ts ++ us, p.role = .positive := List.forall_mem_append.mpr ⟨hts, hus⟩
  obtain ⟨q, hplaced, rfl⟩ := mem_partitions_and.mp hq
  obtain ⟨i, hi⟩ := List.getElem?_of_mem hplaced
  obtain ⟨q', hq', hsub⟩ := exists_placed_superset hts hus hspares hi
  obtain ⟨j, hj⟩ := List.getElem?_of_mem hq'
  refine ⟨(mem_placed_iff hts hi).1, q'.sorted, mem_partitions_and.mpr ⟨q', hq', rfl⟩,
    (mem_placed_iff hall hj).1, fun p hp => ?_⟩
  refine (q'.sorted_members_perm.map Prod.fst).mem_iff.mpr (hsub ?_)
  exact (q.sorted_members_perm.map Prod.fst).mem_iff.mp hp

end Pending

end DocFilter
