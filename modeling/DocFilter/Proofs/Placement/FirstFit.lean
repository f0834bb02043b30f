import DocFilter.Pending.Partition
import Mathlib.Data.List.Basic

/-!
# Placing tests one by one

Tests joined by `and` are placed in the order positive, negated, qualifier. Because the partitions
opened for one role stand before those opened for the next, looking through them role by role is the
same as looking through them from left to right (`place_eq_firstFit`): a test joins the first
partition that has no test on its column, and opens a new one when there is none.

A sequence of such placements deals out the tests on each column to the partitions from left to
right. `Dealt` says this about the partitions reached so far: the first partition has the first test
of every column that it can take, the second one has the next, and so on until every line of tests
is used up. A placement adds one test to the end of one line (`Dealt.firstFit`).
-/

namespace DocFilter

/-! ## From left to right -/

/-- Adds a test to the first partition that has no test on its column, or opens one for it. -/
def firstFit (p : Pending × Nat) : List Partition → List Partition
  | [] => [.single p]
  | q :: qs => if q.constrains p.1.field.ref then q :: firstFit p qs else q.add p :: qs

theorem joinFirst?_cons_of_not_takes {p : Pending × Nat} {role : Role} {q : Partition}
    {qs : List Partition} (h : q.takes role p.1 = false) :
    joinFirst? p role (q :: qs) = (joinFirst? p role qs).map (q :: ·) := by
  simp [joinFirst?, h]

/-- No partition takes a test for a role that none was opened for. -/
theorem joinFirst?_eq_none {p : Pending × Nat} {role : Role} {qs : List Partition}
    (h : ∀ q ∈ qs, q.role ≠ role) : joinFirst? p role qs = none := by
  induction qs with
  | nil => rfl
  | cons q qs ih =>
    have hq : q.takes role p.1 = false := by simp [Partition.takes, h q (List.mem_cons_self ..)]
    rw [joinFirst?_cons_of_not_takes hq, ih fun q' hq' => h q' (List.mem_cons_of_mem _ hq')]
    rfl

/-- A partition with a test on the column is passed over, whatever the role. -/
theorem place_cons_of_constrains {p : Pending × Nat} {q : Partition} {qs : List Partition}
    (h : q.constrains p.1.field.ref = true) : place (q :: qs) p = q :: place qs p := by
  have hjoin : ∀ role, joinFirst? p role (q :: qs) = (joinFirst? p role qs).map (q :: ·) :=
    fun role => joinFirst?_cons_of_not_takes (by simp [Partition.takes, h])
  unfold place
  rw [funext hjoin]
  cases p.1.role <;> simp only [Role.hosts, List.findSome?_cons, List.findSome?_nil]
  · cases joinFirst? p .positive qs <;> simp
  · simp
  · cases joinFirst? p .positive qs <;> cases joinFirst? p .negated qs <;>
      cases joinFirst? p .qualifier qs <;> simp

/-- The order in which partitions are opened. -/
def Role.rank : Role → Nat
  | .positive => 0
  | .negated => 1
  | .qualifier => 2

/-- Roles are looked for in the order in which their partitions are opened. -/
theorem Role.hosts_sorted (role : Role) : role.hosts.Pairwise fun a b => a.rank < b.rank := by
  cases role <;> decide

/-- Looking through the partitions role by role finds the same one as looking through them from left
to right, when they stand in the order of their roles and all of them come into question. -/
theorem place_eq_firstFit {p : Pending × Nat} {qs : List Partition}
    (hrole : ∀ q ∈ qs, q.role ∈ p.1.role.hosts)
    (hsorted : qs.Pairwise fun a b => a.role.rank ≤ b.role.rank) : place qs p = firstFit p qs := by
  induction qs with
  | nil =>
    have hnone : (p.1.role.hosts.findSome? fun role => joinFirst? p role []) = none :=
      List.findSome?_eq_none_iff.mpr fun _ _ => rfl
    rw [place, hnone]
    rfl
  | cons q qs ih =>
    obtain ⟨hq, hqs⟩ := List.pairwise_cons.mp hsorted
    by_cases hc : q.constrains p.1.field.ref = true
    · rw [place_cons_of_constrains hc, firstFit, if_pos hc,
        ih (fun q' hq' => hrole q' (List.mem_cons_of_mem _ hq')) hqs]
    · have hown : joinFirst? p q.role (q :: qs) = some (q.add p :: qs) := by
        simp [joinFirst?, Partition.takes, hc]
      obtain ⟨earlier, later, hhosts⟩ := List.append_of_mem (hrole q (List.mem_cons_self ..))
      -- a role that is looked for earlier has no partition from here on
      have hearlier : ∀ role ∈ earlier, joinFirst? p role (q :: qs) = none := by
        intro role hmem
        have hlt : role.rank < q.role.rank := by
          have hs := Role.hosts_sorted p.1.role
          rw [hhosts] at hs
          exact (List.pairwise_append.mp hs).2.2 role hmem q.role (List.mem_cons_self ..)
        apply joinFirst?_eq_none
        intro q' hq' he
        rcases List.mem_cons.mp hq' with rfl | hq'
        · rw [he] at hlt; omega
        · have hle := hq q' hq'
          rw [he] at hle; omega
      have hfound : (p.1.role.hosts.findSome? fun role => joinFirst? p role (q :: qs))
          = some (q.add p :: qs) :=
        List.findSome?_eq_some_iff.mpr ⟨earlier, q.role, later, hhosts, hown, hearlier⟩
      rw [place, hfound, firstFit, if_neg hc]
      rfl

/-- A negated test always opens a partition. -/
theorem place_negated {p : Pending × Nat} (h : p.1.role = .negated) (qs : List Partition) :
    place qs p = qs ++ [.single p] := by
  simp [place, h, Role.hosts]

/-! ## What a placement can do -/

theorem takes_eq_false_of_joinFirst? {p : Pending × Nat} {role : Role} {qs : List Partition}
    (h : joinFirst? p role qs = none) : ∀ q ∈ qs, q.takes role p.1 = false := by
  induction qs with
  | nil => exact List.forall_mem_nil _
  | cons q qs ih =>
    rw [joinFirst?] at h
    split at h
    · cases h
    · next hq =>
      have hrest : joinFirst? p role qs = none := by simpa using h
      exact List.forall_mem_cons.mpr ⟨by simpa using hq, ih hrest⟩

theorem eq_append_of_joinFirst? {p : Pending × Nat} {role : Role} {qs rs : List Partition}
    (h : joinFirst? p role qs = some rs) : ∃ l q r, qs = l ++ q :: r ∧ rs = l ++ q.add p :: r ∧
      q.role = role ∧ q.constrains p.1.field.ref = false := by
  induction qs generalizing rs with
  | nil => cases h
  | cons q qs ih =>
    rw [joinFirst?] at h
    split at h
    · next hq =>
      cases h
      have htakes : q.role = role ∧ q.constrains p.1.field.ref = false := by
        simpa [Partition.takes] using hq
      exact ⟨[], q, qs, rfl, rfl, htakes⟩
    · obtain ⟨rs', hrs', rfl⟩ := Option.map_eq_some_iff.mp h
      obtain ⟨l, q', r, rfl, rfl, htakes⟩ := ih hrs'
      exact ⟨q :: l, q', r, rfl, rfl, htakes⟩

/-- What a placement can do: it opens a partition when all that the test could join have a test on
its column, or adds the test to one that has none, when all that the test likes better have one. -/
theorem place_cases (qs : List Partition) (p : Pending × Nat) :
    (place qs p = qs ++ [.single p] ∧
      ∀ q ∈ qs, q.role ∈ p.1.role.hosts → q.constrains p.1.field.ref = true) ∨
    ∃ l q r, qs = l ++ q :: r ∧ place qs p = l ++ q.add p :: r ∧ q.role ∈ p.1.role.hosts ∧
      q.constrains p.1.field.ref = false ∧
      ∀ q' ∈ qs, q'.role ∈ p.1.role.hosts → q'.role.rank < q.role.rank →
        q'.constrains p.1.field.ref = true := by
  have hfull : ∀ role q, q ∈ qs → q.role = role → joinFirst? p role qs = none →
      q.constrains p.1.field.ref = true := by
    intro role q hq hrole hnone
    have htakes := takes_eq_false_of_joinFirst? hnone q hq
    simpa [Partition.takes, hrole] using htakes
  unfold place
  cases hfind : p.1.role.hosts.findSome? fun role => joinFirst? p role qs with
  | none =>
    left
    have hnone := List.findSome?_eq_none_iff.mp hfind
    exact ⟨rfl, fun q hq hhost => hfull q.role q hq rfl (hnone q.role hhost)⟩
  | some rs =>
    right
    obtain ⟨earlier, role, later, hhosts, hjoin, hearlier⟩ := List.findSome?_eq_some_iff.mp hfind
    obtain ⟨l, q, r, hqs, rfl, hrole, hfree⟩ := eq_append_of_joinFirst? hjoin
    refine ⟨l, q, r, hqs, rfl, by rw [hrole, hhosts]; simp, hfree, fun q' hq' hhost hlt => ?_⟩
    -- what is liked better comes earlier, because the likings are in the order of ranks
    have hmem : q'.role ∈ earlier := by
      have hsorted := Role.hosts_sorted p.1.role
      rw [hhosts] at hsorted hhost
      rcases List.mem_append.mp hhost with hmem | hmem
      · exact hmem
      · rcases List.mem_cons.mp hmem with heq | hmem
        · rw [heq, hrole] at hlt
          omega
        · have hafter := (List.pairwise_cons.mp (List.pairwise_append.mp hsorted).2.1).1 _ hmem
          rw [hrole] at hlt
          omega
    exact hfull q'.role q' hq' rfl (hearlier q'.role hmem)

/-! ## Dealing out lines of tests -/

/-- The tests on each column, in the order in which they are placed. -/
abbrev Lines := Column → List (Pending × Nat)

/-- The lines of a sequence of tests. -/
def Lines.ofList (ms : List (Pending × Nat)) : Lines := fun c => ms.filter (·.1.field.ref == c)

/-- Whether a partition can take a test on a column. A partition that was opened for a negated test
(`some`) cannot take another test on the column of that one. -/
def admits (own : Option (Pending × Nat)) (c : Column) : Bool := own.all (·.1.field.ref != c)

/-- What is left of the lines for the partitions further to the right. -/
def Lines.rest (ls : Lines) (own : Option (Pending × Nat)) : Lines :=
  fun c => if admits own c then (ls c).tail else ls c

/-- A partition has the negated test it was opened for, and the first test of each line that it can
take, and nothing else. -/
structure Partition.Serves (q : Partition) (own : Option (Pending × Nat)) (ls : Lines) : Prop where
  mem_iff : ∀ m, m ∈ q.members ↔
    m ∈ own ∨ (admits own m.1.field.ref ∧ (ls m.1.field.ref).head? = some m)
  nonempty : q.members ≠ []
  excludes_iff : q.role = .negated ↔ own.isSome

/-- The lines are dealt out to partitions from left to right, and nothing of them is left. -/
def Dealt : List (Option (Pending × Nat)) → Lines → List Partition → Prop
  | [], ls, qs => qs = [] ∧ ∀ c, ls c = []
  | _ :: _, _, [] => False
  | own :: owns, ls, q :: qs => q.Serves own ls ∧ Dealt owns (ls.rest own) qs

/-- Every line has tests on its own column only. -/
def Lines.Sorted (ls : Lines) : Prop := ∀ c, ∀ m ∈ ls c, m.1.field.ref = c

theorem Lines.Sorted.rest {ls : Lines} (h : ls.Sorted) (own : Option (Pending × Nat)) :
    (ls.rest own).Sorted := by
  intro c m hm
  unfold Lines.rest at hm
  split at hm
  · exact h c m (List.mem_of_mem_tail hm)
  · exact h c m hm

theorem Lines.sorted_ofList (ms : List (Pending × Nat)) : (Lines.ofList ms).Sorted := by
  intro c m hm
  simpa using (List.mem_filter.mp hm).2

/-- A partition is free for a column when it can take tests on it and the line has none left. -/
theorem Partition.Serves.constrains_eq_false {q : Partition} {own : Option (Pending × Nat)}
    {ls : Lines} (h : q.Serves own ls) (hs : ls.Sorted) (c : Column) :
    q.constrains c = false ↔ admits own c = true ∧ ls c = [] := by
  have hany : q.constrains c = false ↔ ∀ m ∈ q.members, m.1.field.ref ≠ c := by
    simp [Partition.constrains]
  rw [hany]
  constructor
  · intro hfree
    have hadmits : admits own c = true := by
      cases own with
      | none => rfl
      | some o => simpa [admits] using hfree o ((h.mem_iff o).mpr (Or.inl rfl))
    refine ⟨hadmits, ?_⟩
    cases hl : ls c with
    | nil => rfl
    | cons m ms =>
      have hm : m.1.field.ref = c := hs c m (by rw [hl]; exact List.mem_cons_self ..)
      have hmem : m ∈ q.members :=
        (h.mem_iff m).mpr (Or.inr ⟨by rw [hm]; exact hadmits, by rw [hm, hl]; rfl⟩)
      exact absurd hm (hfree m hmem)
  · rintro ⟨hadmits, hl⟩ m hm hc
    rcases (h.mem_iff m).mp hm with ho | ⟨-, hh⟩
    · obtain rfl : own = some m := ho
      simp [admits, hc] at hadmits
    · rw [hc, hl] at hh
      simp at hh

section Placement

variable {owns : List (Option (Pending × Nat))} {ls ls' : Lines} {qs : List Partition}
  {p : Pending × Nat}

/-- Placing a test at the end of its line changes nothing for a partition that has a test on the
column already. -/
theorem Partition.Serves.of_constrains {q : Partition} {own : Option (Pending × Nat)}
    (h : q.Serves own ls) (hs : ls.Sorted) (hline : ls' p.1.field.ref = ls p.1.field.ref ++ [p])
    (hother : ∀ c, c ≠ p.1.field.ref → ls' c = ls c) (hc : q.constrains p.1.field.ref = true) :
    q.Serves own ls' := by
  refine ⟨fun m => ?_, h.nonempty, h.excludes_iff⟩
  rw [h.mem_iff m]
  by_cases hm : m.1.field.ref = p.1.field.ref
  · rw [hm, hline]
    have hfree := (h.constrains_eq_false hs p.1.field.ref).not
    rw [hc] at hfree
    cases hl : ls p.1.field.ref with
    | nil =>
      have hadmits : ¬ admits own p.1.field.ref = true := fun ha => hfree.mp (by simp) ⟨ha, hl⟩
      simp [hadmits]
    | cons a as => simp
  · rw [hother _ hm]

/-- A free partition takes the test. -/
theorem Partition.Serves.add {q : Partition} {own : Option (Pending × Nat)}
    (h : q.Serves own ls) (hs : ls.Sorted) (hline : ls' p.1.field.ref = ls p.1.field.ref ++ [p])
    (hother : ∀ c, c ≠ p.1.field.ref → ls' c = ls c) (hc : q.constrains p.1.field.ref = false) :
    (q.add p).Serves own ls' := by
  obtain ⟨hadmits, hl⟩ := (h.constrains_eq_false hs _).mp hc
  refine ⟨fun m => ?_, by simp [Partition.add], h.excludes_iff⟩
  have hadd : m ∈ (q.add p).members ↔ m ∈ q.members ∨ m = p := by simp [Partition.add]
  rw [hadd, h.mem_iff m]
  by_cases hm : m.1.field.ref = p.1.field.ref
  · rw [hm, hline, hl]
    simp [hadmits, eq_comm]
  · rw [hother _ hm]
    have hne : m ≠ p := fun he => hm (by rw [he])
    simp [hne]

/-- Placing a test from left to right adds it to the end of its line. A partition is opened when all
of them have a test on the column. -/
theorem Dealt.firstFit (h : Dealt owns ls qs) (hs : ls.Sorted)
    (hline : ls' p.1.field.ref = ls p.1.field.ref ++ [p])
    (hother : ∀ c, c ≠ p.1.field.ref → ls' c = ls c) (hp : p.1.role ≠ .negated) :
    Dealt owns ls' (firstFit p qs) ∨ Dealt (owns ++ [none]) ls' (firstFit p qs) := by
  -- along the partitions; each one passes the rest of the lines on to the next
  induction owns generalizing ls ls' qs with
  | nil =>
    obtain ⟨rfl, hnil⟩ := h
    refine Or.inr ⟨⟨fun m => ?_, by simp [Partition.single], by simp [Partition.single, hp]⟩, rfl,
      fun c => ?_⟩
    · by_cases hm : m.1.field.ref = p.1.field.ref
      · rw [hm, hline, hnil]
        simp [Partition.single, admits, eq_comm]
      · rw [hother _ hm, hnil]
        have hne : m ≠ p := fun he => hm (by rw [he])
        simp [Partition.single, hne]
    · by_cases hc : c = p.1.field.ref
      · simp [Lines.rest, admits, hc, hline, hnil]
      · simp [Lines.rest, admits, hother c hc, hnil]
  | cons own owns ih =>
    cases qs with
    | nil => exact absurd h id
    | cons q qs =>
      obtain ⟨hq, hqs⟩ := h
      by_cases hc : q.constrains p.1.field.ref = true
      · rw [DocFilter.firstFit, if_pos hc]
        have hq' := hq.of_constrains hs hline hother hc
        have hrest : (ls'.rest own) p.1.field.ref = (ls.rest own) p.1.field.ref ++ [p] := by
          have hfree := (hq.constrains_eq_false hs p.1.field.ref).not
          rw [hc] at hfree
          unfold Lines.rest
          split
          · next ha =>
            have hl : ls p.1.field.ref ≠ [] := fun hl => hfree.mp (by simp) ⟨ha, hl⟩
            rw [hline, List.tail_append_of_ne_nil hl]
          · exact hline
        have hrest' : ∀ c, c ≠ p.1.field.ref → (ls'.rest own) c = (ls.rest own) c := by
          intro c hne
          unfold Lines.rest
          rw [hother c hne]
        rcases ih hqs (hs.rest own) hrest hrest' with hd | hd
        · exact Or.inl ⟨hq', hd⟩
        · exact Or.inr ⟨hq', hd⟩
      · rw [DocFilter.firstFit, if_neg hc]
        have hc' : q.constrains p.1.field.ref = false := by simpa using hc
        obtain ⟨-, hl⟩ := (hq.constrains_eq_false hs _).mp hc'
        have hrest : ls'.rest own = ls.rest own := by
          funext c
          unfold Lines.rest
          by_cases hcol : c = p.1.field.ref
          · obtain ⟨ha, -⟩ := (hq.constrains_eq_false hs _).mp hc'
            rw [hcol, if_pos ha, if_pos ha, hline, hl]
            rfl
          · rw [hother c hcol]
        exact Or.inl ⟨hq.add hs hline hother hc', hrest ▸ hqs⟩

/-- A partition opened for a negated test goes to the end and has nothing else. -/
theorem Dealt.append_negated (h : Dealt owns ls qs) (hp : p.1.role = .negated) :
    Dealt (owns ++ [some p]) ls (qs ++ [.single p]) := by
  induction owns generalizing ls qs with
  | nil =>
    obtain ⟨rfl, hnil⟩ := h
    refine ⟨⟨fun m => ?_, by simp [Partition.single], by simp [Partition.single, hp]⟩, rfl,
      fun c => ?_⟩
    · have hown : m ∈ some p ↔ m = p := by rw [Option.mem_some, eq_comm]
      simp [Partition.single, hnil, hown]
    · unfold Lines.rest
      rw [hnil]
      simp
  | cons own owns ih =>
    cases qs with
    | nil => exact absurd h id
    | cons q qs => exact ⟨h.1, ih h.2⟩

end Placement

/-! ## Whole sequences -/

theorem Lines.ofList_append_same (ms : List (Pending × Nat)) (p : Pending × Nat) :
    Lines.ofList (ms ++ [p]) p.1.field.ref = Lines.ofList ms p.1.field.ref ++ [p] := by
  simp [Lines.ofList]

theorem Lines.ofList_append_other {c : Column} {p : Pending × Nat} (h : c ≠ p.1.field.ref)
    (ms : List (Pending × Nat)) : Lines.ofList (ms ++ [p]) c = Lines.ofList ms c := by
  simp [Lines.ofList, Ne.symm h]

/-- The partitions among which a test of a role chooses stand in the order of their roles, and all
of them come into question. -/
structure Role.Open (role : Role) (qs : List Partition) : Prop where
  hosts : ∀ q ∈ qs, q.role ∈ role.hosts
  sorted : qs.Pairwise fun a b => a.role.rank ≤ b.role.rank

theorem firstFit_roles (p : Pending × Nat) (qs : List Partition) :
    (firstFit p qs).map (·.role) = qs.map (·.role) ∨
      (firstFit p qs).map (·.role) = qs.map (·.role) ++ [p.1.role] := by
  induction qs with
  | nil => exact Or.inr rfl
  | cons q qs ih =>
    rw [firstFit]
    split
    · rcases ih with h | h
      · exact Or.inl (by simp [h])
      · exact Or.inr (by simp [h])
    · exact Or.inl (by simp [Partition.add])

theorem Role.Open.iff_map {role : Role} {qs : List Partition} : role.Open qs ↔
    (∀ r ∈ qs.map (·.role), r ∈ role.hosts) ∧
      (qs.map (·.role)).Pairwise fun a b => a.rank ≤ b.rank := by
  rw [List.forall_mem_map, List.pairwise_map]
  exact ⟨fun h => ⟨h.hosts, h.sorted⟩, fun h => ⟨h.1, h.2⟩⟩

/-- The tests of a role that chooses among partitions leave them as they should be. -/
theorem Role.Open.firstFit {qs : List Partition} {p : Pending × Nat} (h : p.1.role.Open qs)
    (hp : p.1.role ≠ .negated) : p.1.role.Open (firstFit p qs) := by
  rw [Role.Open.iff_map] at h ⊢
  rcases firstFit_roles p qs with hr | hr
  · rw [hr]; exact h
  · rw [hr]
    have hself : p.1.role ∈ p.1.role.hosts := by
      cases hrole : p.1.role <;> simp_all [Role.hosts]
    have hlast : ∀ r ∈ p.1.role.hosts, r.rank ≤ p.1.role.rank := by
      cases p.1.role <;> decide
    refine ⟨fun r hmem => ?_, List.pairwise_append.mpr ⟨h.2, List.pairwise_singleton _ _, ?_⟩⟩
    · rcases List.mem_append.mp hmem with hmem | hmem
      · exact h.1 r hmem
      · rw [List.mem_singleton.mp hmem]; exact hself
    · intro r hmem r' hmem'
      rw [List.mem_singleton.mp hmem']
      exact hlast r (h.1 r hmem)

/-- Tests of one role that choose among the partitions are dealt out behind those that were dealt
out before. -/
theorem Dealt.foldl_place {role : Role} (hrole : role ≠ .negated) {ms : List (Pending × Nat)}
    (hms : ∀ m ∈ ms, m.1.role = role) {owns : List (Option (Pending × Nat))}
    {before : List (Pending × Nat)} {qs : List Partition} (h : Dealt owns (.ofList before) qs)
    (hopen : role.Open qs) :
    (∃ n, Dealt (owns ++ List.replicate n none) (.ofList (before ++ ms)) (ms.foldl place qs)) ∧
      role.Open (ms.foldl place qs) := by
  induction ms generalizing owns before qs with
  | nil => exact ⟨⟨0, by simpa using h⟩, hopen⟩
  | cons p ms ih =>
    obtain rfl : p.1.role = role := hms p (List.mem_cons_self ..)
    have hms' : ∀ m ∈ ms, m.1.role = p.1.role := fun m hm => hms m (List.mem_cons_of_mem _ hm)
    have hopen' := hopen.firstFit hrole
    have hcons : before ++ p :: ms = (before ++ [p]) ++ ms := by simp
    rw [List.foldl_cons, place_eq_firstFit hopen.hosts hopen.sorted, hcons]
    rcases h.firstFit (Lines.sorted_ofList before) (Lines.ofList_append_same before p)
        (fun c hc => Lines.ofList_append_other hc before) hrole with hd | hd
    · exact ih hms' hd hopen'
    · obtain ⟨⟨n, hn⟩, ho⟩ := ih hms' hd hopen'
      exact ⟨⟨n + 1, by rw [List.replicate_succ]; simpa using hn⟩, ho⟩

/-- Negated tests open one partition each. -/
theorem Dealt.foldl_place_negated {ms : List (Pending × Nat)}
    (hms : ∀ m ∈ ms, m.1.role = .negated) {owns : List (Option (Pending × Nat))} {ls : Lines}
    {qs : List Partition} (h : Dealt owns ls qs) :
    Dealt (owns ++ ms.map some) ls (ms.foldl place qs) ∧
      ms.foldl place qs = qs ++ ms.map .single := by
  induction ms generalizing owns qs with
  | nil => simpa using h
  | cons p ms ih =>
    have hp := hms p (List.mem_cons_self ..)
    obtain ⟨hd, he⟩ := ih (fun m hm => hms m (List.mem_cons_of_mem _ hm)) (h.append_negated hp)
    rw [List.foldl_cons, place_negated hp]
    exact ⟨by simpa using hd, by simpa using he⟩

/-! ## What is dealt out -/

section Reading

variable {owns : List (Option (Pending × Nat))} {ls : Lines} {qs : List Partition}

theorem Dealt.length_eq (h : Dealt owns ls qs) : qs.length = owns.length := by
  induction owns generalizing ls qs with
  | nil => simp [h.1]
  | cons own owns ih =>
    cases qs with
    | nil => exact absurd h id
    | cons q qs => simp [ih h.2]

theorem Lines.getElem?_rest (ls : Lines) (own : Option (Pending × Nat)) (c : Column) (k : Nat) :
    (ls.rest own c)[k]? = (ls c)[k + if admits own c then 1 else 0]? := by
  unfold Lines.rest
  split <;> simp

/-- The partition at a position has the negated test it was opened for, and from each line that it
can take the test whose number is the number of partitions before it that can take the line. -/
theorem Dealt.mem_iff (h : Dealt owns ls qs) {i : Nat} {own : Option (Pending × Nat)}
    {q : Partition} (ho : owns[i]? = some own) (hq : qs[i]? = some q) :
    (∀ m, m ∈ q.members ↔ m ∈ own ∨ (admits own m.1.field.ref ∧
      (ls m.1.field.ref)[(owns.take i).countP (admits · m.1.field.ref)]? = some m)) ∧
    (q.role = .negated ↔ own.isSome) := by
  induction owns generalizing ls qs i with
  | nil => simp at ho
  | cons o owns ih =>
    cases qs with
    | nil => exact absurd h id
    | cons q' qs =>
      cases i with
      | zero =>
        obtain rfl : o = own := by simpa using ho
        obtain rfl : q' = q := by simpa using hq
        refine ⟨fun m => ?_, h.1.excludes_iff⟩
        rw [h.1.mem_iff m, List.head?_eq_getElem?]
        simp
      | succ i =>
        obtain ⟨hm, he⟩ := ih h.2 (by simpa using ho) (by simpa using hq)
        refine ⟨fun m => ?_, he⟩
        rw [hm m, Lines.getElem?_rest, List.take_succ_cons, List.countP_cons]

/-- No line is longer than the number of partitions that can take it. -/
theorem Dealt.length_le (h : Dealt owns ls qs) (c : Column) :
    (ls c).length ≤ owns.countP (admits · c) := by
  induction owns generalizing ls qs with
  | nil => simp [h.2 c]
  | cons own owns ih =>
    cases qs with
    | nil => exact absurd h id
    | cons q qs =>
      have hrest := ih h.2
      unfold Lines.rest at hrest
      rw [List.countP_cons]
      split at hrest
      · next ha =>
        rw [List.length_tail] at hrest
        rw [if_pos ha]
        omega
      · omega

/-- The last partition, when it was not opened for a negated test, was needed by a line. -/
theorem Dealt.exists_lt_length (h : Dealt (owns ++ [none]) ls qs) :
    ∃ m, m ∈ ls m.1.field.ref ∧
      owns.countP (admits · m.1.field.ref) < (ls m.1.field.ref).length := by
  induction owns generalizing ls qs with
  | nil =>
    cases qs with
    | nil => exact absurd h id
    | cons q qs =>
      obtain ⟨m, hm⟩ := List.exists_mem_of_ne_nil _ h.1.nonempty
      have hhead : (ls m.1.field.ref).head? = some m := by
        simpa [admits] using (h.1.mem_iff m).mp hm
      have hmem := List.mem_of_mem_head? hhead
      exact ⟨m, hmem, by simpa using List.length_pos_of_mem hmem⟩
  | cons own owns ih =>
    cases qs with
    | nil => exact absurd h id
    | cons q qs =>
      obtain ⟨m, hm, hlt⟩ := ih h.2
      unfold Lines.rest at hm hlt
      split at hlt
      · next ha =>
        rw [if_pos ha] at hm
        rw [List.length_tail] at hlt
        exact ⟨m, List.mem_of_mem_tail hm, by rw [List.countP_cons, if_pos ha]; omega⟩
      · next ha =>
        rw [if_neg ha] at hm
        exact ⟨m, hm, by rw [List.countP_cons, if_neg ha]; omega⟩

end Reading

end DocFilter
