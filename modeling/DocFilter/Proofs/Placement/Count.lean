import DocFilter.Proofs.Clause.Scope
import DocFilter.Proofs.Placement.Growth

/-!
# How many subqueries a scope needs

The tests on one relation become a number of subqueries that can be read off the tests without
placing them (`Bucket.length_predicates`). Joined by `and` they need as many as there are positive
tests on one column, one for each negated test, and as many more as qualifiers on one column find no
place in these. Joined by `or` they need one each.
-/

namespace DocFilter

namespace Pending

variable {ts : List Pending}

/-- The number of tests of a role on a column. -/
def tally (ts : List Pending) (role : Role) (c : Column) : Nat :=
  ts.countP fun p => p.role == role && p.field.ref == c

/-- The largest number of positive tests on one column. -/
def depth (ts : List Pending) : Nat :=
  (ts.map fun p => tally ts .positive p.field.ref).foldr max 0

/-- The number of negated tests. -/
def negations (ts : List Pending) : Nat := ts.countP (·.role == .negated)

/-- The largest number of qualifiers on one column for which neither a partition of positive tests
is left nor one of a negated test on another column. -/
def overflow (ts : List Pending) : Nat :=
  (ts.map fun p => tally ts .qualifier p.field.ref - depth ts -
    (negations ts - tally ts .negated p.field.ref)).foldr max 0

/-! ## Lines and slots in numbers -/

/-- On the column of a selecting test, the tests that select are those of its role. -/
theorem length_line (h : Separate ts) {p : Pending} (hp : p ∈ ts) (hr : p.role ≠ .negated) :
    (line ts p.field.ref).length = tally ts p.role p.field.ref := by
  rw [← List.countP_true, countP_line, tally]
  refine List.countP_congr fun q hq => ?_
  have hselects : selectsBy p.field.ref q = true ↔
      q.role ≠ .negated ∧ q.field.ref = p.field.ref := by
    simp [selectsBy, role_eq_negated_iff]
  rw [Bool.true_and, hselects, Bool.and_eq_true, beq_iff_eq, beq_iff_eq]
  constructor
  · rintro ⟨hq', href⟩
    refine ⟨?_, href⟩
    -- the other selecting role cannot be on the same column
    cases hpr : p.role with
    | negated => exact absurd hpr hr
    | positive =>
      cases hqr : q.role with
      | positive => rfl
      | negated => exact absurd hqr hq'
      | qualifier => exact absurd href.symm (h p hp q hq hpr hqr)
    | qualifier =>
      cases hqr : q.role with
      | positive => exact absurd href (h q hq p hp hqr hpr)
      | negated => exact absurd hqr hq'
      | qualifier => rfl
  · rintro ⟨hrole, href⟩
    exact ⟨hrole ▸ hr, href⟩

/-- A maximum over the columns of the tests of a role is one over the columns of all tests, when
columns without a test of that role count for nothing. -/
theorem foldr_max_filter {role : Role} {f g : Column → Nat}
    (hsame : ∀ p ∈ ts, p.role = role → f p.field.ref = g p.field.ref)
    (hnone : ∀ c, tally ts role c = 0 → g c = 0) :
    ((ts.filter (·.role == role)).map fun p => f p.field.ref).foldr max 0 =
      (ts.map fun p => g p.field.ref).foldr max 0 := by
  apply le_antisymm
  · apply List.max_le_of_forall_le
    intro x hx
    obtain ⟨p, hp, rfl⟩ := List.mem_map.mp hx
    obtain ⟨hpt, hpr⟩ := List.mem_filter.mp hp
    rw [hsame p hpt (beq_iff_eq.mp hpr)]
    exact List.le_max_of_le (List.mem_map_of_mem hpt) le_rfl
  · apply List.max_le_of_forall_le
    intro x hx
    obtain ⟨p, -, rfl⟩ := List.mem_map.mp hx
    rcases Nat.eq_zero_or_pos (tally ts role p.field.ref) with hzero | hpos
    · rw [hnone p.field.ref hzero]
      exact Nat.zero_le _
    · -- a test of the role on the same column
      obtain ⟨q, hqt, hq⟩ := List.countP_pos_iff.mp hpos
      rw [Bool.and_eq_true, beq_iff_eq, beq_iff_eq] at hq
      obtain ⟨hqr, href⟩ := hq
      rw [← href, ← hsame q hqt hqr]
      have hmem : q ∈ ts.filter (·.role == role) := List.mem_filter.mpr ⟨hqt, by simp [hqr]⟩
      exact List.le_max_of_le (List.mem_map_of_mem hmem) le_rfl

theorem width_eq_depth (h : Separate ts) : width ts = depth ts := by
  apply foldr_max_filter (f := fun c => (line ts c).length) (g := tally ts .positive)
  · intro p hp hr
    rw [length_line h hp (by simp [hr]), hr]
  · exact fun _ hzero => hzero

theorem countP_excluding (f : Pending → Bool) :
    (excluding ts).countP f = ts.countP fun p => p.role == .negated && f p := by
  rw [excluding, List.countP_filter, ranked, (List.mergeSort_perm ts _).countP_eq]
  refine List.countP_congr fun p _ => ?_
  rw [Bool.and_eq_true, Bool.and_eq_true, beq_iff_eq, role_eq_negated_iff, and_comm]

theorem length_excluding (ts : List Pending) : (excluding ts).length = negations ts := by
  rw [← List.countP_true, countP_excluding, negations]
  simp

/-- The first slots that can serve a column: all but those of negated tests on it. -/
theorem countP_firstSlots (h : Separate ts) (c : Column) :
    (firstSlots ts).countP (·.admits c) = depth ts + (negations ts - tally ts .negated c) := by
  have hselecting : (List.replicate (width ts) Slot.selecting).countP (·.admits c) = depth ts := by
    rw [List.countP_replicate, ← width_eq_depth h]
    rfl
  have hsplit := List.length_eq_countP_add_countP (l := excluding ts) (·.field.ref == c)
  have hown : (excluding ts).countP (·.field.ref == c) = tally ts .negated c := countP_excluding _
  have hother : ((excluding ts).map Slot.excluding).countP (·.admits c) =
      (excluding ts).countP fun p => ¬(p.field.ref == c) = true := by
    rw [List.countP_map]
    refine List.countP_congr fun p _ => ?_
    simp [Slot.admits]
  rw [length_excluding, hown] at hsplit
  rw [firstSlots, List.countP_append, hselecting, hother]
  omega

theorem surplus_eq_overflow (h : Separate ts) : surplus ts = overflow ts := by
  apply foldr_max_filter
    (f := fun c => (line ts c).length - (firstSlots ts).countP (·.admits c))
    (g := fun c => tally ts .qualifier c - depth ts - (negations ts - tally ts .negated c))
  · intro p hp hr
    rw [length_line h hp (by simp [hr]), hr, countP_firstSlots h]
    omega
  · intro c hzero
    rw [hzero]
    omega

theorem length_partitions_and (h : Separate ts) :
    (partitions .and ts).length = depth ts + negations ts + overflow ts := by
  have hlen : (partitions .and ts).length = (placed ts).length := by
    rw [partitions, List.length_mergeSort, List.length_map]
    rfl
  rw [hlen, length_placed h, slots, firstSlots]
  simp only [List.length_append, List.length_replicate, List.length_map]
  rw [width_eq_depth h, length_excluding, surplus_eq_overflow h]

theorem length_partitions_or (ts : List Pending) : (partitions .or ts).length = ts.length := by
  rw [partitions, List.length_map, List.length_zipIdx]

/-- Tests on one relation are either on its target or on its join table. -/
theorem separate_of_registered {registry : Registry} (hr : registry.Consistent)
    (hts : ∀ p ∈ ts, p.field.Registered registry)
    (hname : ∀ p ∈ ts, ∀ q ∈ ts, p.field.name = q.field.name) : Separate ts := by
  intro a ha b hb hpositive hqualifier href
  have hatarget : a.field.onJoinTable = false := by
    unfold RelatedTest.role at hpositive
    split at hpositive
    · cases hpositive
    · split at hpositive <;> simp_all
  have hbjoin : b.field.onJoinTable = true := by
    unfold RelatedTest.role at hqualifier
    split at hqualifier
    · cases hqualifier
    · split at hqualifier <;> simp_all
  exact (hts b hb).ref_ne (hts a ha) hr (hname b hb a ha) hbjoin hatarget href.symm

end Pending

/-! ## Buckets -/

namespace Bucket

theorem length_predicates_eq (c : Connective) (base : Column) (b : Bucket) :
    (b.predicates c base).length = (partitions c b.tests).length := by
  unfold predicates
  split
  · next hnil =>
    rw [hnil, partitions_eq_nil.mpr rfl]
    rfl
  · rw [List.length_map]

/-- The subqueries that the tests on one relation become, in numbers. -/
theorem length_predicates {registry : Registry} (hregistry : registry.Built) {ts : List Pending}
    (hts : ∀ p ∈ ts, p.field.Registered registry) {b : Bucket} (hb : b ∈ buckets ts)
    (base : Column) :
    (b.predicates .and base).length =
      Pending.depth b.tests + Pending.negations b.tests + Pending.overflow b.tests ∧
    (b.predicates .or base).length = b.tests.length ∧
    ∀ c, ∀ x ∈ b.predicates c base, ∃ r m filters, registry.get? b.name = some r ∧
      ∃ p ∈ b.tests, x = .membership p.connective base m (subqueryOf r m filters) := by
  obtain ⟨p, -, rfl⟩ := mem_buckets.mp hb
  have htests : ∀ q ∈ ts.filter (·.field.name == p.field.name),
      q.field.Registered registry ∧ q.field.name = p.field.name := by
    intro q hq
    obtain ⟨hq, hname⟩ := List.mem_filter.mp hq
    exact ⟨hts q hq, beq_iff_eq.mp hname⟩
  refine ⟨?_, ?_, fun c x hx => ?_⟩
  · rw [length_predicates_eq]
    exact Pending.length_partitions_and (Pending.separate_of_registered hregistry.consistent
      (fun q hq => (htests q hq).1) fun q hq q' hq' => (htests q hq).2.trans (htests q' hq').2.symm)
  · rw [length_predicates_eq, Pending.length_partitions_or]
  · unfold predicates at hx
    split at hx
    · cases hx
    · next q rest hcons =>
      obtain ⟨part, hpart, rfl⟩ := List.mem_map.mp hx
      obtain ⟨m, hm, hconnective⟩ := connective_eq_head hpart
      have hmem : m.1 ∈ ts.filter (·.field.name == p.field.name) :=
        mem_of_mem_partitions hpart (List.mem_of_head? hm)
      have hq : q ∈ ts.filter (·.field.name == p.field.name) := by
        change ts.filter (·.field.name == p.field.name) = q :: rest at hcons
        rw [hcons]
        exact List.mem_cons_self
      obtain ⟨hregistered, hname⟩ := htests q hq
      refine ⟨q.field.relation, part.membership, part.members.map (·.1.filter), ?_, m.1, hmem,
        by rw [Partition.predicate, hconnective]⟩
      change registry.get? p.field.name = some q.field.relation
      rw [← hname]
      exact hregistered.found

end Bucket

/-! ### Posts by many tags -/

namespace Blog

/-- A test on the name of a tag. -/
def named (op : Comparator) (name : String) : Pending :=
  ⟨⟨⟨"tags", tags, "name", false⟩, op, .str name⟩, .and⟩

/-- A test on where a tag stands among those of a post. -/
def ordered (op : Comparator) (place : String) : Pending :=
  ⟨⟨⟨"tags", tags, "sort_order", true⟩, op, .str place⟩, .and⟩

/-- Two names and four places, but not a fifth. The qualifiers find a place with either name, and
none with the negated test, which is on their column. -/
def crowd : List Pending :=
  [ordered .eq "a", named .eq "x", ordered .ne "e", ordered .eq "b", named .eq "y",
    ordered .eq "c", ordered .eq "d"]

theorem registered_crowd : ∀ p ∈ crowd, p.field.Registered registry := by
  intro p hp
  have hfield : p.field.name = "tags" ∧ p.field.relation = tags := by
    revert p
    decide
  refine ⟨by rw [hfield.1, hfield.2]; rfl, fun _ => ⟨"posts_tags", by rw [hfield.1]; rfl⟩⟩

end Blog

theorem Bucket.length_predicates_crowd :
    Blog.registry.Built ∧ (∀ p ∈ Blog.crowd, p.field.Registered Blog.registry) ∧
    ⟨"tags", Blog.crowd⟩ ∈ buckets Blog.crowd ∧
    ((⟨"tags", Blog.crowd⟩ : Bucket).predicates .and ⟨"posts", "id"⟩).length = 2 + 1 + 2 ∧
    ((⟨"tags", Blog.crowd⟩ : Bucket).predicates .or ⟨"posts", "id"⟩).length = 7 := by
  have hb : ⟨"tags", Blog.crowd⟩ ∈ buckets Blog.crowd :=
    mem_buckets.mpr ⟨Blog.named .eq "x", by decide, rfl⟩
  obtain ⟨hand, hor, -⟩ := Bucket.length_predicates Blog.built_registry Blog.registered_crowd hb
    ⟨"posts", "id"⟩
  have hdepth : Pending.depth Blog.crowd = 2 := by decide +kernel
  have hnegations : Pending.negations Blog.crowd = 1 := by decide +kernel
  have hoverflow : Pending.overflow Blog.crowd = 2 := by decide +kernel
  exact ⟨Blog.built_registry, Blog.registered_crowd, hb,
    by rw [hand, hdepth, hnegations, hoverflow], hor⟩

end DocFilter
