import DocFilter.Proofs.Placement.Count
import DocFilter.Proofs.Placement.Cover
import DocFilter.Proofs.Reordering.Predicates
import Mathlib.Data.Multiset.MapFold

/-!
# What subqueries demand, in any order

The tests of a scope on one relation are placed by their sort keys, so that it should not matter in
which order they stand: the subqueries should demand the same (`Bucket.demands`). It does not matter
as long as no two different tests tie, and then the demands are the same to the last bit. Tests tie
when they have the same role and the same sort key. As a sort key has the texts of the column and of
the operand, that takes a float, which may be shown like an integer, or a table with a point in its
name. Ties are kept in the order of the document, and the first of the two tests gets the place
beside tests on other columns (`Bucket.demands_of_ties`).

Even then the demands look the same if no table has a point in its name: they are the same once
operands are replaced by their texts.
-/

namespace DocFilter

/-! ## Demands -/

/-- What a membership test asks for: that some row meets the conditions, or that none does. -/
structure Demand where
  /-- Whether there has to be such a row, or must not be one. -/
  membership : Membership
  /-- The conditions, in no order. -/
  conditions : Multiset SubqueryFilter
  deriving DecidableEq

/-- A demand with every condition replaced. -/
def Demand.map (g : SubqueryFilter → SubqueryFilter) (d : Demand) : Demand :=
  ⟨d.membership, d.conditions.map g⟩

/-- The demand of a membership test. -/
def Predicate.demand? : Predicate → Option Demand
  | .membership _ _ m q => some ⟨m, q.filters⟩
  | .comparison .. | .nullTest .. | .group .. => none

/-- The demands that the tests of a bucket become when they are joined by `and`, in no order. -/
def Bucket.demands (base : Column) (b : Bucket) : Multiset Demand :=
  ((b.predicates .and base).filterMap Predicate.demand? : List Demand)

/-! ## Operands -/

theorem Operand.isDiscrete_or_isFloat_of_read {op : Comparator} {j : Json} {o : Operand}
    (h : Operand.read op j = .ok o) :
    ∀ v ∈ o.value.toList, v.isDiscrete = true ∨ v.isFloat = true := by
  have hitems : ∀ {v : Value}, Value.ofJson j = .ok v →
      ∀ i ∈ v.toList, i.isDiscrete = true ∨ i.isFloat = true := by
    intro v hv i hi
    obtain ⟨_, hitem⟩ := (Value.ofJson_eq_ok_iff.mp hv).scalar_of_mem i hi
    exact hitem.isDiscrete_or_isFloat
  unfold Operand.read at h
  split at h
  · cases h
  · split at h
    · cases h
    · next hread _ =>
      cases h
      exact hitems hread
  · next v _ hread =>
    split at h
    · cases h
      exact fun i hi => hitems hread i (List.mem_of_mem_filter hi)
    · split at h
      · cases h
      · cases h
        exact hitems hread

/-! ## Tests of a document -/

theorem RelatedField.Registered.eq_of_ref {registry : Registry} {f g : RelatedField}
    (hf : f.Registered registry) (hg : g.Registered registry) (hr : registry.Consistent)
    (hname : f.name = g.name) (href : f.ref = g.ref) : f = g := by
  have hside : f.onJoinTable = g.onJoinTable := by
    cases hfj : f.onJoinTable <;> cases hgj : g.onJoinTable
    · rfl
    · exact absurd href.symm (hg.ref_ne hf hr hname.symm hgj hfj)
    · exact absurd href (hf.ref_ne hg hr hname hfj hgj)
    · rfl
  have hrelation := hf.relation_eq hg hname
  have hcolumn : f.column = g.column := congrArg Column.name href
  obtain ⟨_, _, _, _⟩ := f
  obtain ⟨_, _, _, _⟩ := g
  cases hname
  cases hside
  cases hrelation
  cases hcolumn
  rfl

namespace RelatedTest

/-- A test that an entry of a document with these relations can stand for. -/
def Pushed (registry : Registry) (table : String) (p : RelatedTest) : Prop :=
  ∃ name path j, Field.resolve registry table name = .ok (.related p.field) ∧
    Clause.test (.related p.field) p.op path j = .related p

/-- Different tests that are placed in the order of the document. -/
structure Ties (p q : RelatedTest) : Prop where
  distinct : p ≠ q
  role : p.role = q.role
  sortKey : p.sortKey = q.sortKey
  cause : (∃ v ∈ p.value.toList ++ q.value.toList, v.isFloat = true) ∨
    '.' ∈ p.field.table.toList ∨ '.' ∈ q.field.table.toList

variable {registry : Registry} {table : String} {p q : RelatedTest}

theorem Pushed.sound (h : p.Pushed registry table) : p.Sound registry := by
  obtain ⟨name, path, j, hresolve, htest⟩ := h
  have hsound := @Clause.sound_test ⟨table, registry, '$'⟩ _ _ hresolve p.op path j
  rw [htest] at hsound
  cases hsound with
  | related hp => exact hp

theorem Pushed.isDiscrete_or_isFloat (h : p.Pushed registry table) :
    ∀ v ∈ p.value.toList, v.isDiscrete = true ∨ v.isFloat = true := by
  obtain ⟨name, path, j, -, htest⟩ := h
  unfold Clause.test at htest
  split at htest
  · cases htest
  · next operand hread =>
    split at htest
    · cases htest
    · split at htest
      · cases htest
      · have hvalue : operand.value = p.value := congrArg value (Clause.related.inj htest)
        rw [← hvalue]
        exact Operand.isDiscrete_or_isFloat_of_read hread

/-- Tests on one relation with the same role and the same sort key are the same, or they tie. -/
theorem Pushed.ties_of_ne (hp : p.Pushed registry table) (hq : q.Pushed registry table)
    (hr : registry.Consistent) (hname : p.field.name = q.field.name) (hrole : p.role = q.role)
    (hkey : p.sortKey = q.sortKey) (hne : p ≠ q) : p.Ties q := by
  refine ⟨hne, hrole, hkey, ?_⟩
  by_contra hcause
  push Not at hcause
  obtain ⟨hfloats, hptable, hqtable⟩ := hcause
  have hpitems : ∀ v ∈ p.value.toList, v.isDiscrete = true := fun v hv =>
    (hp.isDiscrete_or_isFloat v hv).resolve_right (hfloats v (List.mem_append_left _ hv))
  have hqitems : ∀ v ∈ q.value.toList, v.isDiscrete = true := fun v hv =>
    (hq.isDiscrete_or_isFloat v hv).resolve_right (hfloats v (List.mem_append_right _ hv))
  simp only [sortKey, List.cons.injEq, and_true] at hkey
  obtain ⟨htext, htoken, hdisplay⟩ := hkey
  have href : p.field.ref = q.field.ref := Column.text_injective hptable hqtable htext
  have hfield : p.field = q.field :=
    hp.sound.registered.eq_of_ref hq.sound.registered hr hname href
  have hop : p.op = q.op := Comparator.token_injective htoken
  have hvalue : p.value = q.value := Value.display_injective hpitems hqitems hdisplay
  apply hne
  obtain ⟨_, _, _⟩ := p
  obtain ⟨_, _, _⟩ := q
  cases hfield
  cases hop
  cases hvalue
  rfl

end RelatedTest

/-! ## Placement -/

namespace Pending

variable {ts ts' : List Pending}

theorem mem_of_mem_placed {part : Partition} (h : part ∈ placed ts) {m : Pending × Nat}
    (hm : m ∈ part.members) : m.1 ∈ ts :=
  mem_of_mem_partitions (mem_partitions_and.mpr ⟨part, h, rfl⟩) (Partition.mem_sorted.mpr hm)

/-- Partitions have the same conditions in any order of the tests, up to what their views do not
show. -/
theorem map_conditions_placed (h : ts.Perm ts') (hfaithful : Faithful ts)
    {g : SubqueryFilter → SubqueryFilter}
    (hg : ∀ p ∈ ts, ∀ q ∈ ts, p.view = q.view → g p.filter = g q.filter) :
    (placed ts).map (fun q => (q.membership, q.members.map fun m => g m.1.filter)) =
      (placed ts').map fun q => (q.membership, q.members.map fun m => g m.1.filter) := by
  refine map_eq_map_of_map_eq (fun a ha b hb hview => ?_) (map_view_placed h hfaithful)
  obtain ⟨hrole, hviews⟩ := Prod.mk.inj hview
  have hmembership : a.membership = b.membership := by
    unfold Partition.membership
    rw [hrole]
  have hconditions : a.members.map (fun m => g m.1.filter) =
      b.members.map fun m => g m.1.filter :=
    map_eq_map_of_map_eq (fun m hm n hn => hg m.1 (mem_of_mem_placed ha hm) n.1
      (h.mem_iff.mpr (mem_of_mem_placed hb hn))) hviews
  rw [hmembership, hconditions]

end Pending

theorem filters_subqueryOf (r : Relation) (m : Membership) (fs : List SubqueryFilter) :
    (subqueryOf r m fs).filters = fs ++ (subqueryOf r m []).filters := by
  unfold subqueryOf
  split
  · exact (List.append_nil fs).symm
  · split
    · rfl
    · exact (List.append_nil fs).symm

namespace Bucket

open Pending (placed)

/-- The demands of a bucket, read off where its tests are placed. -/
theorem demands_eq (base : Column) (name : String) {ts : List Pending} {r : Relation}
    (hr : ∀ p ∈ ts, p.field.relation = r) : demands base ⟨name, ts⟩ =
      ((placed ts).map fun q => ⟨q.membership,
        (q.members.map (·.1.filter) ++ (subqueryOf r q.membership []).filters : List _)⟩ :
          List Demand) := by
  have hpartitions : demands base ⟨name, ts⟩ = ((partitions .and ts).map fun q =>
      ⟨q.membership, (subqueryOf r q.membership (q.members.map (·.1.filter))).filters⟩ :
        List Demand) := by
    unfold demands predicates
    cases ts with
    | nil => rw [partitions_eq_nil.mpr rfl]; rfl
    | cons p rest =>
      rw [← hr p List.mem_cons_self, List.filterMap_map, ← List.filterMap_eq_map]
      rfl
  have hplaced : ((partitions .and ts).map fun q => (⟨q.membership,
      (subqueryOf r q.membership (q.members.map (·.1.filter))).filters⟩ : Demand)).Perm
      (((placed ts).map Partition.sorted).map fun q => ⟨q.membership,
        (subqueryOf r q.membership (q.members.map (·.1.filter))).filters⟩) :=
    (List.mergeSort_perm _ _).map _
  rw [hpartitions, Multiset.coe_eq_coe.mpr hplaced, List.map_map]
  congr 1
  refine List.map_congr_left fun q _ => ?_
  have hmembers : (q.sorted.members.map (·.1.filter)).Perm (q.members.map (·.1.filter)) :=
    q.sorted_members_perm.map _
  have hconditions := Multiset.coe_eq_coe.mpr (hmembers.append_right
    (subqueryOf r q.membership []).filters)
  rw [← hconditions, ← filters_subqueryOf]
  rfl

/-- The same tests in another order have the same demands, up to what their views do not show. -/
theorem map_demands_perm (base : Column) (name : String) {ts ts' : List Pending} {r : Relation}
    (hr : ∀ p ∈ ts, p.field.relation = r) (h : ts.Perm ts') (hfaithful : Pending.Faithful ts)
    {g : SubqueryFilter → SubqueryFilter}
    (hg : ∀ p ∈ ts, ∀ q ∈ ts, p.view = q.view → g p.filter = g q.filter) :
    (demands base ⟨name, ts⟩).map (Demand.map g) =
      (demands base ⟨name, ts'⟩).map (Demand.map g) := by
  have hconditions := Pending.map_conditions_placed h hfaithful hg
  have hdemands : ∀ us : List Pending, (∀ p ∈ us, p.field.relation = r) →
      (demands base ⟨name, us⟩).map (Demand.map g) = (((placed us).map fun q =>
        (q.membership, q.members.map fun m => g m.1.filter)).map fun d => (⟨d.1,
          (d.2 ++ (subqueryOf r d.1 []).filters.map g : List SubqueryFilter)⟩ : Demand) :
            List Demand) := by
    intro us hus
    rw [demands_eq base name hus, Multiset.map_coe, List.map_map, List.map_map]
    congr 1
    refine List.map_congr_left fun q _ => ?_
    simp [Demand.map, Function.comp_def]
  rw [hdemands ts hr, hdemands ts' fun p hp => hr p (h.mem_iff.mpr hp), hconditions]

/-- The tests on a relation have the same demands in any order, unless two of them tie; and demands
that look the same in any case, unless a table has a point in its name. -/
theorem demands_perm {registry : Registry} (hregistry : registry.Built) {table name : String}
    {ts ts' : List Pending} (hts : ∀ p ∈ ts, p.Pushed registry table)
    (hname : ∀ p ∈ ts, p.field.name = name) (h : ts.Perm ts') (base : Column) :
    ((∀ p ∈ ts, ∀ q ∈ ts, ¬p.Ties q.toRelatedTest) →
      demands base ⟨name, ts⟩ = demands base ⟨name, ts'⟩) ∧
    ((∀ p ∈ ts, '.' ∉ p.field.table.toList) →
      (demands base ⟨name, ts⟩).map (Demand.map SubqueryFilter.shown) =
        (demands base ⟨name, ts'⟩).map (Demand.map SubqueryFilter.shown)) := by
  by_cases hnil : ts = []
  · subst hnil
    rw [h.nil_eq]
    exact ⟨fun _ => rfl, fun _ => rfl⟩
  obtain ⟨p₀, hp₀⟩ := List.exists_mem_of_ne_nil ts hnil
  have hr : ∀ p ∈ ts, p.field.relation = p₀.field.relation := fun p hp =>
    (hts p hp).sound.relation_eq (hts p₀ hp₀).sound ((hname p hp).trans (hname p₀ hp₀).symm)
  constructor
  · intro hties
    have hkey : ∀ p ∈ ts, ∀ q ∈ ts, p.role = q.role → p.sortKey = q.sortKey →
        p.toRelatedTest = q.toRelatedTest := by
      intro p hp q hq hrole hkey
      by_contra hne
      exact hties p hp q hq ((hts p hp).ties_of_ne (hts q hq) hregistry.consistent
        ((hname p hp).trans (hname q hq).symm) hrole hkey hne)
    have hfaithful : Pending.Faithful ts := by
      intro p hp q hq hrole hsort
      rw [Pending.view, Pending.view, hkey p hp q hq hrole hsort]
    have hview : ∀ p ∈ ts, ∀ q ∈ ts, p.view = q.view → id p.filter = id q.filter := by
      intro p hp q hq hview
      rw [hkey p hp q hq (congrArg View.role hview) (congrArg View.sortKey hview)]
    have hid : Demand.map id = id := by
      funext d
      simp [Demand.map]
    simpa only [hid, Multiset.map_id] using map_demands_perm base name hr h hfaithful hview
  · intro hplain
    exact map_demands_perm base name hr h (Pending.faithful_of_plain hplain)
      fun p _ q _ => Pending.shown_filter

end Bucket

/-! ### Posts by the levels and names of their tags -/

namespace Blog

/-- The float one, which is shown like the integer. -/
def one : Binary64 := ⟨0x3FF0000000000000⟩

/-- The float one and a half. -/
def oneAndHalf : Binary64 := ⟨0x3FF8000000000000⟩

/-- A test on the level of a tag. -/
def ofLevel (v : Value) : Pending := ⟨⟨⟨"tags", tags, "level", false⟩, .eq, v⟩, .and⟩

theorem pushed_ofLevel {v : Value} {j : Json} (h : Operand.read .eq j = .ok ⟨v, false⟩) :
    (ofLevel v).Pushed registry "posts" := by
  have hresolve : Field.resolve registry "posts" "tags.level" =
      .ok (.related ⟨"tags", tags, "level", false⟩) := by decide
  refine ⟨"tags.level", "tags.level", j, hresolve, ?_⟩
  show Clause.test _ .eq _ j = _
  rw [Clause.test, h]
  rfl

theorem pushed_int : (ofLevel (.int 1)).Pushed registry "posts" :=
  pushed_ofLevel (show Operand.read .eq (.num (.nat 1)) = .ok ⟨.int 1, false⟩ by decide)

theorem pushed_float {x : Binary64} (hx : x.isFinite = true) :
    (ofLevel (.float x)).Pushed registry "posts" :=
  pushed_ofLevel (show Operand.read .eq (.num (.real x hx)) = .ok ⟨.float x, false⟩ from rfl)

theorem pushed_named {op : Comparator} (h : op = .eq ∨ op = .ne) (name : String) :
    (named op name).Pushed registry "posts" := by
  have hresolve : Field.resolve registry "posts" "tags.name" =
      .ok (.related ⟨"tags", tags, "name", false⟩) := by decide
  refine ⟨"tags.name", "tags.name", .str name, hresolve, ?_⟩
  rcases h with rfl | rfl <;> rfl

/-- Two levels that are not shown alike, a name, and not another one. -/
def untied : List Pending :=
  [ofLevel (.int 1), named .eq "x", ofLevel (.float oneAndHalf), named .ne "y"]

theorem pushed_untied : ∀ p ∈ untied, p.Pushed registry "posts" := by
  simp only [untied, List.forall_mem_cons]
  exact ⟨pushed_int, pushed_named (.inl rfl) "x", pushed_float (by decide),
    pushed_named (.inr rfl) "y", List.forall_mem_nil _⟩

/-- Two levels that are shown alike, and a name. -/
def tied : List Pending := [ofLevel (.int 1), ofLevel (.float one), named .eq "x"]

/-- The same tests with the float first. -/
def swapped : List Pending := [ofLevel (.float one), ofLevel (.int 1), named .eq "x"]

theorem pushed_tied : ∀ p ∈ tied, p.Pushed registry "posts" := by
  simp only [tied, List.forall_mem_cons]
  exact ⟨pushed_int, pushed_float (by decide), pushed_named (.inl rfl) "x", List.forall_mem_nil _⟩

/-- Tests that are in the order of their sort keys are placed one after the other. -/
theorem demands_of_pairwise {ts : List Pending} (htags : ∀ p ∈ ts, p.field.relation = tags)
    (h : ts.Pairwise fun p q => p.precedes q = true) :
    Bucket.demands ⟨"posts", "id"⟩ ⟨"tags", ts⟩ =
      ((([Role.positive, .negated, .qualifier].flatMap fun role =>
        ts.zipIdx.filter (·.1.role == role)).foldl place []).map fun q => ⟨q.membership,
          (q.members.map (·.1.filter) : List _)⟩ : List Demand) := by
  have hranked : ts.zipIdx.mergeSort (fun a b => a.1.precedes b.1) = ts.zipIdx := by
    have hpairs : (ts.zipIdx.map Prod.fst).Pairwise fun p q => p.precedes q = true := by
      rwa [List.zipIdx_map_fst]
    exact List.mergeSort_of_pairwise (List.pairwise_map.mp hpairs)
  rw [Bucket.demands_eq _ _ htags, Pending.placed, placingOrder, hranked]
  simp [subqueryOf, tags]

end Blog

theorem Bucket.demands_perm_untied :
    Blog.registry.Built ∧ (∀ p ∈ Blog.untied, p.Pushed Blog.registry "posts") ∧
    (∀ p ∈ Blog.untied, p.field.name = "tags") ∧
    Blog.untied.Perm Blog.untied.reverse ∧
    (∀ p ∈ Blog.untied, ∀ q ∈ Blog.untied, ¬p.Ties q.toRelatedTest) ∧
    (∀ p ∈ Blog.untied, '.' ∉ p.field.table.toList) ∧
    demands ⟨"posts", "id"⟩ ⟨"tags", Blog.untied⟩ =
      demands ⟨"posts", "id"⟩ ⟨"tags", Blog.untied.reverse⟩ ∧
    (demands ⟨"posts", "id"⟩ ⟨"tags", Blog.untied⟩).map (Demand.map SubqueryFilter.shown) =
      (demands ⟨"posts", "id"⟩ ⟨"tags", Blog.untied.reverse⟩).map
        (Demand.map SubqueryFilter.shown) := by
  have hname : ∀ p ∈ Blog.untied, p.field.name = "tags" := by decide
  have hties : ∀ p ∈ Blog.untied, ∀ q ∈ Blog.untied, ¬p.Ties q.toRelatedTest := by
    have hkeys : ∀ p ∈ Blog.untied, ∀ q ∈ Blog.untied, p.sortKey = q.sortKey →
        p.toRelatedTest = q.toRelatedTest := by
      decide +kernel
    exact fun p hp q hq h => h.distinct (hkeys p hp q hq h.sortKey)
  have hplain : ∀ p ∈ Blog.untied, '.' ∉ p.field.table.toList := by decide
  have hperm := Blog.untied.reverse_perm.symm
  obtain ⟨hexact, hshown⟩ := demands_perm Blog.built_registry Blog.pushed_untied hname hperm
    ⟨"posts", "id"⟩
  exact ⟨Blog.built_registry, Blog.pushed_untied, hname, hperm, hties, hplain, hexact hties,
    hshown hplain⟩

/-- The order of two tests that tie decides which of them has to hold of the tag named `x`. -/
theorem Bucket.demands_of_ties :
    Blog.registry.Built ∧ (∀ p ∈ Blog.tied, p.Pushed Blog.registry "posts") ∧
    (∀ p ∈ Blog.tied, p.field.name = "tags") ∧ Blog.tied.Perm Blog.swapped ∧
    demands ⟨"posts", "id"⟩ ⟨"tags", Blog.tied⟩ ≠
      demands ⟨"posts", "id"⟩ ⟨"tags", Blog.swapped⟩ := by
  refine ⟨Blog.built_registry, Blog.pushed_tied, by decide, .swap _ _ _, ?_⟩
  rw [Blog.demands_of_pairwise (by decide) (by decide +kernel),
    Blog.demands_of_pairwise (by decide) (by decide +kernel)]
  decide +kernel

end DocFilter
