import DocFilter.Proofs.Field.Resolution
import Mathlib.Data.List.Nodup

/-!
# Adding several relations

Relations can be added one after the other just if each of them could be added alone and no two of
them share a name or a join table (`Registry.AdmitsAll`), which no order changes. The registry keeps
what it knew before, as long as no new relation takes the name of a join table
(`Registry.Keeps.registerAll`).
-/

namespace DocFilter

namespace Registry

/-- The registry with several more relations, added one after the other. -/
def registerAll (r : Registry) (added : List (String × Relation)) :
    Except RegistryError Registry :=
  added.foldlM (fun r e => r.register e.1 e.2) r

theorem registerAll_cons_eq_ok {r r' : Registry} {e : String × Relation}
    {added : List (String × Relation)} : r.registerAll (e :: added) = .ok r' ↔
      ∃ r₁, r.register e.1 e.2 = .ok r₁ ∧ r₁.registerAll added = .ok r' := by
  unfold registerAll
  rw [List.foldlM_cons]
  cases r.register e.1 e.2 with
  | error err => simp [bind, Except.bind]
  | ok r₁ => simp [bind, Except.bind]

/-! ## Which relations can be added -/

/-- Each of the relations is admitted, and no two of them share a name or a join table. -/
structure AdmitsAll (r : Registry) (added : List (String × Relation)) : Prop where
  each : ∀ e ∈ added, r.Admits e.1 e.2
  names : (added.map Prod.fst).Nodup
  joinTables : (added.filterMap (·.2.joinTable?)).Nodup

theorem get?_extended (r : Registry) (name : String) (relation : Relation) (n : String) :
    (r.extended name relation).get? n = if n = name then some relation else r.get? n :=
  NameMap.find?_insert r.relations name relation n

theorem find?_joinTables_extended (r : Registry) (name : String) (relation : Relation)
    (table : String) : (r.extended name relation).joinTables.find? table =
      if relation.joinTable? = some table then some name else r.joinTables.find? table := by
  unfold extended
  cases ht : relation.joinTable? with
  | none => simp
  | some t => simp [NameMap.find?_insert, eq_comm]

theorem admits_extended_iff {r : Registry} {name n : String} {relation other : Relation} :
    (r.extended name relation).Admits n other ↔
      r.Admits n other ∧ n ≠ name ∧
        ∀ table, other.joinTable? = some table → relation.joinTable? ≠ some table := by
  constructor
  · rintro ⟨hflaw, hfresh, hfree⟩
    rw [get?_extended] at hfresh
    have hn : n ≠ name := by
      rintro rfl
      simp at hfresh
    rw [if_neg hn] at hfresh
    have htable : ∀ table, other.joinTable? = some table →
        relation.joinTable? ≠ some table ∧ r.joinTables.find? table = none := by
      intro table ht
      have hf := hfree table ht
      rw [find?_joinTables_extended] at hf
      split at hf
      · cases hf
      · next hne => exact ⟨hne, hf⟩
    exact ⟨⟨hflaw, hfresh, fun table ht => (htable table ht).2⟩, hn,
      fun table ht => (htable table ht).1⟩
  · rintro ⟨⟨hflaw, hfresh, hfree⟩, hn, htable⟩
    refine ⟨hflaw, ?_, fun table ht => ?_⟩
    · rw [get?_extended, if_neg hn]
      exact hfresh
    · rw [find?_joinTables_extended, if_neg (htable table ht)]
      exact hfree table ht

theorem admitsAll_cons_iff {r : Registry} {e : String × Relation}
    {added : List (String × Relation)} : r.AdmitsAll (e :: added) ↔
      r.Admits e.1 e.2 ∧ (r.extended e.1 e.2).AdmitsAll added := by
  constructor
  · rintro ⟨heach, hnames, htables⟩
    rw [List.map_cons, List.nodup_cons] at hnames
    have hrest : (added.filterMap (·.2.joinTable?)).Nodup :=
      htables.sublist (by
        rw [List.filterMap_cons]
        split
        · exact List.Sublist.refl _
        · exact List.sublist_cons_self _ _)
    refine ⟨heach e List.mem_cons_self, fun e' he' => admits_extended_iff.mpr ⟨?_, ?_, ?_⟩,
      hnames.2, hrest⟩
    · exact heach e' (List.mem_cons_of_mem _ he')
    · intro hname
      exact hnames.1 (List.mem_map.mpr ⟨e', he', hname⟩)
    · intro table ht ht'
      rw [List.filterMap_cons, ht', List.nodup_cons] at htables
      exact htables.1 (List.mem_filterMap.mpr ⟨e', he', ht⟩)
  · rintro ⟨hadmits, heach, hnames, htables⟩
    have hrest := fun e' he' => admits_extended_iff.mp (heach e' he')
    refine ⟨List.forall_mem_cons.mpr ⟨hadmits, fun e' he' => (hrest e' he').1⟩, ?_, ?_⟩
    · rw [List.map_cons, List.nodup_cons]
      refine ⟨fun hmem => ?_, hnames⟩
      obtain ⟨e', he', hname⟩ := List.mem_map.mp hmem
      exact (hrest e' he').2.1 hname
    · rw [List.filterMap_cons]
      split
      · exact htables
      · next table ht =>
        refine List.nodup_cons.mpr ⟨fun hmem => ?_, htables⟩
        obtain ⟨e', he', ht'⟩ := List.mem_filterMap.mp hmem
        exact (hrest e' he').2.2 table ht' ht

theorem registerAll_succeeds_iff {r : Registry} {added : List (String × Relation)} :
    (∃ r', r.registerAll added = .ok r') ↔ r.AdmitsAll added := by
  induction added generalizing r with
  | nil =>
    refine iff_of_true ⟨r, rfl⟩ ⟨List.forall_mem_nil _, ?_, ?_⟩
    · exact List.nodup_nil
    · exact List.nodup_nil
  | cons e added ih =>
    rw [admitsAll_cons_iff, ← ih]
    simp only [registerAll_cons_eq_ok, register_eq_ok_iff]
    constructor
    · rintro ⟨r', _, ⟨hadmits, rfl⟩, hrest⟩
      exact ⟨hadmits, r', hrest⟩
    · rintro ⟨hadmits, r', hrest⟩
      exact ⟨r', _, ⟨hadmits, rfl⟩, hrest⟩

/-- Relations that can be added in one order can be added in any. -/
theorem AdmitsAll.perm {r : Registry} {added order : List (String × Relation)}
    (h : r.AdmitsAll added) (hperm : order.Perm added) : r.AdmitsAll order where
  each e he := h.each e (hperm.mem_iff.mp he)
  names := (hperm.map Prod.fst).nodup_iff.mpr h.names
  joinTables := (hperm.filterMap _).nodup_iff.mpr h.joinTables

/-! ## What stays known -/

theorem Keeps.refl (r : Registry) : r.Keeps r :=
  ⟨fun _ _ h => h, fun _ _ h h' => ⟨h, h'⟩⟩

/-- A further relation hides nothing that was known from the start, unless its name is a join table
that was known then. -/
theorem Keeps.register {start r r' : Registry} (h : start.Keeps r) {name : String}
    {relation : Relation} (hr : r.register name relation = .ok r')
    (hname : start.byJoinTable? name = none) : start.Keeps r' := by
  obtain ⟨⟨-, hfresh, hfree⟩, rfl⟩ := register_eq_ok_iff.mp hr
  have hget : ∀ n other, r.get? n = some other →
      (r.extended name relation).get? n = some other := by
    intro n other hn
    have hne : n ≠ name := by
      rintro rfl
      rw [hfresh] at hn
      cases hn
    rw [get?_extended, if_neg hne]
    exact hn
  refine ⟨fun n other hn => hget n other (h.relation n other hn), fun table owner hnone hjoin => ?_⟩
  obtain ⟨hnone', hjoin'⟩ := h.joinTable table owner hnone hjoin
  have hne : table ≠ name := by
    rintro rfl
    rw [hname] at hjoin
    cases hjoin
  refine ⟨by rw [get?_extended, if_neg hne]; exact hnone', ?_⟩
  -- the owner of the join table is found as before, because the new one is another table
  obtain ⟨n, other⟩ := owner
  simp only [byJoinTable?, Option.bind_eq_bind, Option.bind_eq_some_iff, Option.pure_def,
    Option.some.injEq, Prod.mk.injEq] at hjoin' ⊢
  obtain ⟨_, hindex, _, hother, rfl, rfl⟩ := hjoin'
  refine ⟨_, ?_, _, hget _ _ hother, rfl, rfl⟩
  rw [find?_joinTables_extended, if_neg]
  · exact hindex
  · intro htable
    rw [hfree table htable] at hindex
    cases hindex

theorem Keeps.registerAll {start r r' : Registry} (h : start.Keeps r)
    {added : List (String × Relation)} (hr : r.registerAll added = .ok r')
    (hnames : ∀ e ∈ added, start.byJoinTable? e.1 = none) : start.Keeps r' := by
  induction added generalizing r with
  | nil =>
    obtain rfl : r = r' := Except.ok.inj hr
    exact h
  | cons e added ih =>
    obtain ⟨hname, hrest⟩ := List.forall_mem_cons.mp hnames
    obtain ⟨r₁, hr₁, hr'⟩ := registerAll_cons_eq_ok.mp hr
    exact ih (h.register hr₁ hname) hr' hrest

end Registry

end DocFilter
