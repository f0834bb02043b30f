import DocFilter.Proofs.Relation.Extension

/-!
# Registering a list of relations

A list of relations can be registered just if each of them is well formed and no two share a name or
a join table (`Registry.Acceptable`), in whatever order they are given. The registry then holds the
relations of the list, and since its maps are sorted it is the same for every order. Otherwise the
first relation that is not well formed, or that takes a name or a join table of an earlier one, is
refused (`Registry.Refuses`), and with it the list.
-/

namespace DocFilter

/-! ## Sorted maps -/

namespace NameMap

variable {α : Type}

/-- Names increase from entry to entry. -/
def Sorted (m : NameMap α) : Prop := m.entries.Pairwise fun a b => a.1 < b.1

theorem mem_insertEntry {name : String} {a : α} {entries : List (String × α)} {e : String × α}
    (h : e ∈ insertEntry name a entries) : e = (name, a) ∨ e ∈ entries := by
  induction entries with
  | nil => exact Or.inl (List.mem_singleton.mp h)
  | cons e' rest ih =>
    obtain ⟨n, b⟩ := e'
    unfold insertEntry at h
    split at h
    · exact List.mem_cons.mp h
    · split at h
      · rcases List.mem_cons.mp h with h | h
        · exact Or.inl h
        · exact Or.inr (List.mem_cons_of_mem _ h)
      · rcases List.mem_cons.mp h with h | h
        · exact Or.inr (h ▸ List.mem_cons_self)
        · exact (ih h).imp_right (List.mem_cons_of_mem _)

theorem pairwise_insertEntry (name : String) (a : α) {entries : List (String × α)}
    (h : entries.Pairwise fun a b => a.1 < b.1) :
    (insertEntry name a entries).Pairwise fun a b => a.1 < b.1 := by
  induction entries with
  | nil => exact List.pairwise_singleton _ _
  | cons e rest ih =>
    obtain ⟨n, b⟩ := e
    obtain ⟨hfirst, hrest⟩ := List.pairwise_cons.mp h
    unfold insertEntry
    split
    · next hlt =>
      have hall : ∀ e ∈ (n, b) :: rest, name < e.1 := by
        intro e he
        rcases List.mem_cons.mp he with rfl | he
        · exact hlt
        · exact String.lt_trans hlt (hfirst e he)
      exact List.pairwise_cons.mpr ⟨hall, h⟩
    · next hnlt =>
      split
      · next heq =>
        subst heq
        exact List.pairwise_cons.mpr ⟨hfirst, hrest⟩
      · next hne =>
        have hgt : n < name := by
          by_cases hgt : n < name
          · exact hgt
          · exact absurd (String.le_antisymm hgt hnlt) hne
        have hall : ∀ e ∈ insertEntry name a rest, n < e.1 := by
          intro e he
          rcases mem_insertEntry he with rfl | he
          · exact hgt
          · exact hfirst e he
        exact List.pairwise_cons.mpr ⟨hall, ih hrest⟩

theorem Sorted.insert {m : NameMap α} (h : m.Sorted) (name : String) (a : α) :
    (m.insert name a).Sorted :=
  pairwise_insertEntry name a h

theorem Sorted.find?_eq_some_iff {m : NameMap α} (h : m.Sorted) {name : String} {a : α} :
    m.find? name = some a ↔ (name, a) ∈ m.entries := by
  obtain ⟨entries⟩ := m
  show entries.lookup name = some a ↔ (name, a) ∈ entries
  replace h : entries.Pairwise fun a b => a.1 < b.1 := h
  induction entries with
  | nil => simp
  | cons e rest ih =>
    obtain ⟨n, b⟩ := e
    obtain ⟨hfirst, hrest⟩ := List.pairwise_cons.mp h
    rw [lookup_cons_eq_ite, List.mem_cons, Prod.mk.injEq]
    by_cases hn : name = n
    · subst hn
      have hlater : (name, a) ∉ rest := fun hmem => String.lt_irrefl name (hfirst (name, a) hmem)
      simp [hlater, eq_comm]
    · have hlookup : rest.lookup name = some a ↔ (name, a) ∈ rest := ih hrest
      rw [if_neg hn, hlookup]
      simp [hn]

/-- Sorted maps with the same entries are the same. -/
theorem Sorted.eq_of_perm {m m' : NameMap α} (h : m.Sorted) (h' : m'.Sorted)
    (hperm : m.entries.Perm m'.entries) : m = m' := by
  have hentries : m.entries = m'.entries :=
    hperm.eq_of_pairwise (fun _ _ _ _ hab hba => absurd hba (String.lt_asymm hab)) h h'
  obtain ⟨entries⟩ := m
  obtain ⟨entries'⟩ := m'
  cases hentries
  rfl

end NameMap

namespace Registry

theorem Built.sorted {r : Registry} (h : r.Built) : r.relations.Sorted ∧ r.joinTables.Sorted := by
  induction h with
  | empty => exact ⟨List.Pairwise.nil, List.Pairwise.nil⟩
  | @register r r' name relation _ hr ih =>
    obtain ⟨hrelations, hjoinTables⟩ := ih
    obtain ⟨-, rfl⟩ := register_eq_ok_iff.mp hr
    refine ⟨hrelations.insert name relation, ?_⟩
    unfold extended
    cases relation.joinTable? with
    | none => exact hjoinTables
    | some table => exact hjoinTables.insert table name

/-! ## What a registry of a list holds -/

variable {r r' : Registry} {added : List (String × Relation)}

/-- The entries of the index for a list of relations. -/
def indexOf (l : List (String × Relation)) : List (String × String) :=
  l.flatMap fun e => e.2.joinTable?.toList.map (·, e.1)

theorem registerAll_entries_perm (h : r.registerAll added = .ok r') :
    r'.relations.entries.Perm (added ++ r.relations.entries) ∧
      r'.joinTables.entries.Perm (indexOf added ++ r.joinTables.entries) := by
  induction added generalizing r with
  | nil =>
    obtain rfl : r = r' := Except.ok.inj h
    exact ⟨.refl _, .refl _⟩
  | cons e added ih =>
    obtain ⟨r₁, hr₁, hrest⟩ := registerAll_cons_eq_ok.mp h
    obtain ⟨hadmits, rfl⟩ := register_eq_ok_iff.mp hr₁
    obtain ⟨hrelations, hjoinTables⟩ := hadmits.entries_perm
    obtain ⟨hrelations', hjoinTables'⟩ := ih hrest
    constructor
    · have hmove : (added ++ e :: r.relations.entries).Perm (e :: added ++ r.relations.entries) :=
        List.perm_middle
      exact hrelations'.trans ((hrelations.append_left added).trans hmove)
    · have hmove : (indexOf added ++ (e.2.joinTable?.toList.map (·, e.1) ++
          r.joinTables.entries)).Perm (indexOf (e :: added) ++ r.joinTables.entries) := by
        rw [indexOf, indexOf, List.flatMap_cons, ← List.append_assoc]
        exact List.perm_append_comm.append_right _
      exact hjoinTables'.trans ((hjoinTables.append_left _).trans hmove)

/-- A registry holds the relations of a list and nothing else, and leads from each join table to the
relation that it is of. -/
structure Holds (r : Registry) (l : List (String × Relation)) : Prop where
  relations : r.relations.entries.Perm l
  joinTables : r.joinTables.entries.Perm (indexOf l)
  get?_iff : ∀ name relation, r.get? name = some relation ↔ (name, relation) ∈ l
  index_iff : ∀ table name, r.joinTables.find? table = some name ↔
    ∃ relation, (name, relation) ∈ l ∧ relation.joinTable? = some table

theorem ofList_eq_registerAll (l : List (String × Relation)) :
    ofList l = registerAll {} l := rfl

theorem holds_of_ofList {l : List (String × Relation)} (h : ofList l = .ok r) : r.Holds l := by
  have hbuilt : r.Built := .ofList h
  obtain ⟨hrelations, hjoinTables⟩ := registerAll_entries_perm (r := {}) h
  rw [show (({} : Registry).relations.entries) = [] from rfl, List.append_nil] at hrelations
  rw [show (({} : Registry).joinTables.entries) = [] from rfl, List.append_nil] at hjoinTables
  have hget : ∀ name relation, r.get? name = some relation ↔ (name, relation) ∈ l := by
    intro name relation
    rw [← hrelations.mem_iff]
    exact hbuilt.sorted.1.find?_eq_some_iff
  refine ⟨hrelations, hjoinTables, hget, fun table name => ?_⟩
  rw [hbuilt.consistent.index_iff]
  simp only [hget]

/-! ## Which lists can be registered -/

/-- Relations that can be registered together. -/
structure Acceptable (l : List (String × Relation)) : Prop where
  wellFormed : ∀ e ∈ l, e.2.WellFormed e.1
  names : (l.map Prod.fst).Nodup
  joinTables : (l.filterMap (·.2.joinTable?)).Nodup

theorem admitsAll_empty_iff {l : List (String × Relation)} :
    AdmitsAll {} l ↔ Acceptable l := by
  constructor
  · intro h
    exact ⟨fun e he => Relation.flaw?_eq_none_iff.mp (h.each e he).flawless, h.names, h.joinTables⟩
  · intro h
    refine ⟨fun e he => ⟨?_, rfl, fun _ _ => rfl⟩, h.names, h.joinTables⟩
    exact Relation.flaw?_eq_none_iff.mpr (h.wellFormed e he)

theorem ofList_succeeds_iff {l : List (String × Relation)} :
    (∃ r, ofList l = .ok r) ↔ Acceptable l :=
  registerAll_succeeds_iff.trans admitsAll_empty_iff

theorem Acceptable.perm {l order : List (String × Relation)} (h : Acceptable l)
    (hperm : order.Perm l) : Acceptable order :=
  admitsAll_empty_iff.mp ((admitsAll_empty_iff.mpr h).perm hperm)

/-- The order of a list does not show in its registry. -/
theorem ofList_eq_of_perm {l order : List (String × Relation)} (hperm : order.Perm l)
    (h : ofList l = .ok r) : ofList order = .ok r := by
  have hacceptable : Acceptable l := ofList_succeeds_iff.mp ⟨r, h⟩
  obtain ⟨s, hs⟩ := ofList_succeeds_iff.mpr (hacceptable.perm hperm)
  have hr := holds_of_ofList h
  have hs' := holds_of_ofList hs
  have hsortedR := (Built.ofList h).sorted
  have hsortedS := (Built.ofList hs).sorted
  have hrelations : s.relations = r.relations :=
    hsortedS.1.eq_of_perm hsortedR.1 (hs'.relations.trans (hperm.trans hr.relations.symm))
  have hindex : (indexOf order).Perm (indexOf l) := hperm.flatMap_right _
  have hjoinTables : s.joinTables = r.joinTables :=
    hsortedS.2.eq_of_perm hsortedR.2 (hs'.joinTables.trans (hindex.trans hr.joinTables.symm))
  obtain ⟨_, _⟩ := r
  obtain ⟨_, _⟩ := s
  cases hrelations
  cases hjoinTables
  exact hs

/-! ## Which relation is refused -/

/-- The errors of a registration on a copy, in the order of the checks. -/
theorem register_eq_error_iff {name : String} {relation : Relation} {e : RegistryError} :
    r.register name relation = .error e ↔
      (∃ flaw, relation.flaw? name = some flaw ∧ e = .invalid name flaw) ∨
      (relation.flaw? name = none ∧ (∃ other, r.get? name = some other) ∧
        e = .duplicateRelation name) ∨
      (relation.flaw? name = none ∧ r.get? name = none ∧
        ∃ table owner, relation.joinTable? = some table ∧ r.joinTables.find? table = some owner ∧
          e = .duplicateJoinTable table owner name) := by
  unfold register enter
  cases hflaw : relation.flaw? name with
  | some flaw =>
    show Except.error (RegistryError.invalid name flaw) = _ ↔ _
    simp [eq_comm (a := e)]
  | none =>
    cases hget : r.get? name with
    | some other =>
      have hcontains : r.relations.contains name = true := by
        rw [NameMap.contains, show r.relations.find? name = some other from hget]
        rfl
      simp [hcontains, eq_comm (a := e)]
    | none =>
      have hcontains : r.relations.contains name = false := by
        rw [NameMap.contains, show r.relations.find? name = none from hget]
        rfl
      cases htable : relation.joinTable? with
      | none => simp [hcontains]
      | some table =>
        cases hfree : r.joinTables.find? table with
        | none => simp [hcontains, hfree]
        | some owner => simp [hcontains, hfree, eq_comm (a := e)]

/-- The error about a relation that cannot follow the relations before it. -/
inductive Refuses (before : List (String × Relation)) (name : String) (relation : Relation) :
    RegistryError → Prop
  | invalid {flaw : Relation.Flaw} (flawed : relation.flaw? name = some flaw) :
      Refuses before name relation (.invalid name flaw)
  | name {other : Relation} (wellFormed : relation.WellFormed name)
      (taken : (name, other) ∈ before) : Refuses before name relation (.duplicateRelation name)
  | joinTable {table owner : String} {other : Relation} (wellFormed : relation.WellFormed name)
      (fresh : name ∉ before.map Prod.fst) (uses : relation.joinTable? = some table)
      (owned : (owner, other) ∈ before) (taken : other.joinTable? = some table) :
      Refuses before name relation (.duplicateJoinTable table owner name)

theorem Holds.get?_eq_none_iff {l : List (String × Relation)} (h : r.Holds l) {name : String} :
    r.get? name = none ↔ name ∉ l.map Prod.fst := by
  rw [Option.eq_none_iff_forall_ne_some]
  simp [h.get?_iff]

theorem Holds.register_eq_error_iff {l : List (String × Relation)} (h : r.Holds l) {name : String}
    {relation : Relation} {e : RegistryError} :
    r.register name relation = .error e ↔ Refuses l name relation e := by
  rw [Registry.register_eq_error_iff, Relation.flaw?_eq_none_iff]
  simp only [h.get?_iff, h.index_iff, h.get?_eq_none_iff]
  constructor
  · rintro (⟨flaw, hflaw, rfl⟩ | ⟨hwell, ⟨other, hother⟩, rfl⟩ |
      ⟨hwell, hfresh, table, owner, htable, ⟨other, howner, htaken⟩, rfl⟩)
    · exact .invalid hflaw
    · exact .name hwell hother
    · exact .joinTable hwell hfresh htable howner htaken
  · intro hrefuses
    cases hrefuses with
    | invalid hflaw => exact Or.inl ⟨_, hflaw, rfl⟩
    | name hwell hother => exact Or.inr (Or.inl ⟨hwell, ⟨_, hother⟩, rfl⟩)
    | joinTable hwell hfresh htable howner htaken =>
      exact Or.inr (Or.inr ⟨hwell, hfresh, _, _, htable, ⟨_, howner, htaken⟩, rfl⟩)

theorem registerAll_eq_error_iff {e : RegistryError} :
    r.registerAll added = .error e ↔ ∃ before name relation after r₁,
      added = before ++ (name, relation) :: after ∧ r.registerAll before = .ok r₁ ∧
        r₁.register name relation = .error e := by
  induction added generalizing r with
  | nil =>
    refine iff_of_false (fun h => by cases h) ?_
    rintro ⟨before, name, relation, after, r₁, hadded, -⟩
    simp at hadded
  | cons entry added ih =>
    obtain ⟨name, relation⟩ := entry
    have hrun : r.registerAll ((name, relation) :: added) =
        (r.register name relation).bind fun r₁ => r₁.registerAll added :=
      List.foldlM_cons
    rw [hrun]
    constructor
    · intro h
      cases hr : r.register name relation with
      | error e' =>
        obtain rfl : e' = e := by simpa [hr, Except.bind] using h
        exact ⟨[], name, relation, added, r, rfl, rfl, hr⟩
      | ok r₁ =>
        have hrest : r₁.registerAll added = .error e := by simpa [hr, Except.bind] using h
        obtain ⟨before, n, rel, after, r₂, rfl, hbefore, hfail⟩ := ih.mp hrest
        refine ⟨(name, relation) :: before, n, rel, after, r₂, rfl, ?_, hfail⟩
        exact registerAll_cons_eq_ok.mpr ⟨r₁, hr, hbefore⟩
    · rintro ⟨before, n, rel, after, r₂, hadded, hbefore, hfail⟩
      cases before with
      | nil =>
        obtain ⟨hentry, -⟩ := List.cons.inj hadded
        obtain ⟨rfl, rfl⟩ := Prod.mk.inj hentry
        obtain rfl : r = r₂ := Except.ok.inj hbefore
        rw [hfail]
        rfl
      | cons entry' before =>
        obtain ⟨rfl, rfl⟩ := List.cons.inj hadded
        obtain ⟨r₁, hr₁, hrest⟩ := registerAll_cons_eq_ok.mp hbefore
        rw [hr₁]
        exact ih.mpr ⟨before, n, rel, after, r₂, rfl, hrest, hfail⟩

/-! ## Lists -/

/-- A list is registered just if it is acceptable. Its registry holds what the list has, and is that
of every other order of the list. If it is not acceptable, its first relation that cannot follow
those before it is refused. -/
theorem ofList_spec (l : List (String × Relation)) :
    ((∃ r, ofList l = .ok r) ↔ Acceptable l) ∧
    (∀ r, ofList l = .ok r → r.Holds l) ∧
    (∀ order, order.Perm l → ∀ r, ofList order = .ok r ↔ ofList l = .ok r) ∧
    ∀ e, ofList l = .error e ↔ ∃ before name relation after,
      l = before ++ (name, relation) :: after ∧ Acceptable before ∧
        Refuses before name relation e ∧
        ∃ r, ofList before = .ok r ∧ r.register name relation = .error e := by
  refine ⟨ofList_succeeds_iff, fun r => holds_of_ofList, fun order hperm r => ?_, fun e => ?_⟩
  · exact ⟨ofList_eq_of_perm hperm.symm, ofList_eq_of_perm hperm⟩
  · rw [ofList_eq_registerAll, registerAll_eq_error_iff]
    constructor
    · rintro ⟨before, name, relation, after, r₁, rfl, hbefore, hfail⟩
      have hrefuses := (holds_of_ofList hbefore).register_eq_error_iff.mp hfail
      exact ⟨before, name, relation, after, rfl, ofList_succeeds_iff.mp ⟨r₁, hbefore⟩, hrefuses,
        r₁, hbefore, hfail⟩
    · rintro ⟨before, name, relation, after, rfl, -, -, r₁, hbefore, hfail⟩
      exact ⟨before, name, relation, after, r₁, rfl, hbefore, hfail⟩

end Registry

/-! ### Posts with tags, labels and comments -/

/-- Posts have labels, by way of the join table of the tags. -/
def Blog.labels : Relation where
  target := "labels"
  link := .manyToMany "posts_tags" "post_id" "label_id"

theorem Registry.ofList_spec_blog :
    ofList [("tags", Blog.tags), ("comments", Blog.comments)] = .ok Blog.registry ∧
    ofList [("comments", Blog.comments), ("tags", Blog.tags)] = .ok Blog.registry ∧
    Blog.registry.Holds [("tags", Blog.tags), ("comments", Blog.comments)] ∧
    Acceptable [("tags", Blog.tags), ("comments", Blog.comments)] ∧
    Refuses [("tags", Blog.tags), ("comments", Blog.comments)] "labels" Blog.labels
      (.duplicateJoinTable "posts_tags" "tags" "labels") ∧
    ofList [("tags", Blog.tags), ("comments", Blog.comments), ("labels", Blog.labels),
        ("", Blog.comments)] =
      .error (.duplicateJoinTable "posts_tags" "tags" "labels") := by
  obtain ⟨haccepted, hholds, hperm, -⟩ :=
    ofList_spec [("tags", Blog.tags), ("comments", Blog.comments)]
  have hlist : ofList [("tags", Blog.tags), ("comments", Blog.comments)] =
      .ok Blog.registry := by decide
  have hacceptable := haccepted.mp ⟨_, hlist⟩
  have hfail : Blog.registry.register "labels" Blog.labels =
      .error (.duplicateJoinTable "posts_tags" "tags" "labels") := by decide
  have hrefuses := (hholds _ hlist).register_eq_error_iff.mp hfail
  refine ⟨hlist, (hperm _ (.swap ..) _).mpr hlist, hholds _ hlist, hacceptable, hrefuses, ?_⟩
  exact ((ofList_spec _).2.2.2 _).mpr
    ⟨_, _, _, [("", Blog.comments)], rfl, hacceptable, hrefuses, _, hlist, hfail⟩

end DocFilter
