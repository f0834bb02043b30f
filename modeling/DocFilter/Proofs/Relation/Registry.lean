import DocFilter.Field

/-!
# Registries that are built by registration

A registry grows from the empty one by registrations that succeed (`Registry.Built`); lists and
configuration texts are registered entry by entry. A registration succeeds just if the relation is
free of flaws and its name and join table are new (`Registry.Admits`), and changes nothing
otherwise. So in such a registry every relation is free of flaws, and the index of join tables is
the inverse of the relations with a join table (`Registry.Consistent`).
-/

namespace DocFilter

namespace NameMap

variable {α : Type}

theorem lookup_cons_eq_ite (k : String) (b : α) (rest : List (String × α)) (n : String) :
    ((k, b) :: rest).lookup n = if n = k then some b else rest.lookup n := by
  by_cases h : n = k
  · simp [h]
  · rw [if_neg h, List.lookup_cons, beq_false_of_ne h]

theorem lookup_insertEntry (name : String) (a : α) (entries : List (String × α)) (n : String) :
    (insertEntry name a entries).lookup n = if n = name then some a else entries.lookup n := by
  induction entries with
  | nil => exact lookup_cons_eq_ite name a [] n
  | cons e rest ih =>
    obtain ⟨k, b⟩ := e
    unfold insertEntry
    split
    · exact lookup_cons_eq_ite name a _ n
    · split
      · next hk =>
        subst hk
        rw [lookup_cons_eq_ite, lookup_cons_eq_ite]
        split <;> rfl
      · next hk =>
        rw [lookup_cons_eq_ite, ih, lookup_cons_eq_ite]
        by_cases h : n = k
        · subst h
          simp [Ne.symm hk]
        · simp [h]

/-- A map gives the new entry for its name, and what it gave before for any other. -/
theorem find?_insert (m : NameMap α) (name : String) (a : α) (n : String) :
    (m.insert name a).find? n = if n = name then some a else m.find? n :=
  lookup_insertEntry name a m.entries n

theorem insertEntry_perm {name : String} {entries : List (String × α)} (a : α)
    (h : entries.lookup name = none) :
    (insertEntry name a entries).Perm ((name, a) :: entries) := by
  induction entries with
  | nil => exact .refl _
  | cons e rest ih =>
    obtain ⟨k, b⟩ := e
    rw [lookup_cons_eq_ite] at h
    unfold insertEntry
    split
    · exact .refl _
    · split
      · next hk => simp [hk] at h
      · next hk =>
        rw [if_neg hk] at h
        exact ((ih h).cons (k, b)).trans (.swap (name, a) (k, b) rest)

/-- An entry with a new name is added to the others. -/
theorem entries_insert_perm {m : NameMap α} {name : String} (a : α) (h : m.find? name = none) :
    (m.insert name a).entries.Perm ((name, a) :: m.entries) :=
  insertEntry_perm a h

end NameMap

/-- What a relation under a name has to be like. -/
structure Relation.WellFormed (name : String) (relation : Relation) : Prop where
  name_ne_empty : name ≠ ""
  name_undotted : '.' ∉ name.toList
  target_ne_empty : relation.target ≠ ""
  targetKey_ne_empty : relation.targetKey ≠ ""
  foreignKey_ne_empty : ∀ foreignKey, relation.link = .oneToMany foreignKey → foreignKey ≠ ""
  join_ne_empty : ∀ joinTable joinFrom joinTo,
    relation.link = .manyToMany joinTable joinFrom joinTo →
      joinTable ≠ "" ∧ joinFrom ≠ "" ∧ joinTo ≠ ""
  joinTable_ne_target : ∀ table, relation.joinTable? = some table → table ≠ relation.target

theorem ite_some_eq_none_iff {α : Type} {p : Prop} [Decidable p] {a : α} {o : Option α} :
    (if p then some a else o) = none ↔ ¬ p ∧ o = none := by
  by_cases h : p <;> simp [h]

/-- The check finds no flaw in the well-formed relations, and in no others. -/
theorem Relation.flaw?_eq_none_iff {name : String} {relation : Relation} :
    relation.flaw? name = none ↔ relation.WellFormed name := by
  obtain ⟨target, targetKey, link⟩ := relation
  cases link with
  | oneToMany foreignKey =>
    have hcheck : Relation.flaw? name ⟨target, targetKey, .oneToMany foreignKey⟩ = none ↔
        (name ≠ "" ∧ '.' ∉ name.toList) ∧ (target ≠ "" ∧ targetKey ≠ "") ∧ foreignKey ≠ "" := by
      simp [flaw?, ite_some_eq_none_iff, and_assoc]
    rw [hcheck]
    constructor
    · rintro ⟨⟨hn, hd⟩, ⟨ht, hk⟩, hf⟩
      refine ⟨hn, hd, ht, hk, ?_, ?_, ?_⟩
      · rintro _ ⟨⟩
        exact hf
      · rintro _ _ _ ⟨⟩
      · rintro _ ⟨⟩
    · rintro ⟨hn, hd, ht, hk, hf, -, -⟩
      exact ⟨⟨hn, hd⟩, ⟨ht, hk⟩, hf foreignKey rfl⟩
  | manyToMany joinTable joinFrom joinTo =>
    have hcheck :
        Relation.flaw? name ⟨target, targetKey, .manyToMany joinTable joinFrom joinTo⟩ = none ↔
          (name ≠ "" ∧ '.' ∉ name.toList) ∧ (target ≠ "" ∧ targetKey ≠ "") ∧
            (joinTable ≠ "" ∧ joinFrom ≠ "" ∧ joinTo ≠ "") ∧ joinTable ≠ target := by
      simp [flaw?, ite_some_eq_none_iff, and_assoc]
    rw [hcheck]
    constructor
    · rintro ⟨⟨hn, hd⟩, ⟨ht, hk⟩, hj, hne⟩
      refine ⟨hn, hd, ht, hk, ?_, ?_, ?_⟩
      · rintro _ ⟨⟩
      · rintro _ _ _ ⟨⟩
        exact hj
      · rintro _ ⟨⟩
        exact hne
    · rintro ⟨hn, hd, ht, hk, -, hj, hne⟩
      exact ⟨⟨hn, hd⟩, ⟨ht, hk⟩, hj joinTable joinFrom joinTo rfl, hne joinTable rfl⟩

namespace Registry

/-- Registries that arise from the empty one by registration. -/
inductive Built : Registry → Prop where
  | empty : Built {}
  | register {r r' : Registry} {name : String} {relation : Relation} (h : Built r)
      (hr : r.register name relation = .ok r') : Built r'

/-- A list of relations is registered entry by entry. -/
theorem Built.ofList {relations : List (String × Relation)} {r : Registry}
    (h : Registry.ofList relations = .ok r) : Built r := by
  have hrun : ∀ (l : List (String × Relation)) (s : Registry), Built s →
      l.foldlM (fun r e => r.register e.1 e.2) s = .ok r → Built r := by
    intro l
    induction l with
    | nil =>
      intro s hs hl
      obtain rfl : s = r := by simpa [pure, Except.pure] using hl
      exact hs
    | cons e l ih =>
      obtain ⟨name, relation⟩ := e
      intro s hs hl
      rw [List.foldlM_cons] at hl
      cases he : s.register name relation with
      | error err => simp [he, bind, Except.bind] at hl
      | ok s' =>
        simp only [he, bind, Except.bind] at hl
        exact ih s' (hs.register he) hl
  exact hrun relations {} .empty h

/-- A configuration text is registered entry by entry. -/
theorem Built.ofText {text : String} {r : Registry} (h : Registry.ofText text = .ok r) :
    Built r := by
  unfold Registry.ofText at h
  split at h
  · cases h
  · exact Built.ofList h

/-- The relations are free of flaws, and the index leads from a join table to the one relation that
uses it. -/
structure Consistent (r : Registry) : Prop where
  flawless : ∀ name relation, r.get? name = some relation → relation.flaw? name = none
  index_iff : ∀ table name, r.joinTables.find? table = some name ↔
    ∃ relation, r.get? name = some relation ∧ relation.joinTable? = some table

/-- The premises of a registration: no flaw, a new name and a new join table. -/
structure Admits (r : Registry) (name : String) (relation : Relation) : Prop where
  flawless : relation.flaw? name = none
  fresh : r.get? name = none
  free : ∀ table, relation.joinTable? = some table → r.joinTables.find? table = none

/-- The registry with one more relation and, if there is one, its join table. -/
def extended (r : Registry) (name : String) (relation : Relation) : Registry where
  relations := r.relations.insert name relation
  joinTables := relation.joinTable?.elim r.joinTables fun table => r.joinTables.insert table name

theorem run_enter_of_admits {r : Registry} {name : String} {relation : Relation}
    (h : r.Admits name relation) :
    (enter name relation).run r = .ok () (r.extended name relation) := by
  obtain ⟨hflaw, hfresh, hfree⟩ := h
  have hnew : r.relations.contains name = false := by
    rw [NameMap.contains, show r.relations.find? name = none from hfresh]
    rfl
  unfold enter extended
  cases ht : relation.joinTable? with
  | none => simp [hflaw, hnew]
  | some table => simp [hflaw, hnew, hfree table ht]

/-- The join table is put into the index after the last check, so that an error comes too early to
leave a trace. -/
theorem run_enter_of_not_admits {r : Registry} {name : String} {relation : Relation}
    (h : ¬ r.Admits name relation) : ∃ e, (enter name relation).run r = .error e r := by
  unfold enter
  cases hflaw : relation.flaw? name with
  | some flaw => exact ⟨.invalid name flaw, rfl⟩
  | none =>
    cases hnew : r.relations.contains name with
    | true => exact ⟨.duplicateRelation name, by simp [hnew]⟩
    | false =>
      have hfresh : r.get? name = none := by simpa [NameMap.contains, get?] using hnew
      cases ht : relation.joinTable? with
      | none =>
        refine absurd ⟨hflaw, hfresh, fun table htable => ?_⟩ h
        rw [ht] at htable
        cases htable
      | some table =>
        cases hfree : r.joinTables.find? table with
        | some existing => exact ⟨.duplicateJoinTable table existing name, by simp [hnew, hfree]⟩
        | none =>
          refine absurd ⟨hflaw, hfresh, fun table' htable => ?_⟩ h
          rw [ht] at htable
          cases htable
          exact hfree

/-- A registration on a copy succeeds just if the registry admits the relation. -/
theorem register_eq_ok_iff {r r' : Registry} {name : String} {relation : Relation} :
    r.register name relation = .ok r' ↔
      r.Admits name relation ∧ r' = r.extended name relation := by
  unfold register
  by_cases h : r.Admits name relation
  · rw [run_enter_of_admits h]
    simp [h, eq_comm]
  · obtain ⟨e, he⟩ := run_enter_of_not_admits h
    rw [he]
    simp [h]

theorem get?_of_register {r r' : Registry} {name : String} {relation : Relation}
    (h : r.register name relation = .ok r') (n : String) :
    r'.get? n = if n = name then some relation else r.get? n := by
  obtain ⟨-, rfl⟩ := register_eq_ok_iff.mp h
  exact NameMap.find?_insert r.relations name relation n

/-- Registration keeps a registry consistent. -/
theorem Consistent.register {r r' : Registry} {name : String} {relation : Relation}
    (hr : r.Consistent) (h : r.register name relation = .ok r') : r'.Consistent := by
  have hget := get?_of_register h
  obtain ⟨⟨hflaw, hnew, hfree⟩, rfl⟩ := register_eq_ok_iff.mp h
  refine ⟨fun n rel hn => ?_, fun table n => ?_⟩
  · rw [hget] at hn
    split at hn
    · next he =>
      cases hn
      rw [he]
      exact hflaw
    · exact hr.flawless n rel hn
  · -- the new relation is the only one of its name, and no other one has its join table
    have hold : r.joinTables.find? table = some n → n ≠ name := by
      intro hf he
      obtain ⟨rel, hrel, -⟩ := (hr.index_iff table n).mp hf
      rw [he, hnew] at hrel
      cases hrel
    have hrel :
        (∃ rel, (r.extended name relation).get? n = some rel ∧ rel.joinTable? = some table) ↔
          (n = name ∧ relation.joinTable? = some table) ∨ r.joinTables.find? table = some n := by
      rw [hget]
      by_cases hn : n = name
      · rw [if_pos hn]
        constructor
        · rintro ⟨rel, he, ht⟩
          cases he
          exact Or.inl ⟨hn, ht⟩
        · rintro (⟨-, ht⟩ | hf)
          · exact ⟨relation, rfl, ht⟩
          · exact absurd hn (hold hf)
      · rw [if_neg hn, ← hr.index_iff]
        simp [hn]
    rw [hrel, extended]
    cases ht : relation.joinTable? with
    | none => simp
    | some t =>
      simp only [Option.elim_some, NameMap.find?_insert, Option.some.injEq]
      by_cases htt : table = t
      · subst htt
        simp [hfree table ht, eq_comm]
      · simp [htt, Ne.symm htt]

theorem Built.consistent {r : Registry} (h : Built r) : r.Consistent := by
  induction h with
  | empty =>
    refine ⟨fun n rel h => ?_, fun t n => ?_⟩
    · cases h
    · constructor
      · intro h
        cases h
      · rintro ⟨rel, h, -⟩
        cases h
  | register _ hr ih => exact ih.register hr

/-- A relation without flaws does not have its target as its join table. -/
theorem joinTable_ne_target {name : String} {relation : Relation} {table : String}
    (h : relation.flaw? name = none) (ht : relation.joinTable? = some table) :
    table ≠ relation.target :=
  (Relation.flaw?_eq_none_iff.mp h).joinTable_ne_target table ht

end Registry

/-! ### Posts with tags and comments -/

namespace Blog

/-- Posts have tags, by way of a join table. -/
def tags : Relation where
  target := "tags"
  link := .manyToMany "posts_tags" "post_id" "tag_id"

/-- Each comment names its post. -/
def comments : Relation where
  target := "comments"
  link := .oneToMany "post_id"

/-- The registry of both. -/
def registry : Registry :=
  ⟨⟨[("comments", comments), ("tags", tags)]⟩, ⟨[("posts_tags", "tags")]⟩⟩

theorem built_registry : registry.Built :=
  .ofList (show Registry.ofList [("tags", tags), ("comments", comments)] = .ok registry from rfl)

theorem eq_of_get? {name : String} {relation : Relation}
    (h : registry.get? name = some relation) : relation = comments ∨ relation = tags := by
  rw [Registry.get?, NameMap.find?, registry, NameMap.lookup_cons_eq_ite,
    NameMap.lookup_cons_eq_ite] at h
  split at h
  · exact .inl (Option.some.inj h).symm
  · split at h
    · exact .inr (Option.some.inj h).symm
    · cases h

end Blog

end DocFilter
