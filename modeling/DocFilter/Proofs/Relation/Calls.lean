import DocFilter.Proofs.Relation.Registry

/-!
# Runs of calls on a registry

A registry is changed by calls, and any of them may fail. Whatever the calls are and whichever of
them fail, its index stays the inverse of its relations (`Registry.Indexed`), because every call
leaves a registry that arises by registrations (`Registry.Built.after`).
-/

namespace DocFilter

namespace Registry

/-- A call that may change a registry. -/
inductive Call where
  /-- Adds a relation in place. -/
  | enter (name : String) (relation : Relation)
  /-- Adds a relation to a copy. -/
  | register (name : String) (relation : Relation)
  /-- Starts over with the given relations. -/
  | ofList (relations : List (String × Relation))
  /-- Starts over with the relations of a configuration. -/
  | ofText (text : String)

/-- The registry after a call. A call that makes a registry of its own leaves this one alone if it
fails. -/
def after (r : Registry) : Call → Registry
  | .enter name relation =>
    match (enter name relation).run r with
    | .ok _ r' => r'
    | .error _ r' => r'
  | .register name relation => (r.register name relation).toOption.getD r
  | .ofList relations => (ofList relations).toOption.getD r
  | .ofText text => (ofText text).toOption.getD r

/-- The registry after a run of calls. -/
def afterAll (r : Registry) (calls : List Call) : Registry := calls.foldl after r

theorem Built.getD_toOption {r : Registry} (h : r.Built) {result : Except RegistryError Registry}
    (hok : ∀ r', result = .ok r' → r'.Built) : (result.toOption.getD r).Built := by
  cases result with
  | error e => exact h
  | ok r' => exact hok r' rfl

/-- Each call leaves a registry that arises by registrations. -/
theorem Built.after {r : Registry} (h : r.Built) (call : Call) : (r.after call).Built := by
  cases call with
  | enter name relation =>
    simp only [Registry.after]
    by_cases ha : r.Admits name relation
    · rw [run_enter_of_admits ha]
      exact h.register (register_eq_ok_iff.mpr ⟨ha, rfl⟩)
    · obtain ⟨e, he⟩ := run_enter_of_not_admits ha
      rw [he]
      exact h
  | register name relation => exact h.getD_toOption fun r' hr => h.register hr
  | ofList relations => exact h.getD_toOption fun r' hr => .ofList hr
  | ofText text => exact h.getD_toOption fun r' hr => .ofText hr

theorem Built.afterAll {r : Registry} (h : r.Built) (calls : List Call) :
    (r.afterAll calls).Built := by
  induction calls generalizing r with
  | nil => exact h
  | cons call calls ih => exact ih (h.after call)

/-- The relations are well formed, no two of them share a join table, and a join table leads to the
relation that uses it. -/
structure Indexed (r : Registry) : Prop where
  wellFormed : ∀ name relation, r.get? name = some relation → relation.WellFormed name
  index_iff : ∀ table name, r.joinTables.find? table = some name ↔
    ∃ relation, r.get? name = some relation ∧ relation.joinTable? = some table
  unshared : ∀ table name name' relation relation', r.get? name = some relation →
    r.get? name' = some relation' → relation.joinTable? = some table →
      relation'.joinTable? = some table → name = name'
  byJoinTable?_iff : ∀ table name relation, r.byJoinTable? table = some (name, relation) ↔
    r.get? name = some relation ∧ relation.joinTable? = some table

theorem Consistent.indexed {r : Registry} (h : r.Consistent) : r.Indexed := by
  refine ⟨fun name relation hget => ?_, h.index_iff, ?_, ?_⟩
  · exact Relation.flaw?_eq_none_iff.mp (h.flawless name relation hget)
  · intro table name name' relation relation' hget hget' ht ht'
    have hname := (h.index_iff table name).mpr ⟨relation, hget, ht⟩
    have hname' := (h.index_iff table name').mpr ⟨relation', hget', ht'⟩
    exact Option.some.inj (hname.symm.trans hname')
  · intro table name relation
    have hfound : r.byJoinTable? table = some (name, relation) ↔
        r.joinTables.find? table = some name ∧ r.get? name = some relation := by
      simp [byJoinTable?, Option.bind_eq_some_iff]
    rw [hfound, h.index_iff]
    constructor
    · rintro ⟨⟨relation', hget', ht⟩, hget⟩
      obtain rfl : relation' = relation := Option.some.inj (hget'.symm.trans hget)
      exact ⟨hget, ht⟩
    · rintro ⟨hget, ht⟩
      exact ⟨⟨relation, hget, ht⟩, hget⟩

/-- An admitted relation is one more entry of the relations, and its join table, if there is one, is
one more entry of the index. -/
theorem Admits.entries_perm {r : Registry} {name : String} {relation : Relation}
    (h : r.Admits name relation) :
    (r.extended name relation).relations.entries.Perm ((name, relation) :: r.relations.entries) ∧
      (r.extended name relation).joinTables.entries.Perm
        (relation.joinTable?.toList.map (·, name) ++ r.joinTables.entries) := by
  refine ⟨NameMap.entries_insert_perm relation h.fresh, ?_⟩
  unfold extended
  cases ht : relation.joinTable? with
  | none => exact .refl _
  | some table => exact NameMap.entries_insert_perm name (h.free table ht)

/-- After any run of calls the relations are well formed and the index is their inverse. A call that
adds a relation in place leaves the registry as it was if the relation is not admitted; otherwise it
adds this relation and at most one entry to the index. -/
theorem indexed_afterAll_and_enter_atomic (calls : List Call) :
    (Registry.afterAll {} calls).Indexed ∧
      ∀ (r : Registry) (name : String) (relation : Relation),
        (¬ r.Admits name relation ∧ ∃ e, (enter name relation).run r = .error e r) ∨
        (r.Admits name relation ∧ ∃ r', (enter name relation).run r = .ok () r' ∧
          r'.relations.entries.Perm ((name, relation) :: r.relations.entries) ∧
          r'.joinTables.entries.Perm
            (relation.joinTable?.toList.map (·, name) ++ r.joinTables.entries)) := by
  refine ⟨(Built.empty.afterAll calls).consistent.indexed, fun r name relation => ?_⟩
  by_cases h : r.Admits name relation
  · exact Or.inr ⟨h, r.extended name relation, run_enter_of_admits h, h.entries_perm⟩
  · exact Or.inl ⟨h, run_enter_of_not_admits h⟩

end Registry

end DocFilter
