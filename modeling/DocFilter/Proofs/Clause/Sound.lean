import DocFilter.Proofs.Relation.Registry
import DocFilter.Proofs.Value.Reading
import DocFilter.Clause.Basic

/-!
# Sound clauses

The clauses of a document are sound: a test on the base table is one of its columns, a test on a
relation is one of a column that the registry knows, and an operand is one that its comparator
takes. Later steps rely on this, as they look at neither the registry nor the operands again.
-/

namespace DocFilter

/-! ## Fields and operands -/

/-- A column of a relation as the registry knows it. -/
structure RelatedField.Registered (registry : Registry) (f : RelatedField) : Prop where
  found : registry.get? f.name = some f.relation
  indexed : f.onJoinTable = true → ∃ table, registry.joinTables.find? table = some f.name

theorem Field.resolve_own {registry : Registry} {base path : String} {c : Column}
    (h : Field.resolve registry base path = .ok (.own c)) : c.table = base := by
  unfold Field.resolve at h
  split at h
  · split at h
    · cases h
    · cases h
      rfl
  · split at h
    · cases h
    · split at h
      · cases h
        rfl
      · split at h
        · cases h
        · split at h <;> cases h

theorem Field.resolve_related {registry : Registry} {base path : String} {f : RelatedField}
    (h : Field.resolve registry base path = .ok (.related f)) : f.Registered registry := by
  unfold Field.resolve at h
  split at h
  · split at h <;> cases h
  · split at h
    · cases h
    · split at h
      · cases h
      · split at h
        · next relation hget =>
          cases h
          exact ⟨hget, fun hj => by cases hj⟩
        · split at h
          · next head _ _ _ _ name relation hjoin =>
            cases h
            unfold Registry.byJoinTable? at hjoin
            simp only [Option.bind_eq_bind, Option.bind_eq_some_iff, Option.pure_def,
              Option.some.injEq, Prod.mk.injEq] at hjoin
            obtain ⟨_, hindex, _, hget, rfl, rfl⟩ := hjoin
            exact ⟨hget, fun _ => ⟨_, hindex⟩⟩
          · cases h

/-- A column of a join table belongs to a table that is not the target. -/
theorem RelatedField.Registered.joinTable {registry : Registry} {f : RelatedField}
    (h : f.Registered registry) (hr : registry.Consistent) (hj : f.onJoinTable = true) :
    ∃ table, f.relation.joinTable? = some table ∧ table ≠ f.relation.target := by
  obtain ⟨table, hindex⟩ := h.indexed hj
  obtain ⟨relation, hget, htable⟩ := (hr.index_iff table f.name).mp hindex
  obtain rfl : f.relation = relation := Option.some.inj (h.found.symm.trans hget)
  exact ⟨table, htable, Registry.joinTable_ne_target (hr.flawless _ _ h.found) htable⟩

theorem RelatedField.Registered.relation_eq {registry : Registry} {f g : RelatedField}
    (hf : f.Registered registry) (hg : g.Registered registry) (h : f.name = g.name) :
    f.relation = g.relation := by
  have hfound := hf.found
  rw [h, hg.found] at hfound
  exact (Option.some.inj hfound).symm

/-- No column of a join table is one of the target. -/
theorem RelatedField.Registered.ref_ne {registry : Registry} {f g : RelatedField}
    (hf : f.Registered registry) (hg : g.Registered registry) (hr : registry.Consistent)
    (hname : f.name = g.name) (hjoin : f.onJoinTable = true) (htarget : g.onJoinTable = false) :
    f.ref ≠ g.ref := by
  intro href
  obtain ⟨table, htable, hne⟩ := hf.joinTable hr hjoin
  have htables : f.table = g.table := congrArg Column.table href
  have hrelation := hf.relation_eq hg hname
  apply hne
  simpa [RelatedField.table, hjoin, htarget, htable, ← hrelation] using htables

theorem Operand.read_of_ofJson {j : Json} {v : Value} (h : Value.ofJson j = .ok v)
    (hv : v.isNull = false) (op : Comparator) : Operand.read op j =
      if op.takesList then .ok ⟨.list (v.toList.filter (!·.isNull)), v.toList.any (·.isNull)⟩
      else if v.isList then .error s!"`{op.token}` takes a single value, found a list"
      else .ok ⟨v, false⟩ := by
  unfold Operand.read
  rw [h]
  cases v <;> first | rfl | simp [Value.isNull] at hv

/-- An operand that a comparator takes. -/
structure Operand.Fits (op : Comparator) (o : Operand) : Prop where
  ordering : op.isOrdering = true → o.value.isNull = false
  items : ∀ items, o.value = .list items → op.takesList = true ∧ ∀ v ∈ items, v.isNull = false
  list : op.takesList = true → o.value ≠ .null → ∃ items, o.value = .list items
  nullItem : o.listsNull = true → ∃ items, o.value = .list items
  flat : ∀ items, o.value = .list items → ∀ v ∈ items, v.isList = false

theorem Operand.fits_of_read {op : Comparator} {j : Json} {o : Operand}
    (h : Operand.read op j = .ok o) : o.Fits op := by
  unfold Operand.read at h
  split at h
  · cases h
  · split at h
    · cases h
    · next hord =>
      cases h
      exact ⟨fun ho => absurd ho hord, by simp, by simp, by simp, by simp⟩
  · next v hnull hread =>
    split at h
    · next hlist =>
      cases h
      refine ⟨fun _ => rfl, ?_, fun _ _ => ⟨_, rfl⟩, fun _ => ⟨_, rfl⟩, ?_⟩
      · intro items hitems
        cases hitems
        exact ⟨hlist, fun v hv => by simpa using (List.mem_filter.mp hv).2⟩
      · intro items hitems
        cases hitems
        intro i hi
        obtain ⟨_, hitem⟩ :=
          (Value.ofJson_eq_ok_iff.mp hread).scalar_of_mem i (List.mem_filter.mp hi).1
        exact hitem.isList
    · next hlist =>
      split at h
      · cases h
      · next hv =>
        cases h
        have hsingle : ∀ items, v ≠ .list items := by
          intro items hitems
          simp [hitems, Value.isList] at hv
        refine ⟨fun _ => ?_, ?_, fun ht => absurd ht hlist, by simp, ?_⟩
        · cases v <;> simp_all [Value.isNull]
        · exact fun items hitems => absurd hitems (hsingle items)
        · exact fun items hitems => absurd hitems (hsingle items)

/-- A test on a relation as reading a document makes it. -/
structure RelatedTest.Sound (registry : Registry) (p : RelatedTest) : Prop where
  registered : p.field.Registered registry
  fits : Operand.Fits p.op ⟨p.value, false⟩

/-- Tests on relations with the same name are tests on the same relation. -/
theorem RelatedTest.Sound.relation_eq {registry : Registry} {p q : RelatedTest}
    (hp : p.Sound registry) (hq : q.Sound registry) (h : p.field.name = q.field.name) :
    p.field.relation = q.field.relation :=
  hp.registered.relation_eq hq.registered h

/-! ## Clauses -/

namespace Clause

/-- A clause as reading a document makes it. -/
inductive Sound (ctx : Context) : Clause → Prop
  | own {c : Column} {op : Comparator} {o : Operand} (table : c.table = ctx.base)
      (fits : o.Fits op) : Sound ctx (.own c op o)
  | related {p : RelatedTest} (sound : p.Sound ctx.registry) : Sound ctx (.related p)
  | skipped (d : Diagnostic) : Sound ctx (.skipped d)
  | unknown (relation field : String) : Sound ctx (.unknown relation field)
  | group {written : Option Nat} {inner : Connective} {clauses : List Clause}
      (members : ∀ x ∈ clauses, Sound ctx x) : Sound ctx (.group written inner clauses)

variable {ctx : Context}

theorem sound_test {name : String} {field : Field}
    (h : Field.resolve ctx.registry ctx.base name = .ok field) (op : Comparator) (path : String)
    (j : Json) : (test field op path j).Sound ctx := by
  unfold test
  split
  · exact .skipped _
  · next operand hread =>
    have hfits := Operand.fits_of_read hread
    split
    · exact .own (Field.resolve_own h) hfits
    · split
      · exact .skipped _
      · exact .related ⟨Field.resolve_related h, { hfits with nullItem := by simp }⟩

theorem eq_test_of_entryTest? {marker : Char} {field : Field} {path : String}
    {entry : String × Json} {x : Clause} (h : entryTest? marker field path entry = some x) :
    ∃ op p j, x = test field op p j := by
  unfold entryTest? at h
  split at h
  · cases h
    exact ⟨_, _, _, rfl⟩
  · cases h

theorem eq_unrecognized_of_entryStray? {marker : Char} {path : String} {entry : String × Json}
    {x : Clause} (h : entryStray? marker path entry = some x) :
    ∃ p, x = unrecognized p entry.1 := by
  unfold entryStray? at h
  split at h
  · cases h
  · cases h
    exact ⟨_, rfl⟩

theorem sound_together {tests : List Clause} (h : ∀ x ∈ tests, x.Sound ctx) (scope : Connective) :
    ∀ x ∈ together scope tests, x.Sound ctx := by
  unfold together
  split
  · exact List.forall_mem_singleton.mpr (.group h)
  · exact h

theorem sound_ofField (scope : Connective) (path name : String) (value : Json) :
    ∀ x ∈ ofField ctx scope path name value, x.Sound ctx := by
  unfold ofField
  split
  · exact List.forall_mem_singleton.mpr (.skipped _)
  · exact List.forall_mem_singleton.mpr (.unknown _ _)
  · next field hfield =>
    split
    · exact List.forall_mem_singleton.mpr (.skipped _)
    · intro x hx
      rcases List.mem_append.mp hx with hx | hx
      · obtain ⟨entry, -, he⟩ := List.mem_filterMap.mp hx
        obtain ⟨p, rfl⟩ := eq_unrecognized_of_entryStray? he
        exact .skipped _
      · refine sound_together (fun x hx => ?_) scope x hx
        obtain ⟨entry, -, he⟩ := List.mem_filterMap.mp hx
        obtain ⟨op, p, j, rfl⟩ := eq_test_of_entryTest? he
        exact sound_test hfield op p j
    · exact List.forall_mem_singleton.mpr (.skipped _)
    · exact List.forall_mem_singleton.mpr (sound_test hfield ..)

theorem strayElements_eq_nil {js : List Json} (h : ∀ j ∈ js, isObject j = true) (path : String)
    (i : Nat) : strayElements path i js = [] := by
  induction js generalizing i with
  | nil => rfl
  | cons j js ih =>
    obtain ⟨hj, hjs⟩ := List.forall_mem_cons.mp h
    rw [strayElements, if_pos hj, ih hjs]

theorem strayElements_cons (path : String) (index : Nat) (j : Json) (js : List Json) :
    strayElements path index (j :: js) =
      strayElements path index [j] ++ strayElements path (index + 1) js := by
  simp only [strayElements]
  split <;> rfl

theorem eq_malformed_of_mem_strayElements {path : String} {index : Nat} {items : List Json}
    {x : Clause} (h : x ∈ strayElements path index items) : ∃ p reason, x = malformed p reason := by
  induction items generalizing index with
  | nil => cases h
  | cons j js ih =>
    rw [strayElements] at h
    split at h
    · exact ih h
    · rcases List.mem_cons.mp h with rfl | h
      · exact ⟨_, _, rfl⟩
      · exact ih h

theorem ofEntry_field {key name : String} (h : Key.classify ctx.marker key = .field name)
    (scope : Connective) (path : String) (j : Json) :
    ofEntry ctx scope path key j = ofField ctx scope path name j := by
  cases j <;> rw [ofEntry, h] <;> simp

/-- A key that neither joins clauses nor names a field is passed over with its value. -/
theorem ofEntry_stray {key : String} (hlogical : ∀ c, Key.classify ctx.marker key ≠ .logical c)
    (hfield : ∀ name, Key.classify ctx.marker key ≠ .field name) (scope : Connective)
    (path : String) (j : Json) : ofEntry ctx scope path key j = [unrecognized path key] := by
  cases hkey : Key.classify ctx.marker key with
  | logical c => exact absurd hkey (hlogical c)
  | field name => exact absurd hkey (hfield name)
  | comparison | unknown => cases j <;> rw [ofEntry, hkey] <;> simp

mutual

theorem sound_ofEntry (scope : Connective) (path key : String) :
    ∀ j, ∀ x ∈ ofEntry ctx scope path key j, x.Sound ctx
  | .arr items => by
    rw [ofEntry]
    split
    · next c _ =>
      intro x hx
      rcases List.mem_append.mp hx with hx | hx
      · obtain ⟨p, reason, rfl⟩ := eq_malformed_of_mem_strayElements hx
        exact .skipped _
      · obtain rfl := List.mem_singleton.mp hx
        exact .group (sound_ofElements c path 0 items)
    · exact sound_ofField scope path _ _
    · exact List.forall_mem_singleton.mpr (.skipped _)
  | .obj entries => by
    rw [ofEntry]
    split
    · next c _ => exact List.forall_mem_singleton.mpr (.group (sound_ofEntries c path entries))
    · exact sound_ofField scope path _ _
    · exact List.forall_mem_singleton.mpr (.skipped _)
  | .null | .bool _ | .num _ | .str _ => by
    rw [ofEntry]
    · split
      · exact List.forall_mem_singleton.mpr (.skipped _)
      · exact sound_ofField scope path _ _
      · exact List.forall_mem_singleton.mpr (.skipped _)
    all_goals simp

theorem sound_ofElements (c : Connective) (path : String) (index : Nat) :
    ∀ items, ∀ x ∈ ofElements ctx c path index items, x.Sound ctx
  | [] => by simp [ofElements]
  | j :: js => by
    rw [ofElements]
    exact List.forall_mem_append.mpr
      ⟨sound_ofElement c _ j, sound_ofElements c path (index + 1) js⟩

theorem sound_ofElement (c : Connective) (path : String) :
    ∀ j, ∀ x ∈ ofElement ctx c path j, x.Sound ctx
  | .obj entries => by
    rw [ofElement]
    split
    · exact List.forall_mem_singleton.mpr (.group (sound_ofEntries .and path entries))
    · exact sound_ofEntries c path entries
  | .null | .bool _ | .num _ | .str _ | .arr _ => by simp [ofElement]

theorem sound_ofEntries (scope : Connective) (path : String) :
    ∀ entries, ∀ x ∈ ofEntries ctx scope path entries, x.Sound ctx
  | [] => by simp [ofEntries]
  | (key, j) :: rest => by
    rw [ofEntries]
    exact List.forall_mem_append.mpr
      ⟨sound_ofEntry scope _ key j, sound_ofEntries scope path rest⟩

end

/-- All clauses of a document are sound. -/
theorem sound_ofDocument (d : Document) : ∀ x ∈ ofDocument ctx d, x.Sound ctx :=
  sound_ofEntries .and "" d.entries

end Clause

end DocFilter
