import DocFilter.Proofs.Clause.Leaves
import DocFilter.Proofs.Clause.Sound

/-!
# The field keys of a document

A document refers to columns by its field keys, which stand at its root or below logical operators
(`Document.fieldKeys`, from the first to the last). The registry is only asked about these: the
first of them that refers to an unknown relation is the first leaf that does
(`Clause.findSome?_error?_ofDocument`), and two registries that find the same for all of them give
the same clauses (`Clause.ofDocument_congr`).
-/

namespace DocFilter

namespace Document

mutual

/-- The field keys below a logical operator with a value. -/
def keysBelow (marker : Char) : Json → List String
  | .arr items => keysOfElements marker items
  | .obj entries => keysOfEntries marker entries
  | _ => []

/-- The field keys of the elements of an array. Elements that are no objects have none. -/
def keysOfElements (marker : Char) : List Json → List String
  | [] => []
  | .obj entries :: js => keysOfEntries marker entries ++ keysOfElements marker js
  | _ :: js => keysOfElements marker js

/-- The field keys of entries. What a field has to be like has none. -/
def keysOfEntries (marker : Char) : List (String × Json) → List String
  | [] => []
  | (key, j) :: rest =>
    (match Key.classify marker key with
      | .logical _ => keysBelow marker j
      | .field name => [name]
      | _ => []) ++ keysOfEntries marker rest

end

/-- The field keys of a document, in the order in which they stand there. -/
def fieldKeys (marker : Char) (d : Document) : List String := keysOfEntries marker d.entries

variable {marker : Char} {key : String}

theorem keysOfEntries_cons (marker : Char) (key : String) (j : Json)
    (rest : List (String × Json)) : keysOfEntries marker ((key, j) :: rest) =
      keysOfEntries marker [(key, j)] ++ keysOfEntries marker rest := by
  rw [keysOfEntries, keysOfEntries, keysOfEntries, List.append_nil]

theorem keysOfEntries_logical {c : Connective} (h : Key.classify marker key = .logical c)
    (j : Json) : keysOfEntries marker [(key, j)] = keysBelow marker j := by
  rw [keysOfEntries, keysOfEntries, List.append_nil, h]

theorem keysOfEntries_field {name : String} (h : Key.classify marker key = .field name)
    (j : Json) : keysOfEntries marker [(key, j)] = [name] := by
  rw [keysOfEntries, keysOfEntries, List.append_nil, h]

theorem keysOfEntries_stray (hlogical : ∀ c, Key.classify marker key ≠ .logical c)
    (hfield : ∀ name, Key.classify marker key ≠ .field name) (j : Json) :
    keysOfEntries marker [(key, j)] = [] := by
  rw [keysOfEntries, keysOfEntries, List.append_nil]
  cases hkey : Key.classify marker key with
  | logical c => exact absurd hkey (hlogical c)
  | field name => exact absurd hkey (hfield name)
  | comparison | unknown => rfl

end Document

namespace Clause

variable (base : String) (registry : Registry) (marker : Char)

/-! ## The first unknown relation -/

/-- The error about a field key that refers to an unknown relation. -/
def unresolved? (base : String) (registry : Registry) (key : String) : Option FilterError :=
  match Field.resolve registry base key with
  | .error (.unknownRelation relation) => some (.unknownRelation relation key)
  | _ => none

theorem error?_test (field : Field) (op : Comparator) (path : String) (j : Json) :
    (test field op path j).error? = none := by
  unfold test
  split
  · rfl
  · split
    · rfl
    · split <;> rfl

theorem findSome?_error?_eq_none {xs : List Clause}
    (h : ∀ x ∈ xs, x.leaves = [x] ∧ x.error? = none) :
    (allLeaves xs).findSome? error? = none := by
  rw [allLeaves_of_forall fun x hx => (h x hx).1]
  exact List.findSome?_eq_none_iff.mpr fun x hx => (h x hx).2

/-- A field that is found has no leaf that ends a compilation, whatever its value. -/
theorem findSome?_error?_ofField (scope : Connective) (path name : String) (value : Json) :
    (allLeaves (ofField ⟨base, registry, marker⟩ scope path name value)).findSome? error? =
      unresolved? base registry name := by
  have htests : ∀ (field : Field) (entries : List (String × Json)),
      (allLeaves (entries.filterMap (entryTest? marker field path))).findSome? error? = none := by
    intro field entries
    refine findSome?_error?_eq_none fun x hx => ?_
    obtain ⟨entry, -, he⟩ := List.mem_filterMap.mp hx
    obtain ⟨op, p, j, rfl⟩ := eq_test_of_entryTest? he
    exact ⟨leaves_test field op p j, error?_test field op p j⟩
  have hstrays : ∀ entries : List (String × Json),
      (allLeaves (entries.filterMap (entryStray? marker path))).findSome? error? = none := by
    intro entries
    refine findSome?_error?_eq_none fun x hx => ?_
    obtain ⟨entry, -, he⟩ := List.mem_filterMap.mp hx
    obtain ⟨p, rfl⟩ := eq_unrecognized_of_entryStray? he
    exact ⟨leaves_unrecognized p entry.1, rfl⟩
  unfold ofField unresolved?
  cases Field.resolve registry base name with
  | error e =>
    cases e with
    | malformed reason => simp [error?, malformed, leaves]
    | unknownRelation relation => simp [error?, leaves]
  | ok field =>
    cases value with
    | arr items => simp [error?, malformed, leaves]
    | obj entries =>
      cases entries with
      | nil => simp [error?, malformed, leaves]
      | cons e entries =>
        rw [allLeaves_append, allLeaves_together, List.findSome?_append, htests, hstrays]
        rfl
    | null | bool | num | str => simp [error?_test]

theorem findSome?_error?_strayElements (path : String) (index : Nat) (items : List Json) :
    (allLeaves (strayElements path index items)).findSome? error? = none := by
  refine findSome?_error?_eq_none fun x hx => ?_
  obtain ⟨p, reason, rfl⟩ := eq_malformed_of_mem_strayElements hx
  exact ⟨leaves_malformed p reason, rfl⟩

theorem findSome?_error?_ofPlainEntry {key : String}
    (hkey : ∀ c, Key.classify marker key ≠ .logical c) (scope : Connective) (path : String)
    (j : Json) : (allLeaves (ofEntry ⟨base, registry, marker⟩ scope path key j)).findSome? error? =
      (Document.keysOfEntries marker [(key, j)]).findSome? (unresolved? base registry) := by
  by_cases hfield : ∃ name, Key.classify marker key = .field name
  · obtain ⟨name, hname⟩ := hfield
    rw [ofEntry_field hname, Document.keysOfEntries_field hname, List.findSome?_singleton]
    exact findSome?_error?_ofField base registry marker scope path name j
  · rw [not_exists] at hfield
    rw [ofEntry_stray hkey hfield, Document.keysOfEntries_stray hkey hfield]
    simp [error?, unrecognized, leaves]

mutual

theorem findSome?_error?_ofEntry (scope : Connective) (path key : String) :
    ∀ j, (allLeaves (ofEntry ⟨base, registry, marker⟩ scope path key j)).findSome? error? =
      (Document.keysOfEntries marker [(key, j)]).findSome? (unresolved? base registry)
  | .arr items => by
    cases hkey : Key.classify marker key with
    | logical c =>
      rw [ofEntry, hkey, Document.keysOfEntries_logical hkey, Document.keysBelow, allLeaves_append,
        List.findSome?_append, findSome?_error?_strayElements, allLeaves_cons, leaves_group,
        allLeaves_nil, List.append_nil, Option.none_or]
      exact findSome?_error?_ofElements c path 0 items
    | _ => exact findSome?_error?_ofPlainEntry base registry marker (by simp [hkey]) scope path _
  | .obj entries => by
    cases hkey : Key.classify marker key with
    | logical c =>
      rw [ofEntry, hkey, Document.keysOfEntries_logical hkey, Document.keysBelow, allLeaves_cons,
        leaves_group, allLeaves_nil, List.append_nil]
      exact findSome?_error?_ofEntries c path entries
    | _ => exact findSome?_error?_ofPlainEntry base registry marker (by simp [hkey]) scope path _
  | .null | .bool _ | .num _ | .str _ => by
    cases hkey : Key.classify marker key with
    | logical c =>
      rw [Document.keysOfEntries_logical hkey]
      simp [ofEntry, hkey, error?, malformed, leaves, Document.keysBelow]
    | _ => exact findSome?_error?_ofPlainEntry base registry marker (by simp [hkey]) scope path _

theorem findSome?_error?_ofElements (c : Connective) (path : String) (index : Nat) :
    ∀ items, (allLeaves (ofElements ⟨base, registry, marker⟩ c path index items)).findSome? error? =
      (Document.keysOfElements marker items).findSome? (unresolved? base registry)
  | [] => by
    rw [ofElements, Document.keysOfElements, allLeaves_nil]
    rfl
  | .obj entries :: js => by
    rw [ofElements, Document.keysOfElements, allLeaves_append, List.findSome?_append,
      List.findSome?_append, findSome?_error?_ofElements c path (index + 1) js, ofElement]
    split
    · rw [allLeaves_cons, leaves_group, allLeaves_nil, List.append_nil,
        findSome?_error?_ofEntries .and _ entries]
    · rw [findSome?_error?_ofEntries c _ entries]
  | .null :: js | .bool _ :: js | .num _ :: js | .str _ :: js | .arr _ :: js => by
    rw [ofElements, Document.keysOfElements, ofElement, List.nil_append,
      findSome?_error?_ofElements c path (index + 1) js]
    all_goals simp

theorem findSome?_error?_ofEntries (scope : Connective) (path : String) :
    ∀ entries,
      (allLeaves (ofEntries ⟨base, registry, marker⟩ scope path entries)).findSome? error? =
        (Document.keysOfEntries marker entries).findSome? (unresolved? base registry)
  | [] => by
    rw [ofEntries, Document.keysOfEntries, allLeaves_nil]
    rfl
  | (key, j) :: rest => by
    rw [ofEntries, Document.keysOfEntries_cons, allLeaves_append, List.findSome?_append,
      List.findSome?_append, findSome?_error?_ofEntry scope (joinPath path key) key j,
      findSome?_error?_ofEntries scope path rest]

end

/-- The first leaf that refers to an unknown relation stands for the first field key that does. -/
theorem findSome?_error?_ofDocument (d : Document) :
    (allLeaves (ofDocument ⟨base, registry, marker⟩ d)).findSome? error? =
      (d.fieldKeys marker).findSome? (unresolved? base registry) :=
  findSome?_error?_ofEntries base registry marker .and "" d.entries

/-! ## Two registries -/

section Congruence

variable {base : String} {registry registry' : Registry} {marker : Char}

theorem ofPlainEntry_congr {key : String} {j : Json}
    (hkey : ∀ c, Key.classify marker key ≠ .logical c)
    (h : ∀ name ∈ Document.keysOfEntries marker [(key, j)],
      Field.resolve registry' base name = Field.resolve registry base name)
    (scope : Connective) (path : String) : ofEntry ⟨base, registry', marker⟩ scope path key j =
      ofEntry ⟨base, registry, marker⟩ scope path key j := by
  by_cases hfield : ∃ name, Key.classify marker key = .field name
  · obtain ⟨name, hname⟩ := hfield
    rw [Document.keysOfEntries_field hname, List.forall_mem_singleton] at h
    rw [ofEntry_field hname, ofEntry_field hname, ofField, ofField, h]
  · rw [not_exists] at hfield
    rw [ofEntry_stray hkey hfield, ofEntry_stray hkey hfield]

mutual

theorem ofEntry_congr (scope : Connective) (path key : String) :
    ∀ j, (∀ name ∈ Document.keysOfEntries marker [(key, j)],
        Field.resolve registry' base name = Field.resolve registry base name) →
      ofEntry ⟨base, registry', marker⟩ scope path key j =
        ofEntry ⟨base, registry, marker⟩ scope path key j
  | .arr items, h => by
    cases hkey : Key.classify marker key with
    | logical c =>
      rw [Document.keysOfEntries_logical hkey, Document.keysBelow] at h
      rw [ofEntry, ofEntry, hkey]
      simp only [ofElements_congr c path 0 items h]
    | _ => exact ofPlainEntry_congr (by simp [hkey]) h scope path
  | .obj entries, h => by
    cases hkey : Key.classify marker key with
    | logical c =>
      rw [Document.keysOfEntries_logical hkey, Document.keysBelow] at h
      rw [ofEntry, ofEntry, hkey]
      simp only [ofEntries_congr c path entries h]
    | _ => exact ofPlainEntry_congr (by simp [hkey]) h scope path
  | .null, h | .bool _, h | .num _, h | .str _, h => by
    cases hkey : Key.classify marker key with
    | logical c => simp [ofEntry, hkey]
    | _ => exact ofPlainEntry_congr (by simp [hkey]) h scope path

theorem ofElements_congr (c : Connective) (path : String) (index : Nat) :
    ∀ items, (∀ name ∈ Document.keysOfElements marker items,
        Field.resolve registry' base name = Field.resolve registry base name) →
      ofElements ⟨base, registry', marker⟩ c path index items =
        ofElements ⟨base, registry, marker⟩ c path index items
  | [], _ => by rw [ofElements, ofElements]
  | .obj entries :: js, h => by
    rw [Document.keysOfElements] at h
    obtain ⟨hentries, hjs⟩ := List.forall_mem_append.mp h
    rw [ofElements, ofElements, ofElement, ofElement, ofElements_congr c path (index + 1) js hjs,
      ofEntries_congr .and _ entries hentries, ofEntries_congr c _ entries hentries]
  | .null :: js, h | .bool _ :: js, h | .num _ :: js, h | .str _ :: js, h | .arr _ :: js, h => by
    rw [Document.keysOfElements] at h
    · rw [ofElements, ofElements, ofElement, ofElement, ofElements_congr c path (index + 1) js h]
      all_goals simp
    · simp

theorem ofEntries_congr (scope : Connective) (path : String) :
    ∀ entries, (∀ name ∈ Document.keysOfEntries marker entries,
        Field.resolve registry' base name = Field.resolve registry base name) →
      ofEntries ⟨base, registry', marker⟩ scope path entries =
        ofEntries ⟨base, registry, marker⟩ scope path entries
  | [], _ => by rw [ofEntries, ofEntries]
  | (key, j) :: rest, h => by
    rw [Document.keysOfEntries_cons] at h
    obtain ⟨hone, hrest⟩ := List.forall_mem_append.mp h
    rw [ofEntries, ofEntries, ofEntry_congr scope _ key j hone,
      ofEntries_congr scope path rest hrest]

end

/-- The clauses of a document depend on the registry only in what it finds for the field keys. -/
theorem ofDocument_congr {d : Document} (h : ∀ name ∈ d.fieldKeys marker,
    Field.resolve registry' base name = Field.resolve registry base name) :
    ofDocument ⟨base, registry', marker⟩ d = ofDocument ⟨base, registry, marker⟩ d :=
  ofEntries_congr .and "" d.entries h

end Congruence

end Clause

end DocFilter
