import DocFilter.Proofs.Clause.Paths
import DocFilter.Proofs.Clause.Sound
import DocFilter.Proofs.Compile.Outcome

/-!
# Shorthand

A document may write `and` and `or` with an object in place of an array of single entries, a field
with a value in place of the comparator `eq`, and a single value in place of a list of one. Its
longhand (`Document.longhand`) does without all three, at every depth. A document and its longhand
are compiled alike, up to the paths of diagnostics (`compile_longhand`): both are read as the same
clauses without paths (`Clause.pathless_ofEntries_longhand`).
-/

namespace DocFilter

/-- The key of a comparator. -/
def Comparator.key (marker : Char) (op : Comparator) : String :=
  String.ofList (marker :: op.token.toList)

theorem Comparator.classify_key (marker : Char) (op : Comparator) :
    Key.classify marker (op.key marker) = .comparison op := by
  cases op <;> simp [Key.classify, Key.afterMarker?, Comparator.key, Comparator.token,
    Connective.ofToken?, Comparator.ofToken?, Comparator.all]

namespace Document

/-- An operand as a list. Null asks for null, not for a list with null. -/
def listed : Json → Json
  | .bool b => .arr [.bool b]
  | .num n => .arr [.num n]
  | .str s => .arr [.str s]
  | j => j

/-- An entry of a comparison object, with a list for a comparator that takes one. -/
def longhandOperand (marker : Char) (entry : String × Json) : String × Json :=
  match Key.classify marker entry.1 with
  | .comparison .isIn => (entry.1, listed entry.2)
  | .comparison .notIn => (entry.1, listed entry.2)
  | _ => entry

/-- The value of a field, as a comparison object. -/
def longhandValue (marker : Char) : Json → Json
  | .obj entries => .obj (entries.map (longhandOperand marker))
  | .arr items => .arr items
  | scalar => .obj [(Comparator.eq.key marker, scalar)]

mutual

/-- The value of an entry in longhand. -/
def longhandEntry (marker : Char) (key : String) : Json → Json
  | .arr items =>
    match Key.classify marker key with
    | .logical _ => .arr (longhandElements marker items)
    | .field _ => longhandValue marker (.arr items)
    | _ => .arr items
  | .obj entries =>
    match Key.classify marker key with
    | .logical _ => .arr ((longhandEntries marker entries).map fun e => .obj [e])
    | .field _ => longhandValue marker (.obj entries)
    | _ => .obj entries
  | scalar =>
    match Key.classify marker key with
    | .field _ => longhandValue marker scalar
    | _ => scalar

/-- The elements of a logical operator's array in longhand. -/
def longhandElements (marker : Char) : List Json → List Json
  | [] => []
  | j :: js => longhandElement marker j :: longhandElements marker js

/-- An element of a logical operator's array in longhand. -/
def longhandElement (marker : Char) : Json → Json
  | .obj entries => .obj (longhandEntries marker entries)
  | j => j

/-- Entries in longhand. -/
def longhandEntries (marker : Char) : List (String × Json) → List (String × Json)
  | [] => []
  | (key, j) :: rest => (key, longhandEntry marker key j) :: longhandEntries marker rest

end

/-- A document in longhand. -/
def longhand (marker : Char) (d : Document) : Document := ⟨longhandEntries marker d.entries⟩

theorem length_longhandEntries (marker : Char) (entries : List (String × Json)) :
    (longhandEntries marker entries).length = entries.length := by
  induction entries with
  | nil => rw [longhandEntries]
  | cons e rest ih => rw [longhandEntries, List.length_cons, List.length_cons, ih]

theorem isObject_longhandElement (marker : Char) (j : Json) :
    Clause.isObject (longhandElement marker j) = Clause.isObject j := by
  cases j <;> rw [longhandElement] <;> first | rfl | simp

end Document

/-! ## Operands and fields -/

/-- A comparator that takes a list takes a single value as a list of one. -/
theorem Operand.read_listed {op : Comparator} (hop : op.takesList = true) (j : Json) :
    Operand.read op (Document.listed j) = Operand.read op j := by
  have hsingle : ∀ v : Value, v.isNull = false → v.isList = false →
      Value.ofJson j = .ok v → Value.ofJson (Document.listed j) = .ok (.list [v]) →
      Operand.read op (Document.listed j) = Operand.read op j := by
    intro v hnull hlist hj hlisted
    have hitems : (Value.list [v]).toList = v.toList := (Value.toList_of_not_isList hlist).symm
    rw [Operand.read_of_ofJson hlisted rfl, Operand.read_of_ofJson hj hnull, if_pos hop, if_pos hop,
      hitems]
  cases j with
  | null | arr | obj => rfl
  | bool b => exact hsingle (.bool b) rfl rfl rfl rfl
  | str s => exact hsingle (.str s) rfl rfl rfl rfl
  | num n =>
    exact hsingle (.ofNumber n) (Value.isNull_ofNumber n) (Value.isList_ofNumber n) rfl rfl

namespace Clause

variable (ctx : Context)

open Document (longhandOperand longhandValue longhandEntry longhandElements longhandElement
  longhandEntries)

theorem pathless_entryTest?_longhand (field : Field) (path path' : String)
    (entry : String × Json) :
    (entryTest? ctx.marker field path' (longhandOperand ctx.marker entry)).map pathless =
      (entryTest? ctx.marker field path entry).map pathless := by
  obtain ⟨key, j⟩ := entry
  have hread : ∀ op, op.takesList = true → (test field op (joinPath path' key)
      (Document.listed j)).pathless = (test field op (joinPath path key) j).pathless := by
    intro op hop
    rw [pathless_test field op (joinPath path' key) (joinPath path key)]
    unfold test
    rw [Operand.read_listed hop]
  unfold longhandOperand
  split
  · next hkey => simp [entryTest?, hkey, hread .isIn rfl]
  · next hkey => simp [entryTest?, hkey, hread .notIn rfl]
  · unfold entryTest?
    split
    · exact congrArg some (pathless_test ..)
    · rfl

theorem pathless_entryStray?_longhand (path path' : String) (entry : String × Json) :
    (entryStray? ctx.marker path' (longhandOperand ctx.marker entry)).map pathless =
      (entryStray? ctx.marker path entry).map pathless := by
  have hkey : (longhandOperand ctx.marker entry).1 = entry.1 := by
    unfold longhandOperand
    split <;> rfl
  unfold entryStray?
  rw [hkey]
  split
  · rfl
  · rw [Option.map_some, Option.map_some, unrecognized, unrecognized, pathless, pathless]

theorem pathless_comparison_longhand (field : Field) (scope : Connective) (path path' : String)
    (entries : List (String × Json)) :
    ((entries.map (longhandOperand ctx.marker)).filterMap (entryStray? ctx.marker path') ++
        together scope ((entries.map (longhandOperand ctx.marker)).filterMap
          (entryTest? ctx.marker field path'))).map pathless =
      (entries.filterMap (entryStray? ctx.marker path) ++
        together scope (entries.filterMap (entryTest? ctx.marker field path))).map pathless := by
  have hstrays : ((entries.map (longhandOperand ctx.marker)).filterMap
      (entryStray? ctx.marker path')).map pathless =
        (entries.filterMap (entryStray? ctx.marker path)).map pathless := by
    rw [List.filterMap_map, List.map_filterMap, List.map_filterMap]
    exact congrArg (List.filterMap · entries)
      (funext (pathless_entryStray?_longhand ctx path path'))
  have htests : ((entries.map (longhandOperand ctx.marker)).filterMap
      (entryTest? ctx.marker field path')).map pathless =
        (entries.filterMap (entryTest? ctx.marker field path)).map pathless := by
    rw [List.filterMap_map, List.map_filterMap, List.map_filterMap]
    exact congrArg (List.filterMap · entries)
      (funext (pathless_entryTest?_longhand ctx field path path'))
  rw [List.map_append, List.map_append, map_pathless_together, map_pathless_together, hstrays,
    htests]

theorem pathless_ofField_longhand (scope : Connective) (path path' name : String) (value : Json) :
    (ofField ctx scope path' name (longhandValue ctx.marker value)).map pathless =
      (ofField ctx scope path name value).map pathless := by
  have hmalformed : ∀ reason, [malformed path' reason].map pathless =
      [malformed path reason].map pathless := by
    intro reason
    rw [List.map_singleton, List.map_singleton, malformed, malformed, pathless, pathless]
  unfold ofField
  cases Field.resolve ctx.registry ctx.base name with
  | error failure =>
    cases failure with
    | malformed reason => exact hmalformed reason
    | unknownRelation => rfl
  | ok field =>
    have hscalar : ∀ scalar,
        ([(Comparator.eq.key ctx.marker, scalar)].filterMap (entryStray? ctx.marker path') ++
          together scope ([(Comparator.eq.key ctx.marker, scalar)].filterMap
            (entryTest? ctx.marker field path'))).map pathless =
          [test field .eq path scalar].map pathless := by
      intro scalar
      simp [entryStray?, entryTest?, together, Comparator.classify_key,
        pathless_test field .eq _ path]
    cases value with
    | null | bool | num | str => exact hscalar _
    | arr items => exact hmalformed _
    | obj entries =>
      cases entries with
      | nil => exact hmalformed _
      | cons e rest => exact pathless_comparison_longhand ctx field scope path path' (e :: rest)

/-! ## Entries -/

theorem strayElements_longhand (path : String) (index : Nat) (items : List Json) :
    strayElements path index (longhandElements ctx.marker items) =
      strayElements path index items := by
  induction items generalizing index with
  | nil => rw [longhandElements]
  | cons j js ih =>
    rw [longhandElements, strayElements, strayElements, Document.isObject_longhandElement]
    split
    · exact ih _
    · next hobject =>
      have hsame : longhandElement ctx.marker j = j := by
        cases j with
        | obj => exact absurd rfl hobject
        | _ => rw [longhandElement]; simp
      rw [hsame, ih]

theorem length_filter_isObject_longhand (items : List Json) :
    ((longhandElements ctx.marker items).filter isObject).length =
      (items.filter isObject).length := by
  induction items with
  | nil => rw [longhandElements]
  | cons j js ih =>
    rw [longhandElements, List.filter_cons, List.filter_cons, Document.isObject_longhandElement]
    split
    · rw [List.length_cons, List.length_cons, ih]
    · exact ih

theorem pathless_ofEntry_plain {key : String} (hkey : ∀ c, Key.classify ctx.marker key ≠ .logical c)
    (scope : Connective) (path path' : String) (j : Json) :
    (ofEntry ctx scope path' key (longhandEntry ctx.marker key j)).map pathless =
      (ofEntry ctx scope path key j).map pathless := by
  cases hclass : Key.classify ctx.marker key with
  | logical c => exact absurd hclass (hkey c)
  | field name =>
    have hlonghand : longhandEntry ctx.marker key j = longhandValue ctx.marker j := by
      cases j <;> rw [longhandEntry, hclass] <;> simp
    rw [hlonghand, ofEntry_field hclass, ofEntry_field hclass]
    exact pathless_ofField_longhand ctx scope path path' name j
  | comparison | unknown =>
    have hread := ofEntry_stray hkey (by simp [hclass]) scope
    rw [hread, hread, List.map_singleton, List.map_singleton, unrecognized, unrecognized, pathless,
      pathless]

/-- A logical operator whose value joins nothing is refused alike in longhand. -/
theorem pathless_ofEntry_scalar (scope : Connective) (path path' key : String) {j : Json}
    (harr : ∀ items, j ≠ .arr items) (hobj : ∀ entries, j ≠ .obj entries) :
    (ofEntry ctx scope path' key (longhandEntry ctx.marker key j)).map pathless =
      (ofEntry ctx scope path key j).map pathless := by
  cases hkey : Key.classify ctx.marker key with
  | logical c =>
    have hlonghand : longhandEntry ctx.marker key j = j := by
      rw [longhandEntry, hkey] <;> assumption
    have hread : ∀ p, ofEntry ctx scope p key j =
        [malformed p s!"expected an object or an array, found {j.kind}"] := by
      intro p
      rw [ofEntry, hkey] <;> assumption
    rw [hlonghand, hread, hread, List.map_singleton, List.map_singleton, malformed, malformed,
      pathless, pathless]
  | _ => exact pathless_ofEntry_plain ctx (by simp [hkey]) scope path path' j

mutual

theorem pathless_ofEntry_longhand (scope : Connective) (path path' key : String) :
    ∀ j, (ofEntry ctx scope path' key (longhandEntry ctx.marker key j)).map pathless =
      (ofEntry ctx scope path key j).map pathless
  | .arr items => by
    cases hkey : Key.classify ctx.marker key with
    | logical c =>
      have hlonghand : longhandEntry ctx.marker key (.arr items) =
          .arr (longhandElements ctx.marker items) := by
        rw [longhandEntry, hkey]
      have hread : ∀ p js, ofEntry ctx scope p key (.arr js) = strayElements p 0 js ++
          [.group (some (js.filter isObject).length) c (ofElements ctx c p 0 js)] := by
        intro p js
        rw [ofEntry, hkey]
      rw [hlonghand, hread, hread, List.map_append, List.map_append, List.map_singleton,
        List.map_singleton, pathless_group, pathless_group,
        strayElements_longhand, pathless_strayElements path' path 0 0 items,
        length_filter_isObject_longhand ctx items,
        pathless_ofElements_longhand c path path' 0 0 items]
    | _ => exact pathless_ofEntry_plain ctx (by simp [hkey]) scope path path' (.arr items)
  | .obj entries => by
    cases hkey : Key.classify ctx.marker key with
    | logical c =>
      have hlonghand : longhandEntry ctx.marker key (.obj entries) =
          .arr ((longhandEntries ctx.marker entries).map fun e => .obj [e]) := by
        rw [longhandEntry, hkey]
      -- no element is a stray, and there are as many elements as entries
      have hobjects : ∀ j ∈ (longhandEntries ctx.marker entries).map fun e => Json.obj [e],
          isObject j = true := List.forall_mem_map.mpr fun _ _ => rfl
      have hcount : (((longhandEntries ctx.marker entries).map fun e => Json.obj [e]).filter
          isObject).length = entries.length := by
        rw [List.filter_eq_self.mpr hobjects, List.length_map, Document.length_longhandEntries]
      have hread : ofEntry ctx scope path' key
          (.arr ((longhandEntries ctx.marker entries).map fun e => .obj [e])) =
            [.group (some entries.length) c (ofElements ctx c path' 0
              ((longhandEntries ctx.marker entries).map fun e => .obj [e]))] := by
        rw [ofEntry, hkey]
        simp only [strayElements_eq_nil hobjects, hcount, List.nil_append]
      have hobject : ofEntry ctx scope path key (.obj entries) =
          [.group (some entries.length) c (ofEntries ctx c path entries)] := by
        rw [ofEntry, hkey]
      rw [hlonghand, hread, hobject, List.map_singleton, List.map_singleton, pathless_group,
        pathless_group, pathless_ofElements_singles c path path' 0 entries]
    | _ => exact pathless_ofEntry_plain ctx (by simp [hkey]) scope path path' (.obj entries)
  | .null => pathless_ofEntry_scalar ctx scope path path' key (by simp) (by simp)
  | .bool _ => pathless_ofEntry_scalar ctx scope path path' key (by simp) (by simp)
  | .num _ => pathless_ofEntry_scalar ctx scope path path' key (by simp) (by simp)
  | .str _ => pathless_ofEntry_scalar ctx scope path path' key (by simp) (by simp)

theorem pathless_ofElements_longhand (c : Connective) (path path' : String) (index index' : Nat) :
    ∀ items, (ofElements ctx c path' index' (longhandElements ctx.marker items)).map pathless =
      (ofElements ctx c path index items).map pathless
  | [] => by rw [longhandElements, ofElements, ofElements]
  | j :: js => by
    rw [longhandElements, ofElements, ofElements, List.map_append, List.map_append,
      pathless_ofElement_longhand c (elementPath path index) (elementPath path' index') j,
      pathless_ofElements_longhand c path path' (index + 1) (index' + 1) js]

theorem pathless_ofElement_longhand (c : Connective) (path path' : String) :
    ∀ j, (ofElement ctx c path' (longhandElement ctx.marker j)).map pathless =
      (ofElement ctx c path j).map pathless
  | .obj entries => by
    rw [longhandElement, ofElement, ofElement, Document.length_longhandEntries]
    split
    · rw [List.map_singleton, List.map_singleton, pathless_group, pathless_group,
        pathless_ofEntries_longhand .and path path' entries]
    · exact pathless_ofEntries_longhand c path path' entries
  | .null | .bool _ | .num _ | .str _ | .arr _ => by simp only [longhandElement, ofElement]

/-- The entries of an object, and the elements of an array that has an object for each of them, are
read alike. -/
theorem pathless_ofElements_singles (c : Connective) (path path' : String) (index : Nat) :
    ∀ entries, (ofElements ctx c path' index
        ((longhandEntries ctx.marker entries).map fun e => .obj [e])).map pathless =
      (ofEntries ctx c path entries).map pathless
  | [] => by rw [longhandEntries, List.map_nil, ofElements, ofEntries]
  | (key, j) :: rest => by
    have hsingle : ∀ p e, ofElement ctx c p (.obj [e]) =
        ofEntry ctx c (joinPath p e.1) e.1 e.2 := by
      intro p e
      rw [ofElement, if_neg (by simp), ofEntries, ofEntries, List.append_nil]
    rw [longhandEntries, List.map_cons, ofElements, ofEntries, List.map_append, List.map_append,
      hsingle, pathless_ofEntry_longhand c (joinPath path key) _ key j,
      pathless_ofElements_singles c path path' (index + 1) rest]

theorem pathless_ofEntries_longhand (scope : Connective) (path path' : String) :
    ∀ entries, (ofEntries ctx scope path' (longhandEntries ctx.marker entries)).map pathless =
      (ofEntries ctx scope path entries).map pathless
  | [] => by rw [longhandEntries, ofEntries, ofEntries]
  | (key, j) :: rest => by
    rw [longhandEntries, ofEntries, ofEntries, List.map_append, List.map_append,
      pathless_ofEntry_longhand scope (joinPath path key) (joinPath path' key) key j,
      pathless_ofEntries_longhand scope path path' rest]

end

/-- The path of an element only shows in diagnostics: the longhand without a path is read like both.
-/
theorem pathless_ofElement (c : Connective) (path path' : String) (j : Json) :
    (ofElement ctx c path j).map pathless = (ofElement ctx c path' j).map pathless :=
  (pathless_ofElement_longhand ctx c path "" j).symm.trans
    (pathless_ofElement_longhand ctx c path' "" j)

end Clause

/-! ## Compilation -/

/-- Shorthand is only shorthand: a document and its longhand compile to the same predicates, and the
same clauses are passed over for the same causes, or both fail at the same unknown relation. -/
theorem compile_longhand (marker : Char) (baseKey : String) (registry : Registry) (base : String)
    (d : Document) :
    (∃ f g, (compile ⟨false, marker, baseKey⟩ registry base d).result = .ok f ∧
      (compile ⟨false, marker, baseKey⟩ registry base (d.longhand marker)).result = .ok g ∧
      g.base = f.base ∧ g.predicates = f.predicates ∧
      g.diagnostics.map (·.cause) = f.diagnostics.map (·.cause)) ∨
    ∃ relation field,
      (compile ⟨false, marker, baseKey⟩ registry base d).result =
        .error (.unknownRelation relation field) ∧
      (compile ⟨false, marker, baseKey⟩ registry base (d.longhand marker)).result =
        .error (.unknownRelation relation field) := by
  have hclauses : (Clause.ofDocument ⟨base, registry, marker⟩ (d.longhand marker)).map
      Clause.pathless = (Clause.ofDocument ⟨base, registry, marker⟩ d).map Clause.pathless :=
    Clause.pathless_ofEntries_longhand ⟨base, registry, marker⟩ .and "" "" d.entries
  have herror : (Clause.allLeaves (Clause.ofDocument ⟨base, registry, marker⟩
      (d.longhand marker))).findSome? Clause.error? =
        (Clause.allLeaves (Clause.ofDocument ⟨base, registry, marker⟩ d)).findSome?
          Clause.error? := by
    rw [← Clause.findSome?_error?_pathless, hclauses, Clause.findSome?_error?_pathless]
  cases hresult : (compile ⟨false, marker, baseKey⟩ registry base d).result with
  | error e =>
    obtain ⟨relation, field, rfl⟩ := unknownRelation_of_failure marker baseKey registry base d
      (compile_result_eq_error.mp hresult)
    refine Or.inr ⟨relation, field, rfl, ?_⟩
    rw [compile_lenient_eq_error, herror]
    exact compile_lenient_eq_error.mp hresult
  | ok f =>
    cases hlonghand : (compile ⟨false, marker, baseKey⟩ registry base
        (d.longhand marker)).result with
    | error e =>
      rw [compile_lenient_eq_error, herror, ← compile_lenient_eq_error, hresult] at hlonghand
      cases hlonghand
    | ok g =>
      refine Or.inl ⟨f, g, rfl, rfl, ?_⟩
      obtain ⟨hfailure, rfl⟩ := compile_result_eq_ok.mp hresult
      obtain ⟨hfailure', rfl⟩ := compile_result_eq_ok.mp hlonghand
      refine ⟨rfl, ?_, ?_⟩
      · unfold compileFilter compileClauses
        rw [← Clause.scopePredicates_pathless, hclauses, Clause.scopePredicates_pathless]
      · rw [diagnostics_compileFilter hfailure, diagnostics_compileFilter hfailure']
        have hcauses := Clause.causes_pathless (Clause.ofDocument ⟨base, registry, marker⟩ d)
        rw [← hclauses, Clause.causes_pathless] at hcauses
        exact hcauses

example : (Document.mk [("@or", .obj [("title", .null), ("@and", .obj [("status",
      .obj [("@in", .str "draft"), ("@ne", .str "old"), ("@nin", .null)])])])]).longhand '@' =
    ⟨[("@or", .arr [.obj [("title", .obj [("@eq", .null)])], .obj [("@and", .arr [.obj [("status",
      .obj [("@in", .arr [.str "draft"]), ("@ne", .str "old"), ("@nin", .null)])]])]])]⟩ := by
  rfl

end DocFilter
