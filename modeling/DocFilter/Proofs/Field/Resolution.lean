import DocFilter.Proofs.Relation.Calls
import Mathlib.Data.List.TakeWhile

/-!
# The segments of a path

A path is looked up by its segments, the texts between its points. It refers to an unknown relation
just if it has two segments or more, none of them is empty, and the first names nothing
(`Registry.Misses`). A registry that keeps what another one knows (`Registry.Keeps`) can only make
such paths refer to something; all other paths stay what they are (`Registry.Keeps.resolve_eq`).
-/

namespace DocFilter

namespace Field

/-- The texts between the points of a path. -/
def segments (path : String) : List String := (path.toList.splitOn '.').map String.ofList

theorem not_mem_of_cut?_eq_none {path : String} (h : cut? path = none) : '.' ∉ path.toList := by
  unfold cut? at h
  split at h
  · cases h
  · next hrest =>
    intro hmem
    have hall := List.dropWhile_eq_nil_iff.mp hrest '.' hmem
    simp at hall

theorem eq_append_of_cut?_eq_some {path head rest : String} (h : cut? path = some (head, rest)) :
    '.' ∉ head.toList ∧ path.toList = head.toList ++ '.' :: rest.toList := by
  unfold cut? at h
  split at h
  · next c cs hcs =>
    obtain ⟨rfl, rfl⟩ := Prod.mk.inj (Option.some.inj h)
    rw [String.toList_ofList, String.toList_ofList]
    -- what is dropped starts with the first point
    have hc : c = '.' := by
      have hhead := List.head?_dropWhile_not (· != '.') path.toList
      rw [hcs] at hhead
      simpa using hhead
    refine ⟨fun hmem => ?_, ?_⟩
    · have hne := List.mem_takeWhile_imp hmem
      simp at hne
    · have hparts := List.takeWhile_append_dropWhile (p := (· != '.')) (l := path.toList)
      rw [hcs, hc] at hparts
      exact hparts.symm
  · cases h

theorem segments_of_cut?_eq_none {path : String} (h : cut? path = none) :
    segments path = [path] := by
  rw [segments, List.splitOn_eq_singleton (not_mem_of_cut?_eq_none h)]
  simp

theorem segments_of_cut?_eq_some {path head rest : String} (h : cut? path = some (head, rest)) :
    segments path = head :: segments rest := by
  obtain ⟨hpoint, hpath⟩ := eq_append_of_cut?_eq_some h
  rw [segments, hpath, List.splitOn_append_cons_self_of_not_mem hpoint, List.map_cons]
  simp [segments]

theorem segments_ne_nil (path : String) : segments path ≠ [] := by
  simp [segments]

theorem hasEmptySegment_eq_true {path : String} :
    hasEmptySegment path = true ↔ "" ∈ segments path := by
  simp [hasEmptySegment, segments]

/-- The column that a relation or a join table of a name has. -/
def lookup? (registry : Registry) (head column : String) : Option RelatedField :=
  ((registry.get? head).map fun relation => ⟨head, relation, column, false⟩).or
    ((registry.byJoinTable? head).map fun owner => ⟨owner.1, owner.2, column, true⟩)

theorem lookup?_eq_none_iff {registry : Registry} {head column : String} :
    lookup? registry head column = none ↔
      registry.get? head = none ∧ registry.byJoinTable? head = none := by
  simp [lookup?]

theorem resolve_of_cut?_eq_none {path : String} (h : cut? path = none)
    (hempty : "" ∉ segments path) (registry : Registry) (base : String) :
    resolve registry base path = .ok (.own ⟨base, path⟩) := by
  rw [segments_of_cut?_eq_none h, List.mem_singleton] at hempty
  have hpath : path.isEmpty = false := by simpa using Ne.symm hempty
  simp [resolve, h, hpath]

theorem resolve_of_cut?_eq_some {path head column : String} (h : cut? path = some (head, column))
    (hempty : "" ∉ segments path) (registry : Registry) (base : String) :
    resolve registry base path =
      if head = base then .ok (.own ⟨base, column⟩)
      else (lookup? registry head column).elim (.error (.unknownRelation head))
        fun f => .ok (.related f) := by
  rw [segments_of_cut?_eq_some h, List.mem_cons, not_or, ← hasEmptySegment_eq_true] at hempty
  have hhead : head.isEmpty = false := by simpa using Ne.symm hempty.1
  have hcolumn : hasEmptySegment column = false := by simpa using hempty.2
  unfold resolve lookup?
  simp only [h, hhead, hcolumn, Bool.or_self, Bool.false_eq_true, if_false]
  by_cases hbase : head = base
  · rw [if_pos hbase, if_pos hbase]
  · rw [if_neg hbase, if_neg hbase]
    cases registry.get? head with
    | some relation => rfl
    | none => cases registry.byJoinTable? head <;> rfl

/-- What is said about a path with an empty segment. -/
def emptyReason (path : String) : String :=
  if path = "" then "field name is empty" else "field path has an empty segment"

/-- A path with an empty segment refers to nothing, whatever the registry. -/
theorem resolve_of_mem_segments {path : String} (h : "" ∈ segments path) (registry : Registry)
    (base : String) : resolve registry base path = .error (.malformed (emptyReason path)) := by
  cases hcut : cut? path with
  | none =>
    rw [segments_of_cut?_eq_none hcut, List.mem_singleton] at h
    rw [← h]
    rfl
  | some parts =>
    obtain ⟨head, column⟩ := parts
    rw [segments_of_cut?_eq_some hcut, List.mem_cons, ← hasEmptySegment_eq_true] at h
    have hempty : (head.isEmpty || hasEmptySegment column) = true := by
      rcases h with h | h
      · rw [← h]
        rfl
      · rw [h, Bool.or_true]
    have hpath : path ≠ "" := by
      rintro rfl
      cases hcut
    simp only [resolve, hcut, hempty, emptyReason, if_true, if_neg hpath]

end Field

namespace Registry

/-- A key refers to a relation that is not there: it has a second segment, no segment of it is
empty, and its first one is neither the base table, nor a relation, nor the join table of a
relation. -/
structure Misses (registry : Registry) (base key head : String) : Prop where
  segments : ∃ second rest, Field.segments key = head :: second :: rest
  nonempty : "" ∉ Field.segments key
  base : head ≠ base
  relation : registry.get? head = none
  joinTable : ∀ name relation, registry.get? name = some relation →
    relation.joinTable? ≠ some head

theorem Indexed.byJoinTable?_eq_none_iff {r : Registry} (h : r.Indexed) (table : String) :
    r.byJoinTable? table = none ↔
      ∀ name relation, r.get? name = some relation → relation.joinTable? ≠ some table := by
  rw [Option.eq_none_iff_forall_ne_some, Prod.forall]
  refine forall_congr' fun name => forall_congr' fun relation => ?_
  rw [Ne, h.byJoinTable?_iff, not_and]

/-- The lookup of a path fails for want of a relation just if the registry misses it. -/
theorem Indexed.resolve_eq_unknownRelation_iff {r : Registry} (h : r.Indexed)
    {base path head : String} :
    Field.resolve r base path = .error (.unknownRelation head) ↔ r.Misses base path head := by
  by_cases hempty : "" ∈ Field.segments path
  · rw [Field.resolve_of_mem_segments hempty]
    exact iff_of_false (by simp) fun hmisses => hmisses.nonempty hempty
  · cases hcut : Field.cut? path with
    | none =>
      rw [Field.resolve_of_cut?_eq_none hcut hempty]
      refine iff_of_false (by simp) fun hmisses => ?_
      obtain ⟨second, rest, hsegments⟩ := hmisses.segments
      rw [Field.segments_of_cut?_eq_none hcut] at hsegments
      simp at hsegments
    | some parts =>
      obtain ⟨head', column⟩ := parts
      have hsegments := Field.segments_of_cut?_eq_some hcut
      obtain ⟨second, rest, hcolumn⟩ := List.exists_cons_of_ne_nil (Field.segments_ne_nil column)
      rw [hcolumn] at hsegments
      rw [Field.resolve_of_cut?_eq_some hcut hempty]
      constructor
      · intro hresolve
        split at hresolve
        · cases hresolve
        · next hbase =>
          cases hlookup : Field.lookup? r head' column with
          | some f => simp [hlookup] at hresolve
          | none =>
            obtain ⟨hrelation, hjoin⟩ := Field.lookup?_eq_none_iff.mp hlookup
            obtain rfl : head' = head := by simpa [hlookup] using hresolve
            exact ⟨⟨second, rest, hsegments⟩, hempty, hbase, hrelation,
              (h.byJoinTable?_eq_none_iff head').mp hjoin⟩
      · rintro ⟨⟨second', rest', hsegments'⟩, -, hbase, hrelation, hjoin⟩
        obtain ⟨rfl, -⟩ := List.cons.inj (hsegments.symm.trans hsegments')
        have hlookup : Field.lookup? r head' column = none :=
          Field.lookup?_eq_none_iff.mpr ⟨hrelation, (h.byJoinTable?_eq_none_iff head').mpr hjoin⟩
        rw [if_neg hbase, hlookup]
        rfl

/-! ## Registries that know more -/

/-- A registry keeps what another one knows: its relations, and its join tables where they are
looked up at all, which is where no relation has the same name. -/
structure Keeps (r r' : Registry) : Prop where
  relation : ∀ name relation, r.get? name = some relation → r'.get? name = some relation
  joinTable : ∀ table owner, r.get? table = none → r.byJoinTable? table = some owner →
    r'.get? table = none ∧ r'.byJoinTable? table = some owner

theorem Keeps.lookup?_eq {r r' : Registry} (h : r.Keeps r') {head column : String}
    {f : RelatedField}
    (hf : Field.lookup? r head column = some f) : Field.lookup? r' head column = some f := by
  unfold Field.lookup? at hf ⊢
  cases hrelation : r.get? head with
  | some relation =>
    rw [hrelation] at hf
    rw [h.relation head relation hrelation]
    exact hf
  | none =>
    cases hjoin : r.byJoinTable? head with
    | none => simp [hrelation, hjoin] at hf
    | some owner =>
      obtain ⟨hrelation', hjoin'⟩ := h.joinTable head owner hrelation hjoin
      rw [hrelation, hjoin] at hf
      rw [hrelation', hjoin']
      exact hf

/-- A path that does not refer to an unknown relation is looked up as before. -/
theorem Keeps.resolve_eq {r r' : Registry} (h : r.Keeps r') {base path : String}
    (hknown : ∀ head, Field.resolve r base path ≠ .error (.unknownRelation head)) :
    Field.resolve r' base path = Field.resolve r base path := by
  by_cases hempty : "" ∈ Field.segments path
  · rw [Field.resolve_of_mem_segments hempty, Field.resolve_of_mem_segments hempty]
  · cases hcut : Field.cut? path with
    | none =>
      rw [Field.resolve_of_cut?_eq_none hcut hempty, Field.resolve_of_cut?_eq_none hcut hempty]
    | some parts =>
      obtain ⟨head, column⟩ := parts
      have hhead := hknown head
      rw [Field.resolve_of_cut?_eq_some hcut hempty] at hhead
      rw [Field.resolve_of_cut?_eq_some hcut hempty, Field.resolve_of_cut?_eq_some hcut hempty]
      by_cases hbase : head = base
      · rw [if_pos hbase, if_pos hbase]
      · rw [if_neg hbase] at hhead
        cases hlookup : Field.lookup? r head column with
        | none => simp [hlookup] at hhead
        | some f => rw [h.lookup?_eq hlookup]

end Registry

end DocFilter
