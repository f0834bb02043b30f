import DocFilter.Proofs.Compile.Longhand
import DocFilter.Proofs.Reordering.Clauses

/-!
# The order of a document

The order of entries, of the elements that a logical operator joins, and of the entries of a
comparison object says nothing. A document in another order (`Document.Reordered`) is compiled if
and only if the document is, to predicates that are the same up to the order of siblings and of
conditions, and up to operands with the same text (`compile_reordered`).
-/

namespace DocFilter

/-- Entries that are the same up to their order, at any depth where order says nothing. A step is
taken in the first entry or in the first element, where the order of siblings brings any other. -/
inductive Document.Reordered (marker : Char) : List (String × Json) → List (String × Json) → Prop
  /-- Entries in another order. -/
  | entries {es es' : List (String × Json)} (h : es.Perm es') : Reordered marker es es'
  /-- A comparison object with its entries in another order. -/
  | comparison {ops ops' : List (String × Json)} {key name : String} (rest : List (String × Json))
      (hkey : Key.classify marker key = .field name) (h : ops.Perm ops') :
      Reordered marker ((key, .obj ops) :: rest) ((key, .obj ops') :: rest)
  /-- A logical operator with the elements of its array in another order. -/
  | elements {items items' : List Json} {key : String} {c : Connective}
      (rest : List (String × Json)) (hkey : Key.classify marker key = .logical c)
      (h : items.Perm items') :
      Reordered marker ((key, .arr items) :: rest) ((key, .arr items') :: rest)
  /-- A logical operator with an element of its array reordered. -/
  | element {es es' : List (String × Json)} {key : String} {c : Connective} (items : List Json)
      (rest : List (String × Json)) (hkey : Key.classify marker key = .logical c)
      (h : Reordered marker es es') :
      Reordered marker ((key, .arr (.obj es :: items)) :: rest)
        ((key, .arr (.obj es' :: items)) :: rest)
  /-- A logical operator with its object reordered. -/
  | object {es es' : List (String × Json)} {key : String} {c : Connective}
      (rest : List (String × Json)) (hkey : Key.classify marker key = .logical c)
      (h : Reordered marker es es') :
      Reordered marker ((key, .obj es) :: rest) ((key, .obj es') :: rest)
  /-- One after the other. -/
  | trans {es es' es'' : List (String × Json)} (h : Reordered marker es es')
      (h' : Reordered marker es' es'') : Reordered marker es es''

theorem Document.Reordered.length_eq {marker : Char} {es es' : List (String × Json)}
    (h : Reordered marker es es') : es.length = es'.length := by
  induction h with
  | entries h => exact h.length_eq
  | trans _ _ ih ih' => exact ih.trans ih'
  | _ => rfl

namespace Clause

/-! ## Paths -/

mutual

theorem rearranged_pathless : ∀ x : Clause, Rearranged [x] [x.pathless]
  | .group written inner clauses => by
    rw [pathless_group]
    exact .group written written inner [] (rearranged_map_pathless clauses)
  | .skipped d => by
    rw [pathless]
    exact .diagnostic d _ []
  | .own .. | .related _ | .unknown .. => by
    rw [pathless]
    exact .refl _

theorem rearranged_map_pathless : ∀ xs : List Clause, Rearranged xs (xs.map pathless)
  | [] => .refl []
  | x :: xs => (rearranged_pathless x).append (rearranged_map_pathless xs)

end

/-- Clauses that are the same without paths are the same up to their order. -/
theorem rearranged_of_map_pathless_eq {xs ys : List Clause}
    (h : xs.map pathless = ys.map pathless) : Rearranged xs ys := by
  have hys : Rearranged ys (xs.map pathless) := by
    rw [h]
    exact rearranged_map_pathless ys
  exact (rearranged_map_pathless xs).trans hys.symm

theorem Rearranged.together {xs ys : List Clause} (h : Rearranged xs ys) (scope : Connective) :
    Rearranged (Clause.together scope xs) (Clause.together scope ys) := by
  unfold Clause.together
  rw [h.length_eq]
  split
  · exact .group none none .and [] h
  · exact h

/-! ## Orders -/

section Orders

variable (ctx : Context)

theorem ofEntries_eq_flatMap (scope : Connective) (path : String)
    (entries : List (String × Json)) : ofEntries ctx scope path entries =
      entries.flatMap fun e => ofEntry ctx scope (joinPath path e.1) e.1 e.2 := by
  induction entries with
  | nil => rw [ofEntries, List.flatMap_nil]
  | cons e entries ih => rw [ofEntries, ih, List.flatMap_cons]

/-- The elements of an array are read alike, wherever they stand. -/
theorem rearranged_elements (c : Connective) (path : String) (index : Nat) (items : List Json) :
    Rearranged (ofElements ctx c path index items) (items.flatMap (ofElement ctx c "")) := by
  induction items generalizing index with
  | nil =>
    rw [ofElements, List.flatMap_nil]
    exact .refl []
  | cons j js ih =>
    rw [ofElements, List.flatMap_cons]
    exact (rearranged_of_map_pathless_eq (pathless_ofElement ctx c _ _ j)).append (ih _)

theorem rearranged_strays (path : String) (index : Nat) (items : List Json) :
    Rearranged (strayElements path index items)
      (items.flatMap fun j => strayElements path 0 [j]) := by
  induction items generalizing index with
  | nil => exact .refl []
  | cons j js ih =>
    rw [strayElements_cons, List.flatMap_cons]
    have hstray := rearranged_of_map_pathless_eq (pathless_strayElements path path index 0 [j])
    exact hstray.append (ih _)

theorem rearranged_logicalArray {items items' : List Json} (h : items.Perm items')
    (c : Connective) (path : String) (n n' : Nat) :
    Rearranged (strayElements path 0 items ++ [.group (some n) c (ofElements ctx c path 0 items)])
      (strayElements path 0 items' ++ [.group (some n') c (ofElements ctx c path 0 items')]) := by
  have hstrays : Rearranged (strayElements path 0 items) (strayElements path 0 items') :=
    (rearranged_strays path 0 items).trans
      ((Rearranged.siblings (h.flatMap_right _)).trans (rearranged_strays path 0 items').symm)
  have helements : Rearranged (ofElements ctx c path 0 items) (ofElements ctx c path 0 items') :=
    (rearranged_elements ctx c path 0 items).trans
      ((Rearranged.siblings (h.flatMap_right _)).trans
        (rearranged_elements ctx c path 0 items').symm)
  exact hstrays.append (.group _ _ c [] helements)

theorem rearranged_comparison {ops ops' : List (String × Json)} (h : ops.Perm ops')
    (scope : Connective) (path name : String) :
    Rearranged (ofField ctx scope path name (.obj ops))
      (ofField ctx scope path name (.obj ops')) := by
  cases ops with
  | nil =>
    rw [h.nil_eq]
    exact .refl _
  | cons e ops =>
    cases ops' with
    | nil => cases h.eq_nil
    | cons e' ops' =>
      unfold ofField
      split
      · exact .refl _
      · exact .refl _
      · exact (Rearranged.siblings (h.filterMap _)).append
          ((Rearranged.siblings (h.filterMap _)).together scope)

theorem rearranged_objectElement {es es' : List (String × Json)} (hlength : es.length = es'.length)
    (h : ∀ scope path, Rearranged (ofEntries ctx scope path es) (ofEntries ctx scope path es'))
    (c : Connective) (path : String) :
    Rearranged (ofElement ctx c path (.obj es)) (ofElement ctx c path (.obj es')) := by
  rw [ofElement, ofElement, hlength]
  split
  · exact .group none none .and [] (h .and path)
  · exact h c path

end Orders

open Document (Reordered)

/-- Reordered entries are read as rearranged clauses. -/
theorem rearranged_of_reordered {ctx : Context} {es es' : List (String × Json)}
    (h : Reordered ctx.marker es es') (scope : Connective) (path : String) :
    Rearranged (ofEntries ctx scope path es) (ofEntries ctx scope path es') := by
  induction h generalizing scope path with
  | entries h =>
    rw [ofEntries_eq_flatMap, ofEntries_eq_flatMap]
    exact .siblings (h.flatMap_right _)
  | comparison rest hkey h =>
    rw [ofEntries, ofEntries, ofEntry, ofEntry, hkey]
    exact (rearranged_comparison ctx h scope _ _).append_right _
  | elements rest hkey h =>
    rw [ofEntries, ofEntries, ofEntry, ofEntry, hkey]
    exact (rearranged_logicalArray ctx h _ _ _ _).append_right _
  | element items rest hkey h ih =>
    rw [ofEntries, ofEntries, ofEntry, ofEntry, hkey]
    -- an object is no stray
    refine Rearranged.append_right (Rearranged.append (.refl (strayElements _ 1 items)) ?_) _
    refine .group _ _ _ [] ?_
    rw [ofElements, ofElements]
    exact (rearranged_objectElement ctx h.length_eq ih _ _).append_right _
  | object rest hkey h ih =>
    rw [ofEntries, ofEntries, ofEntry, ofEntry, hkey]
    exact Rearranged.append_right (.group _ _ _ [] (ih _ _)) _
  | trans _ _ ih ih' => exact (ih scope path).trans (ih' scope path)

end Clause

/-! ## Compilation -/

/-- The order of a document does not change what is compiled: with its entries, elements and
comparators in another order it is compiled if and only if it was before, and to the same predicates
up to the order of siblings in each scope, the order of conditions in each subquery, and operands
with the same text. -/
theorem compile_reordered {marker : Char} (baseKey base : String) {registry : Registry}
    {d d' : Document} (hplain : registry.PlainTables)
    (h : Document.Reordered marker d.entries d'.entries) :
    ((∃ f, (compile ⟨false, marker, baseKey⟩ registry base d).result = .ok f) ↔
      ∃ f', (compile ⟨false, marker, baseKey⟩ registry base d').result = .ok f') ∧
    ∀ f f', (compile ⟨false, marker, baseKey⟩ registry base d).result = .ok f →
      (compile ⟨false, marker, baseKey⟩ registry base d').result = .ok f' →
      Predicate.Rearranged (f.predicates.map Predicate.shown)
        (f'.predicates.map Predicate.shown) := by
  have hclauses : Clause.Rearranged (Clause.ofDocument ⟨base, registry, marker⟩ d)
      (Clause.ofDocument ⟨base, registry, marker⟩ d') :=
    Clause.rearranged_of_reordered h .and ""
  constructor
  · rw [compile_lenient_succeeds, compile_lenient_succeeds]
    simp only [hclauses.unknown_mem_iff]
  · intro f f' hf hf'
    obtain ⟨-, rfl⟩ := compile_result_eq_ok.mp hf
    obtain ⟨-, rfl⟩ := compile_result_eq_ok.mp hf'
    exact hclauses.scopePredicates hplain (Clause.sound_ofDocument d) ⟨base, baseKey⟩ .and

/-! ### Posts in another order -/

namespace Blog

/-- Posts with a tag `a`, but no tag `b`, with the title `t`, or with the title `u` and first tag
`c`. -/
def listed : Document :=
  ⟨[("tags.name", .obj [("$eq", .str "a"), ("$ne", .str "b")]),
    ("$or", .arr [.obj [("title", .str "t")],
      .obj [("title", .str "u"), ("tags.name", .str "c"), ("posts_tags.sort_order", .str "1")]])]⟩

/-- The same in another order at every depth. -/
def relisted : Document :=
  ⟨[("$or", .arr [
      .obj [("posts_tags.sort_order", .str "1"), ("tags.name", .str "c"), ("title", .str "u")],
      .obj [("title", .str "t")]]),
    ("tags.name", .obj [("$ne", .str "b"), ("$eq", .str "a")])]⟩

theorem plainTables_registry : registry.PlainTables := by
  intro name relation h
  rcases eq_of_get? h with rfl | rfl
  · exact ⟨by decide, fun table htable => by cases htable⟩
  · refine ⟨by decide, fun table htable => ?_⟩
    cases htable
    decide

theorem reordered_listed : Document.Reordered '$' listed.entries relisted.entries := by
  have hor : Key.classify '$' "$or" = .logical .or := by decide
  have hname : Key.classify '$' "tags.name" = .field "tags.name" := by decide
  refine .trans (.comparison _ hname (.swap _ _ [])) ?_
  refine .trans (.entries (.swap _ _ [])) ?_
  refine .trans (.elements _ hor (.swap _ _ [])) ?_
  exact .element _ _ hor (.entries (List.reverse_perm _).symm)

end Blog

theorem compile_reordered_listed :
    ∃ f f', (compile ⟨false, '$', "id"⟩ Blog.registry "posts" Blog.listed).result = .ok f ∧
      (compile ⟨false, '$', "id"⟩ Blog.registry "posts" Blog.relisted).result = .ok f' ∧
      Predicate.Rearranged (f.predicates.map Predicate.shown)
        (f'.predicates.map Predicate.shown) := by
  obtain ⟨hsucceeds, hpredicates⟩ := compile_reordered "id" "posts" Blog.plainTables_registry
    Blog.reordered_listed
  have hf : (compile ⟨false, '$', "id"⟩ Blog.registry "posts" Blog.listed).result =
      .ok (compileFilter ⟨false, '$', "id"⟩ Blog.registry "posts" Blog.listed) :=
    compile_result_eq_ok.mpr ⟨by decide +kernel, rfl⟩
  obtain ⟨f', hf'⟩ := hsucceeds.mp ⟨_, hf⟩
  exact ⟨_, f', hf, hf', hpredicates _ f' hf hf'⟩

end DocFilter
