import DocFilter.Proofs.Compile.Outcome
import DocFilter.Proofs.Meaning.Predicates

/-!
# Compilation preserves meaning

A row of the base table meets the condition of a compiled filter if and only if the document is true
of it (`whereTruth_compile_iff`). Reading a document as clauses keeps what it says
(`Clause.agree_ofEntries`), and the predicates of a scope say what its clauses say.

Inside an `or` a clause that stands for several tests, or an element with several entries, is
wrapped into a group. Senses of such lists are not equal but agree (`Sense.Agree`): in a conjunction
all that counts is what the parts say together, in a disjunction what each of them says once it is
closed.
-/

namespace DocFilter

variable {α : Type} {db : Database α} {row : Row α} {key : α}

namespace Sense

theorem concat_eq (ss : List Sense) :
    concat ss = ⟨ss.flatMap (·.facts), ss.flatMap (·.tests)⟩ := by
  rw [← facts_concat, ← tests_concat]

theorem concat_append (ss ts : List Sense) :
    concat (ss ++ ts) = (concat ss).append (concat ts) := by
  simp [concat_eq, append]

theorem concat_singleton (s : Sense) : concat [s] = s := by
  simp [concat_eq]

/-- Parts joined by a connective that say the same. -/
def Agree (db : Database α) (key : α) : Connective → List Sense → List Sense → Prop
  | .and, ss, ts => concat ss = concat ts
  | .or, ss, ts => ss.filterMap (close db key) = ts.filterMap (close db key)

namespace Agree

variable {c : Connective} {ss ss' ts ts' : List Sense}

theorem refl (ss : List Sense) : Agree db key c ss ss := by
  cases c <;> rfl

theorem append (h : Agree db key c ss ts) (h' : Agree db key c ss' ts') :
    Agree db key c (ss ++ ss') (ts ++ ts') := by
  cases c with
  | and =>
    have h : concat ss = concat ts := h
    have h' : concat ss' = concat ts' := h'
    show concat (ss ++ ss') = concat (ts ++ ts')
    rw [concat_append, concat_append, h, h']
  | or =>
    have h : ss.filterMap (close db key) = ts.filterMap (close db key) := h
    have h' : ss'.filterMap (close db key) = ts'.filterMap (close db key) := h'
    show (ss ++ ss').filterMap (close db key) = (ts ++ ts').filterMap (close db key)
    rw [List.filterMap_append, List.filterMap_append, h, h']

/-- Parts that say nothing can be left out. -/
theorem of_forall_empty (h : ∀ s ∈ ss, s = {}) : Agree db key c ss [] := by
  induction ss with
  | nil => exact .refl _
  | cons s ss ih =>
    obtain ⟨rfl, hss⟩ := List.forall_mem_cons.mp h
    have hempty : Agree db key c [{}] [] := by cases c <;> rfl
    exact hempty.append (ih hss)

/-- A single part is a conjunction by itself, and so is no part at all. -/
theorem concat_of_length_le_one (h : ss.length ≤ 1) : Agree db key c ss [concat ss] := by
  match ss, h with
  | [], _ => cases c <;> rfl
  | [s], _ =>
    rw [concat_singleton]
    exact .refl _

/-- In a conjunction, parts may be taken together. -/
theorem concat_and (h : Agree db key .and ss ts) : Agree db key .and ss [concat ts] := by
  have h : concat ss = concat ts := h
  show concat ss = concat [concat ts]
  rw [concat_singleton, h]

theorem trans (h : Agree db key c ss ts) (h' : Agree db key c ts ts') :
    Agree db key c ss ts' := by
  cases c with
  | and | or => exact Eq.trans h h'

/-- A group in a disjunction is closed already. -/
theorem group_or (h : Agree db key .and ss ts) :
    Agree db key .or [ofOption (Sense.join db key .and ss)] [concat ts] := by
  have h : concat ss = concat ts := h
  show [ofOption ((concat ss).close db key)].filterMap (close db key) =
    [concat ts].filterMap (close db key)
  simp only [List.filterMap_cons, close_ofOption, h]

theorem join_eq (h : Agree db key c ss ts) : Sense.join db key c ss = Sense.join db key c ts := by
  cases c with
  | and => exact congrArg (close db key) h
  | or =>
    have h : ss.filterMap (close db key) = ts.filterMap (close db key) := h
    rw [Sense.join, Sense.join, h]

end Agree

end Sense

/-! ## Operands -/

/-- Null in a list asks for null, and the other items for themselves. -/
theorem Database.any_fits (db : Database α) (cell : Option α) (items : List Value) :
    items.any (db.fits cell) =
      ((items.filter (!·.isNull)).any (db.fits cell) || (items.any (·.isNull) && cell.isNone)) := by
  induction items with
  | nil => rfl
  | cons v items ih =>
    cases v <;> cases cell <;> simp_all [Value.isNull, Database.fits]

theorem Database.all_avoids (db : Database α) (cell : Option α) (items : List Value) :
    items.all (db.avoids cell) =
      ((items.filter (!·.isNull)).all (db.avoids cell) &&
        (!items.any (·.isNull) || cell.isSome)) := by
  induction items with
  | nil => rfl
  | cons v items ih =>
    cases v <;> cases cell <;> simp_all [Value.isNull, Database.avoids]

/-- Setting null apart from the other items changes nothing. -/
theorem Operand.holds_list (db : Database α) {op : Comparator} (hop : op.takesList = true)
    (cell : Option α) (v : Value) :
    Operand.holds db op cell ⟨.list (v.toList.filter (!·.isNull)), v.toList.any (·.isNull)⟩ =
      op.holds db cell v := by
  cases op with
  | isIn =>
    rw [Comparator.holds, Database.any_fits]
    cases v.toList.any (·.isNull) <;>
      simp [Operand.holds, Comparator.isNegated, Comparator.holds, Value.toList]
  | notIn =>
    rw [Comparator.holds, Database.all_avoids]
    cases v.toList.any (·.isNull) <;>
      simp [Operand.holds, Comparator.isNegated, Comparator.holds, Value.toList]
  | eq | ne | gt | ge | lt | le => cases hop

/-! ## Reading documents -/

namespace Clause

theorem senses_append (xs ys : List Clause) :
    senses db row key (xs ++ ys) = senses db row key xs ++ senses db row key ys := by
  rw [senses_eq_map, senses_eq_map, senses_eq_map, List.map_append]

@[simp] theorem senses_singleton (x : Clause) : senses db row key [x] = [x.sense db row key] := by
  rw [senses_eq_map, List.map_singleton]

@[simp] theorem sense_malformed (path reason : String) :
    (malformed path reason).sense db row key = {} := by
  rw [malformed, sense]

@[simp] theorem sense_unrecognized (path k : String) :
    (unrecognized path k).sense db row key = {} := by
  rw [unrecognized, sense]

theorem sense_test_of_not_null {j : Json} {v : Value} (h : Value.ofJson j = .ok v)
    (hv : v.isNull = false) (field : Field) (op : Comparator) (path : String) :
    (test field op path j).sense db row key = Meaning.test db row field op j := by
  unfold test Meaning.test
  rw [Operand.read_of_ofJson h hv op, h]
  cases hop : op.takesList with
  | true =>
    cases field with
    | own c => simp [sense, hv, Operand.holds_list db hop]
    | related f =>
      cases hitems : v.toList.any (·.isNull) with
      | true =>
        have hlist : v.isList = true := by
          cases v <;> simp_all [Value.toList, Value.isList]
        simp [hv, hlist, hitems]
      | false =>
        have hfilter : v.toList.filter (!·.isNull) = v.toList := by
          simpa [List.filter_eq_self] using hitems
        simp [sense, hv, hitems, hfilter]
  | false =>
    cases hlist : v.isList with
    | true => simp [hlist]
    | false => cases field <;> simp [sense, hv, hlist, Operand.holds]

/-- A test says what the comparator says about the field. -/
theorem sense_test (field : Field) (op : Comparator) (path : String) (j : Json) :
    (test field op path j).sense db row key = Meaning.test db row field op j := by
  cases h : Value.ofJson j with
  | error e => simp [test, Operand.read, Meaning.test, h]
  | ok v =>
    cases hv : v.isNull with
    | false => exact sense_test_of_not_null h hv field op path
    | true =>
      obtain rfl : v = .null := by cases v <;> simp_all [Value.isNull]
      unfold test Operand.read Meaning.test
      rw [h]
      cases hop : op.isOrdering with
      | true => simp [Value.isNull]
      | false => cases field <;> simp [Value.isNull, Value.isList, sense, Operand.holds]

variable (db row key) (ctx : Context)

/-- The tests of a comparison object say what its operators say. -/
theorem concat_senses_tests (field : Field) (path : String) (entries : List (String × Json)) :
    Sense.concat (senses db row key (entries.filterMap (entryTest? ctx.marker field path))) =
      Meaning.operators ctx db row field entries := by
  unfold Meaning.operators
  induction entries with
  | nil =>
    rw [List.filterMap_nil, senses]
    rfl
  | cons entry entries ih =>
    have happend : ∀ (s : Sense) ss, Sense.concat (s :: ss) = s.append (Sense.concat ss) :=
      fun _ _ => rfl
    obtain ⟨k, operand⟩ := entry
    rw [List.map_cons, happend, ← ih, List.filterMap_cons]
    dsimp only [entryTest?]
    cases Key.classify ctx.marker k with
    | comparison op => rw [senses, happend, sense_test]
    | logical | unknown | field => rfl

/-- Several tests of one field are a conjunction, in any scope. -/
theorem agree_together (scope : Connective) (xs : List Clause) :
    Sense.Agree db key scope (senses db row key (together scope xs))
      [Sense.concat (senses db row key xs)] := by
  cases scope with
  | and => exact (Sense.Agree.refl _).concat_and
  | or =>
    unfold together
    split
    · rw [senses_singleton, sense]
      exact (Sense.Agree.refl _).group_or
    · next hlen =>
      apply Sense.Agree.concat_of_length_le_one
      rw [senses_eq_map, List.length_map]
      simpa using hlen

theorem agree_malformed (scope : Connective) (path reason : String) :
    Sense.Agree db key scope (senses db row key [malformed path reason]) [{}] := by
  rw [senses_singleton, sense_malformed]
  exact .refl _

theorem agree_strays (scope : Connective) (path : String) (entries : List (String × Json)) :
    Sense.Agree db key scope
      (senses db row key (entries.filterMap (entryStray? ctx.marker path))) [] := by
  apply Sense.Agree.of_forall_empty
  rw [senses_eq_map]
  refine List.forall_mem_map.mpr fun x hx => ?_
  obtain ⟨entry, -, he⟩ := List.mem_filterMap.mp hx
  obtain ⟨p, rfl⟩ := eq_unrecognized_of_entryStray? he
  exact sense_unrecognized _ _

/-- A field says what its value says about it. -/
theorem agree_ofField (scope : Connective) (path name : String) (value : Json) :
    Sense.Agree db key scope (senses db row key (ofField ctx scope path name value))
      [Meaning.field ctx db row name value] := by
  unfold ofField Meaning.field
  cases Field.resolve ctx.registry ctx.base name with
  | error failure =>
    cases failure with
    | malformed reason => exact agree_malformed ..
    | unknownRelation relation =>
      rw [senses_singleton, sense]
      exact .refl _
  | ok field =>
    cases value with
    | obj entries =>
      cases entries with
      | nil => exact agree_malformed ..
      | cons entry entries =>
        show Sense.Agree db key scope _ [Meaning.operators ctx db row field (entry :: entries)]
        rw [senses_append, ← concat_senses_tests db row key ctx field path]
        exact (agree_strays db row key ctx scope path _).append (agree_together db row key scope _)
    | arr items => exact agree_malformed ..
    | null | bool | num | str =>
      rw [senses_singleton, sense_test]
      exact .refl _

theorem agree_strayElements (c : Connective) (path : String) (index : Nat) (items : List Json) :
    Sense.Agree db key c (senses db row key (strayElements path index items)) [] := by
  apply Sense.Agree.of_forall_empty
  rw [senses_eq_map]
  refine List.forall_mem_map.mpr fun x hx => ?_
  obtain ⟨p, reason, rfl⟩ := eq_malformed_of_mem_strayElements hx
  exact sense_malformed _ _

theorem elements_cons (j : Json) (js : List Json) : Meaning.elements ctx db row key (j :: js) =
    Meaning.elements ctx db row key [j] ++ Meaning.elements ctx db row key js := by
  cases j <;> simp [Meaning.elements]

theorem length_entrySenses (entries : List (String × Json)) :
    (Meaning.entrySenses ctx db row key entries).length = entries.length := by
  induction entries with
  | nil => rw [Meaning.entrySenses]; rfl
  | cons entry entries ih => rw [Meaning.entrySenses, List.length_cons, List.length_cons, ih]

mutual

/-- An entry is read as clauses that say the same. -/
theorem agree_ofEntry (scope : Connective) (path k : String) :
    ∀ j, Sense.Agree db key scope (senses db row key (ofEntry ctx scope path k j))
      [Meaning.entry ctx db row key k j]
  | .arr items => by
    rw [ofEntry, Meaning.entry]
    cases Key.classify ctx.marker k with
    | logical c =>
      rw [senses_append, senses_singleton, sense, (agree_ofElements c path 0 items).join_eq]
      exact (agree_strayElements db row key scope path 0 items).append (.refl _)
    | field name => exact agree_ofField ..
    | comparison | unknown =>
      rw [senses_singleton, sense_unrecognized]
      exact .refl _
  | .obj entries => by
    rw [ofEntry, Meaning.entry]
    cases Key.classify ctx.marker k with
    | logical c =>
      rw [senses_singleton, sense, (agree_ofEntries c path entries).join_eq]
      exact .refl _
    | field name => exact agree_ofField ..
    | comparison | unknown =>
      rw [senses_singleton, sense_unrecognized]
      exact .refl _
  | .null | .bool _ | .num _ | .str _ => by
    rw [ofEntry, Meaning.entry]
    · cases Key.classify ctx.marker k with
      | logical c => exact agree_malformed ..
      | field name => exact agree_ofField ..
      | comparison | unknown =>
        rw [senses_singleton, sense_unrecognized]
        exact .refl _
    all_goals simp

theorem agree_ofElements (c : Connective) (path : String) (index : Nat) :
    ∀ items, Sense.Agree db key c (senses db row key (ofElements ctx c path index items))
      (Meaning.elements ctx db row key items)
  | [] => by
    rw [ofElements, Meaning.elements, senses]
    exact .refl _
  | j :: js => by
    rw [ofElements, senses_append, elements_cons]
    exact (agree_ofElement c _ j).append (agree_ofElements c path (index + 1) js)

theorem agree_ofElement (c : Connective) (path : String) :
    ∀ j, Sense.Agree db key c (senses db row key (ofElement ctx c path j))
      (Meaning.elements ctx db row key [j])
  | .obj entries => by
    rw [ofElement, Meaning.elements, Meaning.elements]
    cases c with
    | and => exact (agree_ofEntries .and path entries).concat_and
    | or =>
      split
      · rw [senses_singleton, sense]
        exact (agree_ofEntries .and path entries).group_or
      · next hlen =>
        refine (agree_ofEntries .or path entries).trans (.concat_of_length_le_one ?_)
        rw [length_entrySenses]
        simpa using hlen
  | .null | .bool _ | .num _ | .str _ | .arr _ => by
    rw [ofElement, Meaning.elements, Meaning.elements, senses]
    · exact .refl _
    all_goals simp

theorem agree_ofEntries (scope : Connective) (path : String) :
    ∀ entries, Sense.Agree db key scope (senses db row key (ofEntries ctx scope path entries))
      (Meaning.entrySenses ctx db row key entries)
  | [] => by
    rw [ofEntries, Meaning.entrySenses, senses]
    exact .refl _
  | (k, j) :: rest => by
    rw [ofEntries, Meaning.entrySenses, senses_append]
    exact (agree_ofEntry scope _ k j).append (agree_ofEntries scope path rest)

end

variable {db row key ctx}

/-- The predicates of a document hold if and only if the document does. -/
theorem holds_scopePredicates {env : Sql.Env α} {base : Column}
    (hat : AtRow ctx.registry db env base key) (henv : env ctx.base = row) (d : Document) :
    (∀ p ∈ scopePredicates base .and (ofDocument ctx d), p.holds db env = true) ↔
      Meaning.holds ctx db row key d = true := by
  have hsound : ∀ x ∈ ofDocument ctx d, x.Sound ctx := sound_ofDocument d
  have hjoin := join_senses hat .and hsound (holds_allPredicates hat henv .and _ hsound)
  have hagree : Sense.join db key .and (senses db row key (ofDocument ctx d)) =
      Sense.join db key .and (Meaning.entrySenses ctx db row key d.entries) :=
    (agree_ofEntries db row key ctx .and "" d.entries).join_eq
  rw [Meaning.holds, ← hagree, hjoin, Connective.summary]
  split
  · next hempty =>
    have hnil : scopePredicates base .and (ofDocument ctx d) = [] := by simpa using hempty
    simp [hnil]
  · simp [Connective.combine]

end Clause

/-- Compilation preserves meaning: in three-valued logic, the condition of the compiled filter is
true of a row with a key if and only if the document is true of the row. -/
theorem whereTruth_compile_iff {options : Options} {registry : Registry} {base : String}
    {d : Document} {f : CompiledFilter} {db : Database α} {row : Row α} {key : α}
    (hregistry : registry.Built)
    (hcompile : (compile options registry base d).result = .ok f)
    (hkeyed : ∀ name relation, registry.get? name = some relation → relation.Keyed db)
    (hkey : row options.baseKey = some key) :
    f.select.whereTruth db row = .true ↔
      Meaning.holds ⟨base, registry, options.marker⟩ db row key d = true := by
  obtain ⟨-, rfl⟩ := compile_result_eq_ok.mp hcompile
  have hat : AtRow registry db (Sql.Env.empty.bind base row) ⟨base, options.baseKey⟩ key :=
    ⟨hregistry.consistent, hkeyed, by simpa using hkey⟩
  rw [CompiledFilter.whereTruth_select (Clause.joined_scopePredicates _ _ _)]
  exact Clause.holds_scopePredicates hat (Sql.Env.bind_same ..) d

/-! ### Posts and their tags -/

namespace Blog

/-- Posts whose title is neither `untitled` nor null, and posts without a tag `x`. -/
def document : Document :=
  ⟨[("$or", .arr [.obj [("title", .obj [("$nin", .arr [.str "untitled", .null])])],
    .obj [("tags.name", .obj [("$ne", .str "x")])]])]⟩

/-- The post has a tag `y`. -/
def database : Database String where
  rows table :=
    if table = "posts_tags" then [fun c => if c = "tag_id" then some "7" else some "1"]
    else if table = "tags" then [fun c => if c = "name" then some "'y'" else some "7"]
    else []
  literal v := v.display
  compare
    | .eq, a, b => a == b
    | .ne, a, b => a != b
    | _, _, _ => false

/-- A post without a title. -/
def post : Row String := fun c => if c = "id" then some "1" else none

/-- Only the tags have a join table, whose rows have to name a post. -/
theorem keyed_of_rows {db : Database α} (hdb : ∀ l ∈ db.rows "posts_tags", l "post_id" ≠ none)
    (name : String) (relation : Relation) (h : registry.get? name = some relation) :
    relation.Keyed db := by
  rintro joinTable joinFrom joinTo hlink
  rcases eq_of_get? h with rfl | rfl
  · cases hlink
  · cases hlink
    exact hdb

end Blog

theorem whereTruth_compile_blog :
    (compile {} Blog.registry "posts" Blog.document).result =
      .ok (compileFilter {} Blog.registry "posts" Blog.document) ∧
    (compileFilter {} Blog.registry "posts" Blog.document).select.whereTruth
      Blog.database Blog.post = .true := by
  have hcompile : (compile {} Blog.registry "posts" Blog.document).result =
      .ok (compileFilter {} Blog.registry "posts" Blog.document) :=
    compile_result_eq_ok.mpr ⟨by decide +kernel, rfl⟩
  have hkeyed : ∀ name relation, Blog.registry.get? name = some relation →
      relation.Keyed Blog.database :=
    Blog.keyed_of_rows (List.forall_mem_singleton.mpr (by decide))
  exact ⟨hcompile, (whereTruth_compile_iff Blog.built_registry hcompile hkeyed
    (show Blog.post "id" = some "1" from rfl)).mpr (by decide +kernel)⟩

end DocFilter
