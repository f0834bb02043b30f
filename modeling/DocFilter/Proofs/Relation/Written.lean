import DocFilter.Proofs.Json.Writing
import DocFilter.Proofs.Relation.Config
import Mathlib.Data.List.Pairwise
import Mathlib.Data.List.Perm.Basic

/-!
# Written relations

The object that a relation is written as can be reordered, respelled and extended, and still gives
the relation. It cannot give a field twice or leave one out, the key of the target apart.
-/

namespace DocFilter

namespace Relation

/-! ## Written forms -/

/-- The fields of a relation: their names and their values. -/
def fields (r : Relation) : List (List String × String) :=
  (targetNames, r.target) :: (targetKeyNames, r.targetKey) :: (["type"], r.link.word) ::
    r.link.fields

/-- Entries that give fields one by one, each under one of its names. -/
def Spells (own : List (String × Json)) (fields : List (List String × String)) : Prop :=
  List.Forall₂ (fun e f => e.1 ∈ f.1 ∧ e.2 = .str f.2) own fields

/-- No name belongs to two fields. -/
theorem fields_pairwise (r : Relation) :
    r.fields.Pairwise fun f g => ∀ name ∈ f.1, name ∉ g.1 := by
  have hone : [targetNames, targetKeyNames, ["type"], foreignKeyNames].Pairwise
      fun a b => ∀ name ∈ a, name ∉ b := by decide
  have hmany : [targetNames, targetKeyNames, ["type"], joinTableNames, joinFromNames,
      joinToNames].Pairwise fun a b => ∀ name ∈ a, name ∉ b := by decide
  have hnames : (r.fields.map Prod.fst).Pairwise fun a b => ∀ name ∈ a, name ∉ b := by
    obtain ⟨target, targetKey, link⟩ := r
    cases link with
    | oneToMany foreignKey => exact hone
    | manyToMany joinTable joinFrom joinTo => exact hmany
  exact List.pairwise_map.mp hnames

theorem fields_apart {r : Relation} {f g : List String × String} (hf : f ∈ r.fields)
    (hg : g ∈ r.fields) (hne : f ≠ g) : ∀ name ∈ f.1, name ∉ g.1 := by
  have hsymm : Std.Symm fun f g : List String × String => ∀ name ∈ f.1, name ∉ g.1 :=
    ⟨fun _ _ h name hb ha => h name ha hb⟩
  exact r.fields_pairwise.forall hf hg hne

section Named

variable {names : List String} {es es' : List (String × Json)} {e : String × Json} {s : String}

theorem named_append : named names (es ++ es') = named names es ++ named names es' :=
  List.filter_append ..

theorem named_cons_of_mem (h : e.1 ∈ names) : named names (e :: es) = e :: named names es :=
  List.filter_cons_of_pos (List.contains_iff_mem.mpr h)

theorem named_cons_of_not_mem (h : e.1 ∉ names) : named names (e :: es) = named names es :=
  List.filter_cons_of_neg (by simpa using h)

theorem named_eq_nil (h : ∀ e ∈ es, e.1 ∉ names) : named names es = [] :=
  List.filter_eq_nil_iff.mpr fun e he => by simpa using h e he

theorem named_perm (h : es.Perm es') : (named names es).Perm (named names es') := h.filter _

theorem Given.of_perm (h : es.Perm es') (hgiven : Given names es' s) : Given names es s := by
  obtain ⟨key, hkey⟩ := hgiven
  exact ⟨key, List.perm_singleton.mp (hkey ▸ named_perm h)⟩

end Named

variable {r r' : Relation} {es own extras : List (String × Json)} {f : List String × String}

theorem Spells.exists_mem {fs : List (List String × String)} (h : Spells own fs) :
    ∀ e ∈ own, ∃ f ∈ fs, e.1 ∈ f.1 := by
  induction h with
  | nil => exact List.forall_mem_nil _
  | cons hhead _ ih =>
    refine List.forall_mem_cons.mpr ⟨⟨_, List.mem_cons_self, hhead.1⟩, fun e he => ?_⟩
    obtain ⟨f, hf, hname⟩ := ih e he
    exact ⟨f, List.mem_cons_of_mem _ hf, hname⟩

theorem Spells.given {fs : List (List String × String)} (h : Spells own fs)
    (hapart : fs.Pairwise fun f g => ∀ name ∈ f.1, name ∉ g.1) (hf : f ∈ fs) :
    Given f.1 own f.2 := by
  induction h with
  | nil => cases hf
  | @cons e g own fs hhead htail ih =>
    obtain ⟨hname, hvalue⟩ := hhead
    obtain ⟨hfirst, hrest⟩ := List.pairwise_cons.mp hapart
    rcases List.mem_cons.mp hf with rfl | hf
    · have hnone : named f.1 own = [] := by
        refine named_eq_nil fun e' he' hmem => ?_
        obtain ⟨g, hg, hname'⟩ := Spells.exists_mem htail e' he'
        exact hfirst g hg e'.1 hmem hname'
      exact ⟨e.1, by rw [named_cons_of_mem hname, hnone, ← hvalue]⟩
    · have hother : e.1 ∉ f.1 := hfirst f hf e.1 hname
      obtain ⟨key, hkey⟩ := ih hrest hf
      exact ⟨key, by rw [named_cons_of_not_mem hother, hkey]⟩

/-- The fields of a relation are given by its own entries, also among entries with other keys. -/
theorem Spells.given_append (h : Spells own r.fields)
    (hextras : ∀ e ∈ extras, ∀ f ∈ r.fields, e.1 ∉ f.1) (hf : f ∈ r.fields) :
    Given f.1 (own ++ extras) f.2 := by
  obtain ⟨key, hkey⟩ := h.given r.fields_pairwise hf
  have hnone : named f.1 extras = [] := named_eq_nil fun e he => hextras e he f hf
  exact ⟨key, by rw [named_append, hkey, hnone, List.append_nil]⟩

theorem describes_of_given (h : ∀ f ∈ r.fields, Given f.1 es f.2) : Describes es r := by
  simp only [fields, List.forall_mem_cons] at h
  obtain ⟨htarget, hkey, ⟨key, htype⟩, hlink⟩ := h
  exact ⟨htarget, .inl hkey, ⟨key, .inl htype⟩, hlink⟩

/-- Without its key a target has the usual one. -/
theorem describes_of_given_of_ne
    (h : ∀ f ∈ r.fields, f.1 ≠ targetKeyNames → Given f.1 es f.2)
    (hkey : named targetKeyNames es = []) : Describes es ⟨r.target, "id", r.link⟩ := by
  have hlink : ∀ f ∈ r.link.fields, f.1 ≠ targetKeyNames := by
    intro f hf hnames
    have hother := isOther_of_mem_fields hf "targetKey" (by rw [hnames]; decide)
    exact absurd hother (by decide)
  simp only [fields, List.forall_mem_cons] at h
  obtain ⟨htarget, -, htype, hfields⟩ := h
  obtain ⟨key, htype⟩ := htype (by decide)
  exact ⟨htarget (by decide), .inr ⟨hkey, rfl⟩, ⟨key, .inl htype⟩,
    fun f hf => hfields f hf (hlink f hf)⟩

theorem Given.length_named {names : List String} {s : String} (h : Given names es s) :
    (named names es).length = 1 := by
  obtain ⟨key, hkey⟩ := h
  rw [hkey]
  rfl

theorem Describes.length_type (h : Describes es r') : (named ["type"] es).length = 1 := by
  obtain ⟨key, htype | htype⟩ := h.type <;> rw [htype] <;> rfl

theorem map_fst_fields_of_word {l l' : Link} (h : l.word = l'.word) :
    l.fields.map Prod.fst = l'.fields.map Prod.fst := by
  cases l <;> cases l' <;> first | rfl | simp [Link.word] at h

/-- Entries with the type of a relation describe only relations with the same fields. -/
theorem Describes.length_named (h : Describes es r') (htype : Given ["type"] es r.link.word)
    (hf : f ∈ r.fields) :
    (named f.1 es).length = 1 ∨ f.1 = targetKeyNames ∧ named f.1 es = [] := by
  have hword : r'.link.word = r.link.word := by
    obtain ⟨key, hkey⟩ := htype
    obtain ⟨key', hkey' | hkey'⟩ := h.type
    · rw [hkey, List.cons.injEq, Prod.mk.injEq, Json.str.injEq] at hkey'
      exact hkey'.1.2.symm
    · rw [hkey] at hkey'
      simp at hkey'
  simp only [fields, List.mem_cons] at hf
  rcases hf with rfl | rfl | rfl | hf
  · exact .inl h.target.length_named
  · rcases h.targetKey with hgiven | ⟨hnone, -⟩
    · exact .inl hgiven.length_named
    · exact .inr ⟨rfl, hnone⟩
  · exact .inl h.length_type
  · have hnames : f.1 ∈ r'.link.fields.map Prod.fst := by
      rw [map_fst_fields_of_word hword]
      exact List.mem_map_of_mem hf
    obtain ⟨g, hg, hgf⟩ := List.mem_map.mp hnames
    exact .inl (hgf ▸ (h.link g hg).length_named)

/-! ## Changes of a written form -/

section Changes

variable {name : String} {j : Json} {e : String × Json}

/-- A field that is given twice is refused. -/
theorem not_describes_of_twice (h : Spells own r.fields)
    (hextras : ∀ e ∈ extras, ∀ f ∈ r.fields, e.1 ∉ f.1) (hf : f ∈ r.fields) (hname : name ∈ f.1)
    (hes : es.Perm ((name, j) :: (own ++ extras))) : ¬ Describes es r' := by
  intro hdescribes
  have htwice : ∀ g ∈ r.fields, name ∈ g.1 → (named g.1 es).length = 2 := by
    intro g hg hname
    rw [(named_perm hes).length_eq, named_cons_of_mem hname, List.length_cons,
      (h.given_append hextras hg).length_named]
  have htype : (["type"], r.link.word) ∈ r.fields := by simp [fields]
  by_cases hmem : name ∈ ["type"]
  · have := htwice _ htype hmem
    rw [hdescribes.length_type] at this
    cases this
  · have hgiven : Given ["type"] es r.link.word := by
      obtain ⟨key, hkey⟩ := h.given_append hextras htype
      exact Given.of_perm hes ⟨key, by rw [named_cons_of_not_mem hmem, hkey]⟩
    have hlength := htwice f hf hname
    rcases hdescribes.length_named hgiven hf with hone | ⟨-, hnone⟩
    · omega
    · rw [hnone] at hlength
      cases hlength

/-- Without an entry, the fields that go by its key are gone and the others stay. -/
theorem named_of_without (h : Spells own r.fields)
    (hextras : ∀ e ∈ extras, ∀ f ∈ r.fields, e.1 ∉ f.1) (hf : f ∈ r.fields)
    (hes : (e :: es).Perm (own ++ extras)) :
    (e.1 ∈ f.1 → named f.1 es = []) ∧ (e.1 ∉ f.1 → Given f.1 es f.2) := by
  have hgiven : Given f.1 (e :: es) f.2 := Given.of_perm hes (h.given_append hextras hf)
  constructor
  · intro hmem
    have hlength := hgiven.length_named
    rw [named_cons_of_mem hmem, List.length_cons] at hlength
    exact List.eq_nil_of_length_eq_zero (by omega)
  · intro hmem
    obtain ⟨key, hkey⟩ := hgiven
    exact ⟨key, by rw [← hkey, named_cons_of_not_mem hmem]⟩

/-- A field that is left out is refused, unless it is the key of the target. -/
theorem not_describes_of_without (h : Spells own r.fields)
    (hextras : ∀ e ∈ extras, ∀ f ∈ r.fields, e.1 ∉ f.1) (he : e ∈ own)
    (hkey : e.1 ∉ targetKeyNames) (hes : (e :: es).Perm (own ++ extras)) : ¬ Describes es r' := by
  intro hdescribes
  obtain ⟨f, hf, hname⟩ := h.exists_mem e he
  have hnone : named f.1 es = [] := (named_of_without h hextras hf hes).1 hname
  obtain ⟨htyped, huntyped⟩ := named_of_without h hextras
    (by simp [fields] : (["type"], r.link.word) ∈ r.fields) hes
  by_cases htype : e.1 ∈ ["type"]
  · have hlength := hdescribes.length_type
    rw [htyped htype] at hlength
    cases hlength
  · rcases hdescribes.length_named (huntyped htype) hf with hone | ⟨hnames, -⟩
    · rw [hnone] at hone
      cases hone
    · exact hkey (hnames ▸ hname)

/-- Without its own entry the key of the target is the usual one. -/
theorem describes_of_without_targetKey (h : Spells own r.fields)
    (hextras : ∀ e ∈ extras, ∀ f ∈ r.fields, e.1 ∉ f.1) (hkey : e.1 ∈ targetKeyNames)
    (hes : (e :: es).Perm (own ++ extras)) : Describes es ⟨r.target, "id", r.link⟩ := by
  have hmem : (targetKeyNames, r.targetKey) ∈ r.fields := by simp [fields]
  refine describes_of_given_of_ne (fun f hf hne => ?_)
    ((named_of_without h hextras hmem hes).1 hkey)
  have hother : f ≠ (targetKeyNames, r.targetKey) := fun heq => hne (by rw [heq])
  exact (named_of_without h hextras hf hes).2 fun hname => fields_apart hf hmem hother _ hname hkey

end Changes

end Relation

/-! ## The object that a relation is written as -/

theorem Json.Tree.members_flat (level : Nat) (es : List (String × String)) :
    (Tree.object (es.map entryTree) none).members level = .ok (flat es) := by
  refine members_eq_ok_iff.mpr ⟨_, rfl, ?_⟩
  induction es with
  | nil => exact .nil
  | cons e es ih =>
    refine .cons ⟨text_quoted e.1, ?_⟩ ih
    simp [entryTree, json, text_quoted, Functor.map, Except.map]

namespace Relation

/-- The entries that a relation is written with. -/
def entries (r : Relation) : List (String × String) :=
  ("tableName", r.target) :: ("targetKey", r.targetKey) :: ("type", r.link.word) ::
    match r.link with
    | .oneToMany foreignKey => [("foreignKey", foreignKey)]
    | .manyToMany joinTable joinFrom joinTo =>
      [("joinTable", joinTable), ("joinFrom", joinFrom), ("joinTo", joinTo)]

theorem toJson_eq (r : Relation) : r.toJson = .obj (Json.flat r.entries) := by
  obtain ⟨target, targetKey, link⟩ := r
  cases link <;> rfl

theorem spells_entries (r : Relation) : Spells (Json.flat r.entries) r.fields := by
  obtain ⟨target, targetKey, link⟩ := r
  cases link <;>
    simp [Spells, Json.flat, entries, fields, Link.fields, targetNames, targetKeyNames,
      foreignKeyNames, joinTableNames, joinFromNames, joinToNames]

theorem readText_toJson (r : Relation) : Json.readText (read 0) r.toJson.compact = .ok r := by
  have hmembers := Json.Tree.members_flat 0 r.entries
  have hdescribes : Describes (Json.flat r.entries) r :=
    describes_of_given fun f hf => r.spells_entries.given r.fields_pairwise hf
  rw [toJson_eq, entries, Json.readText, Json.Source.ofString_flat, ← entries,
    read_eq_ofMembers hmembers, ofMembers_eq_ok_iff.mpr hdescribes]
  rfl

/-- A relation is read from what it is written as. Its own entries can come in any order and under
any of their names, among entries with other keys and whatever values. A field that is given twice
is refused, and so is one that is left out, except for the key of the target. -/
theorem read_written (r : Relation) :
    Json.readText (read 0) r.toJson.compact = .ok r ∧
      ∀ (level : Nat) (t : Json.Tree) (es own extras : List (String × Json)),
        t.members level = .ok es → Spells own r.fields →
        (∀ e ∈ extras, ∀ f ∈ r.fields, e.1 ∉ f.1) →
        (es.Perm (own ++ extras) → read level t = .ok r) ∧
        (∀ f ∈ r.fields, ∀ name ∈ f.1, ∀ j, es.Perm ((name, j) :: (own ++ extras)) →
          read level t = .error .mismatch) ∧
        ∀ e ∈ own, (e :: es).Perm (own ++ extras) →
          (e.1 ∈ targetKeyNames → read level t = .ok ⟨r.target, "id", r.link⟩) ∧
          (e.1 ∉ targetKeyNames → read level t = .error .mismatch) := by
  refine ⟨readText_toJson r, ?_⟩
  intro level t es own extras hes hown hextras
  rw [read_eq_ofMembers hes]
  refine ⟨?_, ?_, ?_⟩
  · intro hperm
    have hgiven : ∀ f ∈ r.fields, Given f.1 es f.2 := fun f hf =>
      Given.of_perm hperm (hown.given_append hextras hf)
    exact ofMembers_eq_ok_iff.mpr (describes_of_given hgiven)
  · intro f hf name hname j hperm
    exact ofMembers_eq_mismatch fun _ => not_describes_of_twice hown hextras hf hname hperm
  · intro e he hperm
    constructor
    · intro hkey
      exact ofMembers_eq_ok_iff.mpr (describes_of_without_targetKey hown hextras hkey hperm)
    · intro hkey
      exact ofMembers_eq_mismatch fun _ => not_describes_of_without hown hextras he hkey hperm

end Relation

namespace Respelled

/-- A relation through a join table. -/
def relation : Relation := ⟨"tags", "slug", .manyToMany "posts_tags" "post_id" "tag_id"⟩

/-- Its fields under other names than those it is written with. -/
def own : List (String × String) :=
  [("target_table", "tags"), ("target_key", "slug"), ("type", "manyToMany"),
    ("join_table", "posts_tags"), ("joinFromColumn", "post_id"), ("join_to", "tag_id")]

/-- Entries that mean nothing here; the first would be a field of a link without join table. -/
def extras : List (String × Json) := [("foreignKey", .arr [.null]), ("", .obj [])]

/-- An object with all these entries, the last one first. -/
def tree : Json.Tree :=
  .object [(Json.quoted "", .object [] none), (Json.quoted "foreignKey", .array [.null] none),
    Json.entryTree ("join_to", "tag_id"), Json.entryTree ("joinFromColumn", "post_id"),
    Json.entryTree ("join_table", "posts_tags"), Json.entryTree ("type", "manyToMany"),
    Json.entryTree ("target_key", "slug"), Json.entryTree ("target_table", "tags")] none

end Respelled

theorem Relation.read_written_respelled :
    (Respelled.tree.members 1 = .ok (Json.flat Respelled.own ++ Respelled.extras).reverse ∧
      Spells (Json.flat Respelled.own) Respelled.relation.fields ∧
      ∀ e ∈ Respelled.extras, ∀ f ∈ Respelled.relation.fields, e.1 ∉ f.1) ∧
      read 1 Respelled.tree = .ok Respelled.relation := by
  have hstring : ∀ (k s : String), (Json.entryTree (k, s)).1.text = .ok k ∧
      (Json.entryTree (k, s)).2.json 2 = .ok (.str s) := by
    intro k s
    simp [Json.entryTree, Json.Tree.json, Json.text_quoted, Functor.map, Except.map]
  have hmembers : Respelled.tree.members 1 =
      .ok (Json.flat Respelled.own ++ Respelled.extras).reverse := by
    refine Json.Tree.members_eq_ok_iff.mpr ⟨_, rfl, ?_⟩
    exact .cons ⟨Json.text_quoted _, rfl⟩ <| .cons ⟨Json.text_quoted _, rfl⟩ <|
      .cons (hstring _ _) <| .cons (hstring _ _) <| .cons (hstring _ _) <|
      .cons (hstring _ _) <| .cons (hstring _ _) <| .cons (hstring _ _) .nil
  have hown : Spells (Json.flat Respelled.own) Respelled.relation.fields :=
    .cons ⟨by decide, rfl⟩ <| .cons ⟨by decide, rfl⟩ <| .cons ⟨by decide, rfl⟩ <|
      .cons ⟨by decide, rfl⟩ <| .cons ⟨by decide, rfl⟩ <| .cons ⟨by decide, rfl⟩ .nil
  have hkeys : ∀ key ∈ Respelled.extras.map Prod.fst, ∀ f ∈ Respelled.relation.fields,
      key ∉ f.1 := by decide
  have hextras : ∀ e ∈ Respelled.extras, ∀ f ∈ Respelled.relation.fields, e.1 ∉ f.1 :=
    fun e he => hkeys e.1 (List.mem_map_of_mem he)
  exact ⟨⟨hmembers, hown, hextras⟩,
    ((read_written Respelled.relation).2 1 _ _ _ _ hmembers hown hextras).1 (List.reverse_perm _)⟩

end DocFilter
