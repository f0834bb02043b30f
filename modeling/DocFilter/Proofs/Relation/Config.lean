import DocFilter.Proofs.Value.Reading
import DocFilter.Relation.Config

/-!
# Relations in configuration files

What a relation is read as depends only on the entries of its object, and not on their order
(`Relation.ofMembers_eq_ok_iff`): each of its fields has to be given once, as a string and under one
of its names. Any other object is refused for its shape, as long as its entries are JSON
(`Relation.ofMembers_eq_mismatch`).
-/

namespace DocFilter

/-! ## Entries -/

/-- The string that a JSON value is. -/
def Json.asString : Json → Except Json.Problem String
  | .str s => .ok s
  | _ => .error .mismatch

namespace Json.Tree

/-- An entry inside `level` arrays and objects. -/
def member (level : Nat) (e : Quoted × Tree) : Except Problem (String × Json) := do
  let key ← e.1.text
  let value ← e.2.json level
  return (key, value)

/-- The entries of an object inside `level` arrays and objects, just as they are written: a key can
come up several times. -/
def members (level : Nat) : Tree → Except Problem (List (String × Json))
  | .object entries stop => do
    let es ← entries.mapM (member (level + 1))
    noFault stop
    return es
  | t => .error t.mismatch

theorem member_eq_ok_iff {level : Nat} {e : Quoted × Tree} {m : String × Json} :
    member level e = .ok m ↔ e.1.text = .ok m.1 ∧ e.2.json level = .ok m.2 := by
  unfold member
  cases hkey : e.1.text with
  | error p => simp [bind, Except.bind]
  | ok key =>
    cases hvalue : e.2.json level with
    | error p => simp [bind, Except.bind]
    | ok value => simp [bind, Except.bind, pure, Except.pure, Prod.ext_iff]

theorem members_eq_ok_iff {level : Nat} {t : Tree} {es : List (String × Json)} :
    t.members level = .ok es ↔ ∃ entries, t = .object entries none ∧
      List.Forall₂ (fun e m => e.1.text = .ok m.1 ∧ e.2.json (level + 1) = .ok m.2) entries es := by
  simp only [← member_eq_ok_iff, ← mapM_eq_ok_iff]
  cases t with
  | object entries stop =>
    rw [members]
    cases hentries : entries.mapM (member (level + 1)) <;> cases stop <;>
      simp [hentries, bind, Except.bind, noFault, pure, Except.pure]
  | _ => simp [members]

theorem exists_of_json_array {level : Nat} {ts : List Tree} {stop : Option Fault} {j : Json}
    (h : (Tree.array ts stop).json level = .ok j) : ∃ js, j = .arr js := by
  rw [json] at h
  split at h
  · cases hts : jsonItems (level + 1) ts with
    | error p => simp [hts, bind, Except.bind] at h
    | ok js =>
      cases hstop : noFault stop with
      | error p => simp [hts, hstop, bind, Except.bind] at h
      | ok =>
        simp only [hts, hstop, bind, Except.bind, pure, Except.pure, Except.ok.injEq] at h
        exact ⟨js, h.symm⟩
  · cases h

theorem exists_of_json_object {level : Nat} {es : List (Quoted × Tree)} {stop : Option Fault}
    {j : Json} (h : (Tree.object es stop).json level = .ok j) : ∃ js, j = .obj js := by
  rw [json] at h
  split at h
  · cases hes : jsonEntries (level + 1) [] es with
    | error p => simp [hes, bind, Except.bind] at h
    | ok js =>
      cases hstop : noFault stop with
      | error p => simp [hes, hstop, bind, Except.bind] at h
      | ok =>
        simp only [hes, hstop, bind, Except.bind, pure, Except.pure, Except.ok.injEq] at h
        exact ⟨js, h.symm⟩
  · cases h

theorem string?_eq_asString {level : Nat} {t : Tree} {j : Json} (h : t.json level = .ok j) :
    t.string? = j.asString := by
  cases t with
  | null | bool =>
    rw [json] at h
    cases h
    rfl
  | number l =>
    rw [json] at h
    cases hl : l.number with
    | error p => simp [hl, Functor.map, Except.map] at h
    | ok n =>
      obtain rfl : .num n = j := by simpa [hl, Functor.map, Except.map] using h
      simp [string?, mismatch, json, hl, asString, Functor.map, Except.map]
  | string q =>
    rw [json] at h
    cases hq : q.text with
    | error p => simp [hq, Functor.map, Except.map] at h
    | ok s =>
      obtain rfl : .str s = j := by simpa [hq, Functor.map, Except.map] using h
      simpa [string?, asString] using hq
  | array ts stop =>
    obtain ⟨js, rfl⟩ := exists_of_json_array h
    rfl
  | object es stop =>
    obtain ⟨js, rfl⟩ := exists_of_json_object h
    rfl
  | broken f =>
    rw [json] at h
    cases h

end Json.Tree

namespace Relation

/-- The entries that go by one of the names. -/
def named (names : List String) (es : List (String × Json)) : List (String × Json) :=
  es.filter fun e => names.contains e.1

/-- A field is given once, as a string. -/
def Given (names : List String) (es : List (String × Json)) (s : String) : Prop :=
  ∃ key, named names es = [(key, .str s)]

end Relation

namespace Link

/-- The word for the type of a link. -/
def word : Link → String
  | .oneToMany _ => "oneToMany"
  | .manyToMany _ _ _ => "manyToMany"

/-- The number for the type of a link. -/
def position : Link → UInt64
  | .oneToMany _ => 0
  | .manyToMany _ _ _ => 1

/-- The fields of a link: their names and their values. -/
def fields : Link → List (List String × String)
  | .oneToMany foreignKey => [(Relation.foreignKeyNames, foreignKey)]
  | .manyToMany joinTable joinFrom joinTo =>
    [(Relation.joinTableNames, joinTable), (Relation.joinFromNames, joinFrom),
      (Relation.joinToNames, joinTo)]

/-- The entries give the type of a link, by its word or by its number. -/
def Typed (es : List (String × Json)) (l : Link) : Prop :=
  ∃ key, Relation.named ["type"] es = [(key, .str l.word)] ∨
    Relation.named ["type"] es = [(key, .num (.nat l.position))]

end Link

namespace Relation

/-- The entries give every field of the relation once; the key of the target may be left out. -/
structure Describes (es : List (String × Json)) (r : Relation) : Prop where
  target : Given targetNames es r.target
  targetKey : Given targetKeyNames es r.targetKey ∨
    named targetKeyNames es = [] ∧ r.targetKey = "id"
  type : r.link.Typed es
  link : ∀ f ∈ r.link.fields, Given f.1 es f.2

/-! ## Reading entry by entry -/

namespace Draft

/-- Takes one more entry, whose value is known. -/
def take (d : Draft) (e : String × Json) : Except Json.Problem Draft :=
  if targetNames.contains e.1 then
    if d.target.isSome then .error .mismatch
    else do return { d with target := some (← e.2.asString) }
  else if targetKeyNames.contains e.1 then
    if d.targetKey.isSome then .error .mismatch
    else do return { d with targetKey := some (← e.2.asString) }
  else .ok { d with others := d.others ++ [e] }

theorem add_eq_take {level : Nat} {t : Json.Tree} {e : String × Json}
    (h : t.json level = .ok e.2) (d : Draft) : d.add level e.1 t = d.take e := by
  unfold add take
  rw [Json.Tree.string?_eq_asString h, h]
  rfl

end Draft

theorem readEntries_eq_foldlM {level : Nat} {entries : List (Json.Quoted × Json.Tree)}
    {es : List (String × Json)}
    (h : List.Forall₂ (fun e m => e.1.text = .ok m.1 ∧ e.2.json level = .ok m.2) entries es)
    (d : Draft) : readEntries level d entries = es.foldlM Draft.take d := by
  induction h generalizing d with
  | nil => rfl
  | cons hhead _ ih =>
    obtain ⟨hkey, hvalue⟩ := hhead
    rw [List.foldlM_cons, ← Draft.add_eq_take hvalue]
    simp only [← ih, readEntries, List.foldlM_cons, hkey, bind, Except.bind]

/-- The relation that the entries of an object give. -/
def ofMembers (es : List (String × Json)) : Except Json.Problem Relation := do
  let d ← es.foldlM Draft.take {}
  d.relation

theorem read_eq_ofMembers {level : Nat} {t : Json.Tree} {es : List (String × Json)}
    (h : t.members level = .ok es) : read level t = ofMembers es := by
  obtain ⟨entries, rfl, hentries⟩ := Json.Tree.members_eq_ok_iff.mp h
  rw [read, readEntries_eq_foldlM hentries]
  rfl

/-- What is known of a field after further entries with its names. -/
def Takes (o : Option String) (es : List (String × Json)) (o' : Option String) : Prop :=
  es = [] ∧ o' = o ∨ o = none ∧ ∃ key s, es = [(key, .str s)] ∧ o' = some s

theorem Takes.append_iff {o o'' : Option String} {es es' : List (String × Json)} :
    Takes o (es ++ es') o'' ↔ ∃ o', Takes o es o' ∧ Takes o' es' o'' := by
  constructor
  · rintro (⟨hnil, rfl⟩ | ⟨rfl, key, s, hone, rfl⟩)
    · obtain ⟨rfl, rfl⟩ := List.append_eq_nil_iff.mp hnil
      exact ⟨o'', .inl ⟨rfl, rfl⟩, .inl ⟨rfl, rfl⟩⟩
    · rcases List.append_eq_singleton_iff.mp hone with ⟨rfl, rfl⟩ | ⟨rfl, rfl⟩
      · exact ⟨none, .inl ⟨rfl, rfl⟩, .inr ⟨rfl, key, s, rfl, rfl⟩⟩
      · exact ⟨some s, .inr ⟨rfl, key, s, rfl, rfl⟩, .inl ⟨rfl, rfl⟩⟩
  · rintro ⟨o', ⟨rfl, rfl⟩ | ⟨rfl, key, s, rfl, rfl⟩, h⟩
    · exact h
    · -- a field that is known takes no further entries
      obtain ⟨rfl, rfl⟩ | ⟨hnone, -⟩ := h
      · exact .inr ⟨rfl, key, s, rfl, rfl⟩
      · cases hnone

theorem takes_singleton_iff {o o' : Option String} {e : String × Json} :
    Takes o [e] o' ↔ o = none ∧ ∃ s, e.2 = .str s ∧ o' = some s := by
  constructor
  · rintro (⟨hnil, -⟩ | ⟨rfl, key, s, hone, rfl⟩)
    · cases hnil
    · cases hone
      exact ⟨rfl, s, rfl, rfl⟩
  · rintro ⟨rfl, s, hs, rfl⟩
    exact .inr ⟨rfl, e.1, s, by rw [← hs], rfl⟩

theorem takes_nil_iff {o o' : Option String} : Takes o [] o' ↔ o' = o := by
  simp [Takes]

/-- Whether a key names neither the target nor its key. -/
def isOther (key : String) : Bool := !targetNames.contains key && !targetKeyNames.contains key

theorem contains_targetKeyNames {key : String} (h : targetNames.contains key = true) :
    targetKeyNames.contains key = false := by
  have hdisjoint : ∀ name ∈ targetNames, targetKeyNames.contains name = false := by decide
  exact hdisjoint key (List.contains_iff_mem.mp h)

theorem take_eq_ok_iff {d d' : Draft} {e : String × Json} : d.take e = .ok d' ↔
    Takes d.target (named targetNames [e]) d'.target ∧
      Takes d.targetKey (named targetKeyNames [e]) d'.targetKey ∧
      d'.others = d.others ++ [e].filter (isOther ·.1) := by
  obtain ⟨target, targetKey, others⟩ := d
  obtain ⟨target', targetKey', others'⟩ := d'
  unfold Draft.take named isOther
  cases htarget : targetNames.contains e.1 with
  | true =>
    have hkey := contains_targetKeyNames htarget
    simp only [List.filter_cons, List.filter_nil, htarget, hkey, if_true, Bool.not_true,
      Bool.false_and, Bool.false_eq_true, if_false, takes_singleton_iff, takes_nil_iff]
    cases target <;> cases e.2 <;>
      simp [Json.asString, bind, Except.bind, pure, Except.pure, eq_comm]
  | false =>
    cases hkey : targetKeyNames.contains e.1 with
    | true =>
      simp only [List.filter_cons, List.filter_nil, htarget, hkey, if_true, Bool.not_true,
        Bool.and_false, Bool.false_eq_true, if_false, takes_singleton_iff, takes_nil_iff]
      cases targetKey <;> cases e.2 <;>
        simp [Json.asString, bind, Except.bind, pure, Except.pure, eq_comm]
    | false =>
      simp only [List.filter_cons, List.filter_nil, htarget, hkey, if_true, Bool.not_false,
        Bool.and_true, Bool.false_eq_true, if_false, takes_nil_iff]
      simp [eq_comm]

theorem foldlM_take_eq_ok_iff {d d' : Draft} {es : List (String × Json)} :
    es.foldlM Draft.take d = .ok d' ↔
      Takes d.target (named targetNames es) d'.target ∧
        Takes d.targetKey (named targetKeyNames es) d'.targetKey ∧
        d'.others = d.others ++ es.filter (isOther ·.1) := by
  induction es generalizing d with
  | nil =>
    obtain ⟨target, targetKey, others⟩ := d
    obtain ⟨target', targetKey', others'⟩ := d'
    simp [named, takes_nil_iff, pure, Except.pure, eq_comm]
  | cons e es ih =>
    have hsplit : ∀ p : String × Json → Bool, (e :: es).filter p = [e].filter p ++ es.filter p :=
      fun p => by rw [← List.filter_append, List.singleton_append]
    have hbind : (e :: es).foldlM Draft.take d = .ok d' ↔
        ∃ d₁, d.take e = .ok d₁ ∧ es.foldlM Draft.take d₁ = .ok d' := by
      rw [List.foldlM_cons]
      cases htake : d.take e <;> simp [bind, Except.bind]
    rw [hbind]
    simp only [ih, take_eq_ok_iff]
    unfold named
    rw [hsplit, hsplit, hsplit, Takes.append_iff, Takes.append_iff, ← List.append_assoc]
    constructor
    · rintro ⟨d₁, ⟨htarget, hkey, hothers⟩, htarget', hkey', hothers'⟩
      exact ⟨⟨_, htarget, htarget'⟩, ⟨_, hkey, hkey'⟩, by rw [hothers', hothers]⟩
    · rintro ⟨⟨target, htarget, htarget'⟩, ⟨key, hkey, hkey'⟩, hothers⟩
      exact ⟨⟨target, key, _⟩, ⟨htarget, hkey, rfl⟩, htarget', hkey', hothers⟩

/-! ## Complete objects -/

theorem named_type (es : List (String × Json)) :
    named ["type"] es = es.filter fun e => e.1 == "type" :=
  List.filter_congr fun e _ => by rw [Bool.eq_iff_iff]; simp

namespace Draft

variable {d : Draft}

theorem field_eq_ok_iff {names : List String} {s : String} :
    d.field names = .ok s ↔ Given names d.others s := by
  unfold field Given named
  split
  · next key s' hone =>
    rw [hone]
    simp
  · next hother =>
    refine iff_of_false (by simp) ?_
    rintro ⟨key, hone⟩
    exact hother key s hone

theorem oneToMany_eq_ok_iff {l : Link} : link.oneToMany d = .ok l ↔
    l.word = "oneToMany" ∧ l.position = 0 ∧ ∀ f ∈ l.fields, Given f.1 d.others f.2 := by
  simp only [← field_eq_ok_iff]
  unfold link.oneToMany
  cases l with
  | oneToMany foreignKey =>
    cases hkey : d.field foreignKeyNames <;>
      simp [bind, Except.bind, pure, Except.pure, Link.word, Link.position, Link.fields, hkey]
  | manyToMany joinTable joinFrom joinTo =>
    cases d.field foreignKeyNames <;> simp [bind, Except.bind, pure, Except.pure, Link.word]

theorem manyToMany_eq_ok_iff {l : Link} : link.manyToMany d = .ok l ↔
    l.word = "manyToMany" ∧ l.position = 1 ∧ ∀ f ∈ l.fields, Given f.1 d.others f.2 := by
  simp only [← field_eq_ok_iff]
  unfold link.manyToMany
  cases l with
  | oneToMany foreignKey =>
    cases d.field joinTableNames <;> cases d.field joinFromNames <;> cases d.field joinToNames <;>
      simp [bind, Except.bind, pure, Except.pure, Link.word]
  | manyToMany joinTable joinFrom joinTo =>
    cases htable : d.field joinTableNames <;> cases hfrom : d.field joinFromNames <;>
      cases hto : d.field joinToNames <;>
        simp [bind, Except.bind, pure, Except.pure, Link.word, Link.position, Link.fields, htable,
          hfrom, hto]

theorem link_eq_ok_iff {l : Link} :
    d.link = .ok l ↔ l.Typed d.others ∧ ∀ f ∈ l.fields, Given f.1 d.others f.2 := by
  unfold Link.Typed
  rw [named_type]
  constructor
  · intro h
    unfold link at h
    split at h
    · next key htype =>
      obtain ⟨hword, -, hfields⟩ := oneToMany_eq_ok_iff.mp h
      exact ⟨⟨key, .inl (by rw [htype, hword])⟩, hfields⟩
    · next key htype =>
      obtain ⟨-, hposition, hfields⟩ := oneToMany_eq_ok_iff.mp h
      exact ⟨⟨key, .inr (by rw [htype, hposition])⟩, hfields⟩
    · next key htype =>
      obtain ⟨hword, -, hfields⟩ := manyToMany_eq_ok_iff.mp h
      exact ⟨⟨key, .inl (by rw [htype, hword])⟩, hfields⟩
    · next key htype =>
      obtain ⟨-, hposition, hfields⟩ := manyToMany_eq_ok_iff.mp h
      exact ⟨⟨key, .inr (by rw [htype, hposition])⟩, hfields⟩
    · cases h
  · rintro ⟨⟨key, htype⟩, hfields⟩
    cases l with
    | oneToMany foreignKey =>
      have hlink := oneToMany_eq_ok_iff.mpr ⟨rfl, rfl, hfields⟩
      rcases htype with htype | htype <;> rw [link, htype] <;> exact hlink
    | manyToMany joinTable joinFrom joinTo =>
      have hlink := manyToMany_eq_ok_iff.mpr ⟨rfl, rfl, hfields⟩
      rcases htype with htype | htype <;> rw [link, htype] <;> exact hlink

theorem relation_eq_ok_iff {r : Relation} : d.relation = .ok r ↔
    d.target = some r.target ∧ d.targetKey.getD "id" = r.targetKey ∧ d.link = .ok r.link := by
  obtain ⟨target, targetKey, link⟩ := r
  unfold relation
  cases d.target with
  | none => simp
  | some target' => cases d.link <;> simp [bind, Except.bind, pure, Except.pure]

end Draft

theorem named_filter_isOther {names : List String} (h : ∀ name ∈ names, isOther name = true)
    (es : List (String × Json)) : named names (es.filter (isOther ·.1)) = named names es := by
  unfold named
  rw [List.filter_filter]
  refine List.filter_congr fun e _ => ?_
  rw [Bool.eq_iff_iff, Bool.and_eq_true, and_iff_left_iff_imp]
  exact fun he => h e.1 (List.contains_iff_mem.mp he)

theorem isOther_of_mem_fields {l : Link} {f : List String × String} (hf : f ∈ l.fields) :
    ∀ name ∈ f.1, isOther name = true := by
  have hone : ∀ names ∈ [foreignKeyNames], ∀ name ∈ names, isOther name = true := by decide
  have hmany : ∀ names ∈ [joinTableNames, joinFromNames, joinToNames], ∀ name ∈ names,
      isOther name = true := by decide
  have hnames : f.1 ∈ l.fields.map Prod.fst := List.mem_map_of_mem hf
  cases l with
  | oneToMany foreignKey => exact hone f.1 hnames
  | manyToMany joinTable joinFrom joinTo => exact hmany f.1 hnames

/-- A relation is read from entries exactly if they describe it. -/
theorem ofMembers_eq_ok_iff {es : List (String × Json)} {r : Relation} :
    ofMembers es = .ok r ↔ Describes es r := by
  have hbind : ofMembers es = .ok r ↔
      ∃ d, es.foldlM Draft.take {} = .ok d ∧ d.relation = .ok r := by
    unfold ofMembers
    cases hfold : es.foldlM Draft.take {} <;> simp [bind, Except.bind]
  have htype : r.link.Typed (es.filter (isOther ·.1)) ↔ r.link.Typed es := by
    unfold Link.Typed
    rw [named_filter_isOther (by decide)]
  have hfields : ∀ f ∈ r.link.fields,
      (Given f.1 (es.filter (isOther ·.1)) f.2 ↔ Given f.1 es f.2) := by
    intro f hf
    unfold Given
    rw [named_filter_isOther (isOther_of_mem_fields hf)]
  rw [hbind]
  simp only [foldlM_take_eq_ok_iff, Draft.relation_eq_ok_iff, Draft.link_eq_ok_iff]
  constructor
  · rintro ⟨⟨target, targetKey, others⟩, ⟨htarget, hkey, rfl⟩, hsome, hdefault, htyped, hlink⟩
    refine ⟨?_, ?_, htype.mp htyped, fun f hf => (hfields f hf).mp (hlink f hf)⟩
    · obtain ⟨-, rfl⟩ | ⟨-, key, s, hone, rfl⟩ := htarget
      · cases hsome
      · exact ⟨key, by rw [hone, Option.some.inj hsome]⟩
    · obtain ⟨hnone, rfl⟩ | ⟨-, key, s, hone, rfl⟩ := hkey
      · exact .inr ⟨hnone, hdefault.symm⟩
      · exact .inl ⟨key, by rw [hone, ← hdefault]; rfl⟩
  · intro h
    obtain ⟨target, htarget⟩ := h.target
    have hlink : r.link.Typed (es.filter (isOther ·.1)) ∧
        ∀ f ∈ r.link.fields, Given f.1 (es.filter (isOther ·.1)) f.2 :=
      ⟨htype.mpr h.type, fun f hf => (hfields f hf).mpr (h.link f hf)⟩
    obtain ⟨key, hkey⟩ | ⟨hnone, hdefault⟩ := h.targetKey
    · exact ⟨⟨some r.target, some r.targetKey, es.filter (isOther ·.1)⟩,
        ⟨.inr ⟨rfl, target, r.target, htarget, rfl⟩, .inr ⟨rfl, key, r.targetKey, hkey, rfl⟩, rfl⟩,
        rfl, rfl, hlink⟩
    · exact ⟨⟨some r.target, none, es.filter (isOther ·.1)⟩,
        ⟨.inr ⟨rfl, target, r.target, htarget, rfl⟩, .inl ⟨hnone, rfl⟩, rfl⟩,
        rfl, hdefault.symm, hlink⟩

/-! ## Refused objects -/

/-- A reading fails because of a wrong shape, if at all. -/
def Shaped {α : Type} (x : Except Json.Problem α) : Prop := ∀ p, x = .error p → p = .mismatch

theorem Shaped.ok {α : Type} (a : α) : Shaped (.ok a) := fun _ h => by cases h

theorem Shaped.mismatch {α : Type} : Shaped (.error .mismatch : Except Json.Problem α) :=
  fun _ h => by cases h; rfl

theorem Shaped.bind {α β : Type} {x : Except Json.Problem α} {f : α → Except Json.Problem β}
    (hx : Shaped x) (hf : ∀ a, Shaped (f a)) : Shaped (x >>= f) := by
  cases x with
  | error q =>
    intro p h
    cases h
    exact hx _ rfl
  | ok a => exact hf a

theorem Shaped.foldlM {α β : Type} {f : β → α → Except Json.Problem β}
    (hf : ∀ b a, Shaped (f b a)) (as : List α) (b : β) : Shaped (as.foldlM f b) := by
  induction as generalizing b with
  | nil => exact .ok b
  | cons a as ih =>
    rw [List.foldlM_cons]
    exact (hf b a).bind ih

theorem shaped_asString (j : Json) : Shaped j.asString := by
  cases j with
  | str s => exact .ok s
  | _ => exact .mismatch

theorem shaped_take (d : Draft) (e : String × Json) : Shaped (d.take e) := by
  unfold Draft.take
  split
  · split
    · exact .mismatch
    · exact (shaped_asString e.2).bind fun _ => .ok _
  · split
    · split
      · exact .mismatch
      · exact (shaped_asString e.2).bind fun _ => .ok _
    · exact .ok _

theorem shaped_field (d : Draft) (names : List String) : Shaped (d.field names) := by
  unfold Draft.field
  split
  · exact .ok _
  · exact .mismatch

theorem shaped_link (d : Draft) : Shaped d.link := by
  have hone : Shaped (Draft.link.oneToMany d) := (shaped_field d _).bind fun _ => .ok _
  have hmany : Shaped (Draft.link.manyToMany d) :=
    (shaped_field d _).bind fun _ => (shaped_field d _).bind fun _ =>
      (shaped_field d _).bind fun _ => .ok _
  unfold Draft.link
  split
  · exact hone
  · exact hone
  · exact hmany
  · exact hmany
  · exact .mismatch

theorem shaped_ofMembers (es : List (String × Json)) : Shaped (ofMembers es) := by
  refine (Shaped.foldlM shaped_take es {}).bind fun d => ?_
  unfold Draft.relation
  split
  · exact .mismatch
  · exact (shaped_link d).bind fun _ => .ok _

theorem ofMembers_eq_mismatch {es : List (String × Json)} (h : ∀ r, ¬ Describes es r) :
    ofMembers es = .error .mismatch := by
  cases hes : ofMembers es with
  | ok r => exact absurd (ofMembers_eq_ok_iff.mp hes) (h r)
  | error p => rw [shaped_ofMembers es p hes]

end Relation

end DocFilter
