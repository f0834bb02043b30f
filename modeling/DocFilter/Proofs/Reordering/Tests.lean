import DocFilter.Proofs.Placement.Slots
import DocFilter.Proofs.Value.Display

/-!
# The order of tests on a relation

What a reader sees of a test is its view: its role, its column, its comparator and the text of its
operand. Tests with different views have different sort keys as long as they have the same role and
no table has a point in its name. So tests are placed in the same order of views wherever they
stand, and since views are all that a placement looks at, they end up in partitions that look the
same (`Pending.map_view_placed`).
-/

namespace DocFilter

/-! ## Views -/

/-- What a reader sees of a test on a relation. -/
structure View where
  /-- What the test does in a subquery. -/
  role : Role
  /-- The column. -/
  ref : Column
  /-- The comparator. -/
  op : Comparator
  /-- The text of the operand. -/
  operand : String

/-- The view of a test. -/
def Pending.view (p : Pending) : View := ⟨p.role, p.field.ref, p.op, p.value.display⟩

namespace View

/-- What tests are ordered by. -/
def sortKey (w : View) : List String := [w.ref.text, w.op.token, w.operand]

/-- Whether a test does not come after another one. -/
def precedes (a b : View) : Bool := !b.sortKey.lex a.sortKey

theorem precedes_trans {a b c : View} (hab : a.precedes b = true) (hbc : b.precedes c = true) :
    a.precedes c = true := by
  rw [precedes, Bool.not_eq_true', List.lex_eq_false_iff_ge] at *
  exact List.le_trans hab hbc

theorem precedes_total (a b : View) : (a.precedes b || b.precedes a) = true := by
  rw [Bool.or_eq_true, precedes, precedes, Bool.not_eq_true', Bool.not_eq_true',
    List.lex_eq_false_iff_ge, List.lex_eq_false_iff_ge]
  exact List.le_total _ _

end View

theorem Column.text_injective {c d : Column} (hc : '.' ∉ c.table.toList)
    (hd : '.' ∉ d.table.toList) (h : c.text = d.text) : c = d := by
  have hlists : c.table.toList ++ '.' :: c.name.toList =
      d.table.toList ++ '.' :: d.name.toList := by
    simpa [text] using congrArg String.toList h
  -- the table is what stands before the first point
  have hbefore : ∀ l r : List Char, '.' ∉ l → (l ++ '.' :: r).takeWhile (· != '.') = l := by
    intro l r hl
    have hall : ∀ a ∈ l, (a != '.') = true := fun a ha => bne_iff_ne.mpr fun h => hl (h ▸ ha)
    rw [List.takeWhile_append_of_pos hall]
    simp
  have htable : c.table.toList = d.table.toList := by
    rw [← hbefore _ c.name.toList hc, ← hbefore _ d.name.toList hd, hlists]
  rw [htable, List.append_cancel_left_eq, List.cons.injEq] at hlists
  obtain ⟨_, _⟩ := c
  obtain ⟨_, _⟩ := d
  cases String.toList_injective htable
  cases String.toList_injective hlists.2
  rfl

theorem Comparator.token_injective {a b : Comparator} (h : a.token = b.token) : a = b := by
  cases a <;> cases b <;> first | rfl | exact absurd h (by decide)

theorem View.sortKey_eq {a b : View} (hab : a.precedes b = true) (hba : b.precedes a = true) :
    a.sortKey = b.sortKey := by
  rw [precedes, Bool.not_eq_true', List.lex_eq_false_iff_ge] at hab hba
  exact List.le_antisymm hab hba

theorem View.eq_of_sortKey {a b : View} (hrole : a.role = b.role) (ha : '.' ∉ a.ref.table.toList)
    (hb : '.' ∉ b.ref.table.toList) (h : a.sortKey = b.sortKey) : a = b := by
  simp only [sortKey, List.cons.injEq, and_true] at h
  obtain ⟨htext, htoken, hoperand⟩ := h
  obtain ⟨_, _, _, _⟩ := a
  obtain ⟨_, _, _, _⟩ := b
  cases hrole
  cases Column.text_injective ha hb htext
  cases Comparator.token_injective htoken
  cases hoperand
  rfl

/-! ## Operands without floats -/

/-- Operands that are read from JSON and hold no floats are told apart by their texts, and so tests
of one column with one comparator are told apart by their sort keys. -/
theorem Pending.sortKey_identifies {j k : Json} {a b : Value} (ha : Value.ofJson j = .ok a)
    (hb : Value.ofJson k = .ok b) (hafloats : ∀ v ∈ a.toList, v.isFloat = false)
    (hbfloats : ∀ v ∈ b.toList, v.isFloat = false) :
    (a.display = b.display ↔ a = b) ∧ ∀ p q : Pending, p.value = a → q.value = b →
      (p.sortKey = q.sortKey ↔
        p.field.ref.text = q.field.ref.text ∧ p.op = q.op ∧ p.value = q.value) := by
  have hadiscrete := (Value.ofJson_eq_ok_iff.mp ha).isDiscrete hafloats
  have hbdiscrete := (Value.ofJson_eq_ok_iff.mp hb).isDiscrete hbfloats
  have hdisplay : a.display = b.display ↔ a = b :=
    ⟨Value.display_injective hadiscrete hbdiscrete, fun h => by rw [h]⟩
  refine ⟨hdisplay, ?_⟩
  rintro p q rfl rfl
  have htoken : p.op.token = q.op.token ↔ p.op = q.op :=
    ⟨Comparator.token_injective, fun h => by rw [h]⟩
  simp only [RelatedTest.sortKey, List.cons.injEq, and_true, htoken, hdisplay]

namespace Lookalike

/-- A list with a string that looks like two, an integer beyond the signed words, and null. -/
def singleJson : Json := .arr [.str "a', 'b", .num (.nat 9223372036854775808), .null]

/-- A list with two strings, and the same rest. -/
def doubleJson : Json := .arr [.str "a", .str "b", .num (.nat 9223372036854775808), .null]

/-- The operand of the first list. -/
def single : Value := .list [.str "a', 'b", .uint 9223372036854775808, .null]

/-- The operand of the second list. -/
def double : Value := .list [.str "a", .str "b", .uint 9223372036854775808, .null]

end Lookalike

theorem Pending.sortKey_identifies_lookalike :
    (Value.ofJson Lookalike.singleJson = .ok Lookalike.single ∧
      Value.ofJson Lookalike.doubleJson = .ok Lookalike.double ∧
      (∀ v ∈ Lookalike.single.toList, v.isFloat = false) ∧
      ∀ v ∈ Lookalike.double.toList, v.isFloat = false) ∧
      Lookalike.single.display ≠ Lookalike.double.display := by
  have hsingle : Value.ofJson Lookalike.singleJson = .ok Lookalike.single := rfl
  have hdouble : Value.ofJson Lookalike.doubleJson = .ok Lookalike.double := rfl
  have hfloats : (∀ v ∈ Lookalike.single.toList, v.isFloat = false) ∧
      ∀ v ∈ Lookalike.double.toList, v.isFloat = false := ⟨by decide, by decide⟩
  refine ⟨⟨hsingle, hdouble, hfloats⟩, fun h => ?_⟩
  have hsame := (sortKey_identifies hsingle hdouble hfloats.1 hfloats.2).1.mp h
  exact absurd hsame (by decide)

/-! ## Order of placement -/

namespace Pending

theorem precedes_trans (p q r : Pending) (hpq : p.precedes q = true) (hqr : q.precedes r = true) :
    p.precedes r = true :=
  @View.precedes_trans p.view q.view r.view hpq hqr

theorem precedes_total (p q : Pending) : (p.precedes q || q.precedes p) = true :=
  View.precedes_total p.view q.view

theorem pairwise_ranked (ts : List Pending) :
    (ranked ts).Pairwise fun p q => p.precedes q = true :=
  List.pairwise_mergeSort precedes_trans precedes_total ts

theorem map_fst_ofRole (ts : List Pending) (role : Role) :
    (ofRole ts role).map Prod.fst = (ranked ts).filter (·.role == role) := by
  rw [ofRole, ← map_fst_rankedPairs, List.filter_map]
  rfl

theorem pairwise_ofRole (ts : List Pending) (role : Role) :
    ((ofRole ts role).map (·.1.view)).Pairwise fun a b => a.precedes b = true := by
  have hmap : (ofRole ts role).map (·.1.view) = ((ofRole ts role).map Prod.fst).map view := by
    rw [List.map_map]
    rfl
  rw [hmap, map_fst_ofRole, List.pairwise_map]
  exact (pairwise_ranked ts).filter _

variable {ts ts' : List Pending}

theorem mem_view_ofRole {role : Role} {w : View} (h : w ∈ (ofRole ts role).map (·.1.view)) :
    ∃ p ∈ ts, p.role = role ∧ p.view = w := by
  obtain ⟨m, hm, rfl⟩ := List.mem_map.mp h
  obtain ⟨hmem, hrole⟩ := mem_of_mem_ofRole hm
  exact ⟨m.1, hmem, hrole, rfl⟩

/-- Tests of one role with the same sort key look the same. -/
def Faithful (ts : List Pending) : Prop :=
  ∀ p ∈ ts, ∀ q ∈ ts, p.role = q.role → p.sortKey = q.sortKey → p.view = q.view

theorem faithful_of_plain (h : ∀ p ∈ ts, '.' ∉ p.field.table.toList) : Faithful ts :=
  fun p hp q hq hrole hkey => View.eq_of_sortKey hrole (h p hp) (h q hq) hkey

/-- Tests of one role are placed in the same order of views, wherever they stand. -/
theorem map_view_ofRole (h : ts.Perm ts') (hfaithful : Faithful ts) (role : Role) :
    (ofRole ts role).map (·.1.view) = (ofRole ts' role).map (·.1.view) := by
  have hranked : (ranked ts).Perm (ranked ts') :=
    (List.mergeSort_perm ts _).trans (h.trans (List.mergeSort_perm ts' _).symm)
  have hperm : ((ofRole ts role).map (·.1.view)).Perm ((ofRole ts' role).map (·.1.view)) := by
    have hfilter := (hranked.filter (·.role == role)).map view
    rwa [← map_fst_ofRole, ← map_fst_ofRole, List.map_map, List.map_map] at hfilter
  refine hperm.eq_of_pairwise (fun a b ha hb hab hba => ?_) (pairwise_ofRole ts role)
    (pairwise_ofRole ts' role)
  obtain ⟨p, hp, hprole, rfl⟩ := mem_view_ofRole ha
  obtain ⟨q, hq, hqrole, rfl⟩ := mem_view_ofRole hb
  exact hfaithful p hp q (h.mem_iff.mpr hq) (hprole.trans hqrole.symm) (View.sortKey_eq hab hba)

theorem map_view_placingOrder (h : ts.Perm ts') (hfaithful : Faithful ts) :
    (placingOrder ts.zipIdx).map (·.1.view) = (placingOrder ts'.zipIdx).map (·.1.view) := by
  rw [placingOrder_zipIdx, placingOrder_zipIdx]
  simp only [List.map_append, map_view_ofRole h hfaithful]

end Pending

/-! ## Placement -/

/-- What a reader sees of a partition. -/
def Partition.view (q : Partition) : Role × List View := (q.role, q.members.map (·.1.view))

section Placement

variable {p p' : Pending × Nat} {q q' : Partition} {qs qs' : List Partition}

/-- Whether a partition takes a test can be seen from the two. -/
theorem Partition.takes_congr (hq : q.view = q'.view) (hp : p.1.view = p'.1.view) (role : Role) :
    q.takes role p.1 = q'.takes role p'.1 := by
  have hconstrains : ∀ (r : Partition) (c : Column),
      r.constrains c = r.view.2.any fun w => w.ref == c := by
    intro r c
    rw [view, List.any_map]
    rfl
  have hrole : q.role = q'.role := congrArg Prod.fst hq
  have href : p.1.field.ref = p'.1.field.ref := congrArg View.ref hp
  rw [takes, takes, hconstrains, hconstrains, hrole, href, hq]

theorem Partition.view_add (hq : q.view = q'.view) (hp : p.1.view = p'.1.view) :
    (q.add p).view = (q'.add p').view := by
  obtain ⟨hrole, hmembers⟩ := Prod.mk.inj hq
  simp [view, add, hrole, hmembers, hp]

theorem map_view_joinFirst? (hqs : qs.map Partition.view = qs'.map Partition.view)
    (hp : p.1.view = p'.1.view) (role : Role) :
    (joinFirst? p role qs).map (List.map Partition.view) =
      (joinFirst? p' role qs').map (List.map Partition.view) := by
  induction qs generalizing qs' with
  | nil =>
    cases qs' with
    | nil => rfl
    | cons q' qs' => cases hqs
  | cons q qs ih =>
    cases qs' with
    | nil => cases hqs
    | cons q' qs' =>
      obtain ⟨hq, hrest⟩ := List.cons.inj hqs
      rw [joinFirst?, joinFirst?, Partition.takes_congr hq hp role]
      split
      · simp [Partition.view_add hq hp, hrest]
      · have htail := congrArg (Option.map (q.view :: ·)) (ih hrest)
        simpa [Function.comp_def, hq] using htail

/-- One step: tests that look the same are added to the same places. -/
theorem map_view_place (hqs : qs.map Partition.view = qs'.map Partition.view)
    (hp : p.1.view = p'.1.view) :
    (place qs p).map Partition.view = (place qs' p').map Partition.view := by
  have hrole : p.1.role = p'.1.role := congrArg View.role hp
  have hjoin : ∀ role, (Option.map (List.map Partition.view) ∘ fun r => joinFirst? p r qs) role =
      (Option.map (List.map Partition.view) ∘ fun r => joinFirst? p' r qs') role :=
    map_view_joinFirst? hqs hp
  have hopen : (qs ++ [Partition.single p]).map Partition.view =
      (qs' ++ [Partition.single p']).map Partition.view := by
    simp [hqs, Partition.single, Partition.view, hrole, hp]
  rw [place, place, ← Option.getD_map (List.map Partition.view),
    ← Option.getD_map (List.map Partition.view), List.map_findSome?, List.map_findSome?,
    funext hjoin, hrole, hopen]

theorem map_view_foldl_place {ms ms' : List (Pending × Nat)}
    (hms : ms.map (·.1.view) = ms'.map (·.1.view))
    (hqs : qs.map Partition.view = qs'.map Partition.view) :
    (ms.foldl place qs).map Partition.view = (ms'.foldl place qs').map Partition.view := by
  induction ms generalizing ms' qs qs' with
  | nil =>
    cases ms' with
    | nil => exact hqs
    | cons p' ms' => cases hms
  | cons p ms ih =>
    cases ms' with
    | nil => cases hms
    | cons p' ms' =>
      obtain ⟨hp, hrest⟩ := List.cons.inj hms
      rw [List.foldl_cons, List.foldl_cons]
      exact ih hrest (map_view_place hqs hp)

end Placement

/-- The same tests in another order end up in partitions that look the same. -/
theorem Pending.map_view_placed {ts ts' : List Pending} (h : ts.Perm ts')
    (hfaithful : Faithful ts) : (placed ts).map Partition.view = (placed ts').map Partition.view :=
  map_view_foldl_place (map_view_placingOrder h hfaithful) rfl

end DocFilter
