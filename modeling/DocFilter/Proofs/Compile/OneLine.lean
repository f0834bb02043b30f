import DocFilter.Proofs.Accounting.Document
import DocFilter.Proofs.Compile.Strictness
import DocFilter.Proofs.Sql.Assembly
import DocFilter.Proofs.Value.Display

/-!
# Texts on one line

JSON without blanks, numbers and the reasons in diagnostics never break a line, whatever they quote.
Operands and the paths and operators in diagnostics are shown as the document has them. So if no key
and no string of a document breaks a line, then neither does any parameter or diagnostic of what the
document is compiled to (`compile_oneLine`).
-/

namespace DocFilter

/-- A text that does not break a line. -/
def OneLine (text : String) : Prop := '\n' ∉ text.toList

instance (text : String) : Decidable (OneLine text) := inferInstanceAs (Decidable (_ ∉ _))

@[simp] theorem oneLine_append {a b : String} : OneLine (a ++ b) ↔ OneLine a ∧ OneLine b := by
  simp [OneLine]

@[simp] theorem oneLine_ofList {cs : List Char} : OneLine (String.ofList cs) ↔ '\n' ∉ cs := by
  simp [OneLine]

theorem oneLine_intercalate {separator : String} (hseparator : OneLine separator)
    {texts : List String} (h : ∀ t ∈ texts, OneLine t) :
    OneLine (separator.intercalate texts) := by
  induction texts with
  | nil => simp [OneLine]
  | cons t texts ih =>
    obtain ⟨ht, htexts⟩ := List.forall_mem_cons.mp h
    cases texts with
    | nil => simpa using ht
    | cons u texts =>
      rw [String.intercalate_cons_cons, oneLine_append, oneLine_append]
      exact ⟨⟨ht, hseparator⟩, ih htexts⟩

/-! ## Numbers -/

theorem newline_notMem_of_isDigit {cs : List Char} (h : ∀ c ∈ cs, c.isDigit = true) : '\n' ∉ cs :=
  fun hmem => absurd (h _ hmem) (by decide)

theorem newline_notMem_toDigits (n : Nat) : '\n' ∉ Nat.toDigits 10 n :=
  newline_notMem_of_isDigit fun _ => Nat.isDigit_of_mem_toDigits (by decide) (by decide)

theorem oneLine_toString_int (i : Int) : OneLine (toString i) :=
  fun hmem => absurd (Value.isDigit_of_mem_toString hmem) (by decide)

theorem oneLine_toString_nat (n : Nat) : OneLine (toString n) := oneLine_toString_int n

theorem Decimal.newline_notMem_scientific (d : Decimal) : '\n' ∉ d.scientific := by
  have hdigits := newline_notMem_toDigits d.digits
  have horder := newline_notMem_toDigits d.order.natAbs
  have hexponent : '\n' ∉ 'e' :: (if 0 ≤ d.order then '+' else '-') ::
      Nat.toDigits 10 d.order.natAbs := by
    split <;> simpa using horder
  rw [scientific]
  generalize 'e' :: _ :: _ = exponent at hexponent ⊢
  split <;> simp_all

namespace NumberStyle

theorem oneLine_decimal {style : NumberStyle} (hwhole : OneLine style.whole) (d : Decimal) :
    OneLine (style.decimal d) := by
  have hbefore : '\n' ∉ d.split.1 :=
    newline_notMem_of_isDigit fun _ hc => Decimal.isDigit_of_mem_split (.inl hc)
  have hafter : '\n' ∉ d.split.2 :=
    newline_notMem_of_isDigit fun _ hc => Decimal.isDigit_of_mem_split (.inr hc)
  unfold decimal
  split
  · split <;> simp_all [OneLine]
  · exact oneLine_ofList.mpr d.newline_notMem_scientific

theorem oneLine_write {style : NumberStyle} (hwhole : OneLine style.whole) (x : Binary64) :
    OneLine (style.write x) := by
  rw [write, oneLine_append]
  exact ⟨by split <;> decide, oneLine_decimal hwhole _⟩

end NumberStyle

theorem Binary64.oneLine_display (x : Binary64) : OneLine x.display := by
  unfold display
  split
  · decide
  · split
    · exact NumberStyle.oneLine_write (by decide) x
    · split <;> decide

/-! ## JSON -/

namespace Json

theorem newline_notMem_escape (c : Char) : '\n' ∉ escape c := by
  have hhex : ∀ n < 16, hexDigit n ≠ '\n' := by decide
  unfold escape
  split
  case h_8 hnewline _ _ =>
    split
    · next hcontrol =>
      have hhigh := hhex (c.toNat / 16) (by omega)
      have hlow := hhex (c.toNat % 16) (by omega)
      simp [hhigh.symm, hlow.symm]
    · simpa using Ne.symm hnewline
  all_goals decide

theorem oneLine_quote (s : String) : OneLine (quote s) := by
  have hescaped : '\n' ∉ s.toList.flatMap escape := by
    intro hmem
    obtain ⟨c, -, hc⟩ := List.mem_flatMap.mp hmem
    exact newline_notMem_escape c hc
  rw [quote, oneLine_append, oneLine_append]
  exact ⟨⟨by decide, oneLine_ofList.mpr hescaped⟩, by decide⟩

theorem Number.oneLine_text (n : Number) : OneLine n.text := by
  cases n with
  | nat n => exact oneLine_toString_nat _
  | neg i => exact oneLine_toString_int _
  | real x => exact NumberStyle.oneLine_write (by decide) x

mutual

/-- Strings and keys are written with escapes, so that no line is broken. -/
theorem oneLine_compact : ∀ j : Json, OneLine j.compact
  | .null => by decide
  | .bool b => by cases b <;> decide
  | .num n => by
    rw [compact]
    exact n.oneLine_text
  | .str s => by
    rw [compact]
    exact oneLine_quote s
  | .arr items => by
    have hitems := oneLine_intercalate (by decide : OneLine ",") (oneLine_compactItems items)
    rw [compact, oneLine_append, oneLine_append]
    exact ⟨⟨by decide, hitems⟩, by decide⟩
  | .obj entries => by
    have hentries := oneLine_intercalate (by decide : OneLine ",") (oneLine_compactEntries entries)
    rw [compact, oneLine_append, oneLine_append]
    exact ⟨⟨by decide, hentries⟩, by decide⟩

theorem oneLine_compactItems : ∀ items, ∀ t ∈ compactItems items, OneLine t
  | [] => by simp [compactItems]
  | j :: js => by
    rw [compactItems]
    exact List.forall_mem_cons.mpr ⟨oneLine_compact j, oneLine_compactItems js⟩

theorem oneLine_compactEntries : ∀ entries, ∀ t ∈ compactEntries entries, OneLine t
  | [] => by simp [compactEntries]
  | (key, j) :: entries => by
    have hentry : OneLine (quote key ++ ":" ++ j.compact) := by
      rw [oneLine_append, oneLine_append]
      exact ⟨⟨oneLine_quote key, by decide⟩, oneLine_compact j⟩
    rw [compactEntries]
    exact List.forall_mem_cons.mpr ⟨hentry, oneLine_compactEntries entries⟩

end

theorem oneLine_kind (j : Json) : OneLine j.kind := by
  cases j <;> simp [kind, OneLine]

mutual

/-- The keys and strings in a JSON value, at every depth. -/
def texts : Json → List String
  | .str s => [s]
  | .arr items => itemTexts items
  | .obj entries => entryTexts entries
  | .null => []
  | .bool _ => []
  | .num _ => []

/-- The keys and strings in the items of an array. -/
def itemTexts : List Json → List String
  | [] => []
  | j :: js => j.texts ++ itemTexts js

/-- The keys and strings in the entries of an object. -/
def entryTexts : List (String × Json) → List String
  | [] => []
  | (key, j) :: entries => key :: j.texts ++ entryTexts entries

end

theorem forall_entryTexts {P : String → Prop} {entries : List (String × Json)} :
    (∀ t ∈ entryTexts entries, P t) ↔ ∀ e ∈ entries, P e.1 ∧ ∀ t ∈ e.2.texts, P t := by
  induction entries with
  | nil => simp [entryTexts]
  | cons e entries ih =>
    rw [entryTexts, List.forall_mem_cons, ← ih, List.cons_append, List.forall_mem_cons,
      List.forall_mem_append, and_assoc]

end Json

/-- The keys and strings in a document, at every depth. -/
def Document.texts (d : Document) : List String := Json.entryTexts d.entries

/-! ## Operands -/

namespace Value

theorem Represents.mem_texts {j : Json} {v : Value} (h : Represents j v) {s : String}
    (hs : .str s ∈ v.toList) : s ∈ j.texts := by
  cases h with
  | scalar h =>
    rw [toList_of_not_isList h.isList, List.mem_singleton] at hs
    subst hs
    cases h
    simp [Json.texts]
  | list h =>
    rw [Json.texts]
    induction h with
    | nil => cases hs
    | cons hhead _ ih =>
      rw [Json.itemTexts, List.mem_append]
      rcases List.mem_cons.mp hs with rfl | hs
      · cases hhead
        simp [Json.texts]
      · exact .inr (ih hs)

theorem Scalar.oneLine_display {j : Json} {v : Value} (h : Scalar j v)
    (hstr : ∀ s, v = .str s → OneLine s) : OneLine v.display := by
  cases h with
  | null => decide
  | bool b => cases b <;> decide
  | int => exact oneLine_toString_int _
  | uint => exact oneLine_toString_nat _
  | float x => exact x.oneLine_display
  | str s =>
    have hdouble : '\n' ∉ Quote.double '\x27' s.toList := by
      intro hmem
      obtain ⟨c, hc, hmem⟩ := List.mem_flatMap.mp hmem
      split at hmem
      · simp at hmem
      · exact hstr s rfl (List.mem_singleton.mp hmem ▸ hc)
    simpa [display, Quote.enclose, OneLine] using hdouble

theorem Represents.oneLine_display {j : Json} {v : Value} (h : Represents j v)
    (hj : ∀ t ∈ j.texts, OneLine t) : ∀ i ∈ v.toList, OneLine i.display := by
  intro i hi
  obtain ⟨item, hitem⟩ := h.scalar_of_mem i hi
  exact hitem.oneLine_display fun s hs => hj s (h.mem_texts (hs ▸ hi))

theorem ReadError.oneLine_message (e : ReadError) : OneLine e.message := by
  cases e with
  | object entries =>
    show OneLine ("Objects cannot be used as filter values: " ++ (Json.obj entries).compact)
    exact oneLine_append.mpr ⟨by simp [OneLine], (Json.obj entries).oneLine_compact⟩
  | nestedArray items =>
    show OneLine ("Nested arrays are not supported as filter values: " ++ (Json.arr items).compact)
    exact oneLine_append.mpr ⟨by simp [OneLine], (Json.arr items).oneLine_compact⟩

end Value

/-- The reasons about a comparator begin with its token. -/
theorem Comparator.oneLine_reason (op : Comparator) {text : String} (h : OneLine text) :
    OneLine (s!"`{op.token}{text}") := by
  have htoken : OneLine op.token := by cases op <;> decide
  simp only [oneLine_append]
  exact ⟨⟨by decide, htoken⟩, h⟩

/-- The values that an operand asks for are among those of the JSON value that it is read from. -/
theorem Operand.exists_of_read {op : Comparator} {j : Json} {o : Operand}
    (h : Operand.read op j = .ok o) :
    ∃ v, Value.Represents j v ∧ ∀ i ∈ o.value.toList, i ∈ v.toList := by
  unfold Operand.read at h
  split at h
  · cases h
  · next hnull =>
    split at h
    · cases h
    · cases h
      exact ⟨_, Value.ofJson_eq_ok_iff.mp hnull, fun i hi => hi⟩
  · next v _ hv =>
    have hrepresents := Value.ofJson_eq_ok_iff.mp hv
    split at h
    · cases h
      exact ⟨v, hrepresents, fun i hi => List.mem_of_mem_filter hi⟩
    · split at h
      · cases h
      · cases h
        exact ⟨v, hrepresents, fun i hi => hi⟩

theorem Operand.oneLine_of_read {op : Comparator} {j : Json} {o : Operand}
    (h : Operand.read op j = .ok o) (hj : ∀ t ∈ j.texts, OneLine t) :
    ∀ i ∈ o.value.toList, OneLine i.display := by
  obtain ⟨v, hv, hitems⟩ := Operand.exists_of_read h
  exact fun i hi => hv.oneLine_display hj i (hitems i hi)

/-- The reason why there is no operand quotes JSON only. -/
theorem Operand.oneLine_of_read_error {op : Comparator} {j : Json} {reason : String}
    (h : Operand.read op j = .error reason) : OneLine reason := by
  unfold Operand.read at h
  split at h
  · cases h
    exact Value.ReadError.oneLine_message _
  · split at h
    · cases h
      exact op.oneLine_reason (by decide)
    · cases h
  · split at h
    · cases h
    · split at h
      · cases h
        exact op.oneLine_reason (by decide)
      · cases h

theorem Field.oneLine_of_resolve {registry : Registry} {base path reason : String}
    (h : Field.resolve registry base path = .error (.malformed reason)) : OneLine reason := by
  unfold Field.resolve at h
  split at h
  · split at h
    · cases h
      decide
    · cases h
  · split at h
    · cases h
      decide
    · split at h
      · cases h
      · split at h
        · cases h
        · split at h <;> cases h

/-! ## Clauses -/

namespace Clause

/-- A clause whose operand, or whose diagnostic, is shown on one line. -/
def Unbroken : Clause → Prop
  | .own _ _ operand => ∀ v ∈ operand.value.toList, OneLine v.display
  | .related p => ∀ v ∈ p.value.toList, OneLine v.display
  | .skipped d => OneLine d.message
  | .unknown _ _ => True
  | .group _ _ _ => True

theorem oneLine_joinPath {path key : String} (hpath : OneLine path) (hkey : OneLine key) :
    OneLine (joinPath path key) := by
  unfold joinPath
  split
  · exact hkey
  · rw [oneLine_append, oneLine_append]
    exact ⟨⟨hpath, by decide⟩, hkey⟩

theorem oneLine_elementPath {path : String} (hpath : OneLine path) (index : Nat) :
    OneLine (elementPath path index) := by
  rw [elementPath, oneLine_append, oneLine_append, oneLine_append]
  exact ⟨⟨⟨hpath, by decide⟩, oneLine_toString_nat index⟩, by decide⟩

theorem unbroken_malformed {path reason : String} (hpath : OneLine path)
    (hreason : OneLine reason) : (malformed path reason).Unbroken := by
  show OneLine (s!"malformed filter at `{path}`: {reason}")
  simp only [oneLine_append]
  exact ⟨⟨⟨by decide, hpath⟩, by decide⟩, hreason⟩

theorem unbroken_unrecognized {path key : String} (hpath : OneLine path) (hkey : OneLine key) :
    (unrecognized path key).Unbroken := by
  show OneLine (s!"unrecognized operator `{key}` at `{path}`")
  simp only [oneLine_append]
  exact ⟨⟨⟨⟨by decide, hkey⟩, by decide⟩, hpath⟩, by decide⟩

theorem unbroken_test (field : Field) (op : Comparator) {path : String} {j : Json}
    (hpath : OneLine path) (hj : ∀ t ∈ j.texts, OneLine t) : (test field op path j).Unbroken := by
  unfold test
  split
  · next reason hread => exact unbroken_malformed hpath (Operand.oneLine_of_read_error hread)
  · next operand hread =>
    have hoperand := Operand.oneLine_of_read hread hj
    split
    · exact hoperand
    · split
      · exact unbroken_malformed hpath (op.oneLine_reason (by decide))
      · exact hoperand

end Clause

namespace Written

variable {ctx : Clause.Context}

theorem unbroken_ofField {path : String} (hpath : OneLine path) (name : String) {value : Json}
    (hvalue : ∀ t ∈ value.texts, OneLine t) :
    ∀ w ∈ ofField ctx path name value, (w.clause ctx.marker).Unbroken := by
  unfold ofField
  split
  · next reason hfield =>
    exact List.forall_mem_singleton.mpr
      (Clause.unbroken_malformed hpath (Field.oneLine_of_resolve hfield))
  · exact List.forall_mem_singleton.mpr trivial
  · next field hfield =>
    split
    · exact List.forall_mem_singleton.mpr (Clause.unbroken_malformed hpath (by decide))
    · next entries _ =>
      rw [Json.texts, Json.forall_entryTexts] at hvalue
      refine List.forall_mem_map.mpr fun e he => ?_
      obtain ⟨hkey, hoperand⟩ := hvalue e he
      have hjoined := Clause.oneLine_joinPath hpath hkey
      simp only [clause]
      split
      · exact Clause.unbroken_test field _ hjoined hoperand
      · exact Clause.unbroken_unrecognized hjoined hkey
    · exact List.forall_mem_singleton.mpr (Clause.unbroken_malformed hpath (by decide))
    · exact List.forall_mem_singleton.mpr (Clause.unbroken_test field .eq hpath hvalue)

mutual

theorem unbroken_ofEntry {path key : String} (hpath : OneLine path) (hkey : OneLine key) :
    ∀ j : Json, (∀ t ∈ j.texts, OneLine t) →
      ∀ w ∈ ofEntry ctx path key j, (w.clause ctx.marker).Unbroken
  | .arr items, hj => by
    rw [ofEntry]
    split
    · rw [Json.texts] at hj
      exact unbroken_ofElements hpath 0 items hj
    · exact unbroken_ofField hpath _ hj
    · exact List.forall_mem_singleton.mpr (Clause.unbroken_unrecognized hpath hkey)
  | .obj entries, hj => by
    rw [ofEntry]
    split
    · rw [Json.texts] at hj
      exact unbroken_ofEntries hpath entries hj
    · exact unbroken_ofField hpath _ hj
    · exact List.forall_mem_singleton.mpr (Clause.unbroken_unrecognized hpath hkey)
  | .null, hj | .bool _, hj | .num _, hj | .str _, hj => by
    rw [ofEntry]
    · split
      · refine List.forall_mem_singleton.mpr (Clause.unbroken_malformed hpath ?_)
        exact oneLine_append.mpr ⟨by decide, Json.oneLine_kind _⟩
      · exact unbroken_ofField hpath _ hj
      · exact List.forall_mem_singleton.mpr (Clause.unbroken_unrecognized hpath hkey)
    all_goals simp

theorem unbroken_ofElements {path : String} (hpath : OneLine path) (index : Nat) :
    ∀ items : List Json, (∀ t ∈ Json.itemTexts items, OneLine t) →
      ∀ w ∈ ofElements ctx path index items, (w.clause ctx.marker).Unbroken
  | [], _ => by simp [ofElements]
  | j :: js, h => by
    rw [Json.itemTexts] at h
    obtain ⟨hj, hjs⟩ := List.forall_mem_append.mp h
    rw [ofElements]
    exact List.forall_mem_append.mpr
      ⟨unbroken_ofElement (Clause.oneLine_elementPath hpath index) j hj,
        unbroken_ofElements hpath (index + 1) js hjs⟩

theorem unbroken_ofElement {path : String} (hpath : OneLine path) :
    ∀ j : Json, (∀ t ∈ j.texts, OneLine t) →
      ∀ w ∈ ofElement ctx path j, (w.clause ctx.marker).Unbroken
  | .obj entries, hj => by
    rw [Json.texts] at hj
    rw [ofElement]
    exact unbroken_ofEntries hpath entries hj
  | .null, _ | .bool _, _ | .num _, _ | .str _, _ | .arr _, _ => by
    rw [ofElement]
    · refine List.forall_mem_singleton.mpr (Clause.unbroken_malformed hpath ?_)
      exact oneLine_append.mpr ⟨by decide, Json.oneLine_kind _⟩
    all_goals simp

theorem unbroken_ofEntries {path : String} (hpath : OneLine path) :
    ∀ entries : List (String × Json), (∀ t ∈ Json.entryTexts entries, OneLine t) →
      ∀ w ∈ ofEntries ctx path entries, (w.clause ctx.marker).Unbroken
  | [], _ => by simp [ofEntries]
  | (key, j) :: rest, h => by
    rw [Json.entryTexts, List.cons_append, List.forall_mem_cons, List.forall_mem_append] at h
    obtain ⟨hkey, hj, hrest⟩ := h
    rw [ofEntries]
    exact List.forall_mem_append.mpr
      ⟨unbroken_ofEntry (Clause.oneLine_joinPath hpath hkey) hkey j hj,
        unbroken_ofEntries hpath rest hrest⟩

end

end Written

namespace Clause

theorem unbroken_ofDocument (ctx : Context) {d : Document} (hd : ∀ t ∈ d.texts, OneLine t) :
    ∀ x ∈ allLeaves (ofDocument ctx d), x.Unbroken := by
  intro x hx
  obtain ⟨w, hw, rfl⟩ := List.mem_map.mp ((Written.allLeaves_ofDocument ctx d).mem_iff.mp hx)
  exact Written.unbroken_ofEntries (by decide) d.entries hd w hw

/-! ## Predicates -/

theorem mem_of_mem_operands_ownPredicate {c : Connective} {column : Column} {op : Comparator}
    {operand : Operand} {v : Value} (h : v ∈ (ownPredicate c column op operand).operands) :
    v ∈ operand.value.toList := by
  unfold ownPredicate at h
  split at h
  · -- null was in the list: the other items, if there are any, stand in a group
    split at h
    · simp [Predicate.operands] at h
    · simpa [Predicate.operands, Predicate.allOperands, Value.toList] using h
  · split at h
    · simp [Predicate.operands] at h
    · simpa [Predicate.operands] using h

theorem mem_of_mem_operands_subqueryOf {r : Relation} {m : Membership}
    {filters : List SubqueryFilter} {v : Value}
    (h : v ∈ (subqueryOf r m filters).filters.flatMap SubqueryFilter.operands) :
    v ∈ filters.flatMap SubqueryFilter.operands := by
  unfold subqueryOf at h
  split at h
  · exact h
  · simp only at h
    split at h
    · simpa [SubqueryFilter.operands] using h
    · exact h

theorem mem_of_mem_operands_filter {registry : Registry} {p : RelatedTest}
    (hp : p.Sound registry) {v : Value} (h : v ∈ p.filter.operands) : v ∈ p.value.toList := by
  rw [← Verdict.conditionOf_eq_filter hp.fits] at h
  unfold Verdict.conditionOf at h
  split at h
  · cases h
  · split at h <;> exact h

/-- The operands of predicates are those of the clauses they come from. -/
theorem inherited_unbroken (ctx : Context) (base : Column) :
    Inherited ctx.registry (fun x => x.Sound ctx ∧ x.Unbroken) base
      fun _ p => ∀ v ∈ p.operands, OneLine v.display where
  sound t ht := by
    cases ht.1 with
    | related sound => exact sound
  own c _ _ _ hown v hv := hown.2 v (mem_of_mem_operands_ownPredicate hv)
  membership c ts p q hts _ hq v hv := by
    -- a guard against null has no operand, so that only the tests of the partition are left
    rw [Predicate.operands] at hv
    obtain ⟨filter, hfilter, hv⟩ := List.mem_flatMap.mp (mem_of_mem_operands_subqueryOf hv)
    obtain ⟨t, ht, rfl⟩ := List.mem_map.mp hfilter
    obtain ⟨hsound, hunbroken⟩ := hts t.1 (Pending.mem_peers.mp (mem_of_mem_partitions hq ht)).1
    cases hsound with
    | related sound => exact hunbroken v (mem_of_mem_operands_filter sound hv)
  group c inner xs _ hmembers v hv := by
    rw [Predicate.operands, Predicate.allOperands_eq_flatMap] at hv
    obtain ⟨p, hp, hv⟩ := List.mem_flatMap.mp hv
    exact hmembers p hp v hv

end Clause

/-! ## Compilation -/

section

variable {options : Options} {registry : Registry} {base : String} {d : Document}
  {f : CompiledFilter}

/-- A strict compilation that succeeds has no diagnostics, and a lenient one has those of the
clauses. -/
theorem skipped_of_mem_diagnostics (h : (compile options registry base d).result = .ok f)
    {x : Diagnostic} (hx : x ∈ f.diagnostics) :
    .skipped x ∈ Clause.allLeaves (compileClauses options registry base d) := by
  obtain ⟨hfailure, rfl⟩ := compile_result_eq_ok.mp h
  obtain ⟨strict, marker, baseKey⟩ := options
  cases strict with
  | false =>
    rw [diagnostics_compileFilter hfailure] at hx
    obtain ⟨y, hy, hyx⟩ := List.mem_filterMap.mp hx
    cases y with
    | skipped => cases hyx; exact hy
    | own | related | unknown | group => cases hyx
  | true =>
    -- the first diagnostic of the lenient compilation would be its failure
    have hnone : (compileFilter ⟨false, marker, baseKey⟩ registry base d).diagnostics = [] := by
      rw [failure?_strict] at hfailure
      split at hfailure
      · cases hfailure
      · next hnil => exact hnil
    rw [compileFilter_strict marker baseKey registry base d hnone, hnone] at hx
    cases hx

theorem sound_compileClauses : ∀ x ∈ Clause.allLeaves (compileClauses options registry base d),
    x.Sound ⟨base, registry, options.marker⟩ :=
  Clause.sound_allLeaves _ (Clause.sound_ofDocument d)

theorem params_statement (h : (compile options registry base d).result = .ok f)
    (dialect : Sql.Dialect) :
    (f.select.statement dialect).params = Predicate.allOperands f.predicates := by
  obtain ⟨-, rfl⟩ := compile_result_eq_ok.mp h
  have hcanonical : ∀ p ∈ (compileFilter options registry base d).predicates, p.Canonical .and :=
    (Clause.inherited_canonical _ _).scopePredicates .and sound_compileClauses
  exact (CompiledFilter.assembled_of_canonical hcanonical).params dialect

/-- Parameters and diagnostics are shown on one line if the document has only texts on one line. -/
theorem compile_oneLine (h : (compile options registry base d).result = .ok f)
    (hd : ∀ t ∈ d.texts, OneLine t) :
    (∀ dialect, ∀ v ∈ (f.select.statement dialect).params, OneLine v.display) ∧
      ∀ x ∈ f.diagnostics, OneLine x.message := by
  have hunbroken : ∀ x ∈ Clause.allLeaves (compileClauses options registry base d), x.Unbroken :=
    Clause.unbroken_ofDocument _ hd
  constructor
  · intro dialect v hv
    rw [params_statement h, Predicate.allOperands_eq_flatMap] at hv
    obtain ⟨p, hp, hvp⟩ := List.mem_flatMap.mp hv
    obtain ⟨-, rfl⟩ := compile_result_eq_ok.mp h
    exact (Clause.inherited_unbroken _ _).scopePredicates .and
      (fun x hx => ⟨sound_compileClauses x hx, hunbroken x hx⟩) p hp v hvp
  · exact fun x hx => hunbroken _ (skipped_of_mem_diagnostics h hx)

end

end DocFilter
