import Mathlib.Algebra.Group.Nat.Defs
import DocFilter.Proofs.Value.Reading

/-!
# Display texts

The text of an operand tells which operand it is, as long as it holds no floats
(`Value.display_injective`). A string is written between quotes and doubles the quotes it has, so
its text ends at the first quote that is not followed by another one. All other items are words,
and end where a comma or a bracket comes.

Floats are left out because a float without a fraction is shown as the integer it is.
-/

namespace DocFilter

/-! ## Quoted text -/

namespace Quote

theorem double_cons_self (q : Char) (cs : List Char) :
    double q (q :: cs) = q :: q :: double q cs := by
  simp [double]

theorem double_cons_of_ne {q c : Char} (h : c ≠ q) (cs : List Char) :
    double q (c :: cs) = c :: double q cs := by
  simp [double, h]

/-- A text does not close where another one goes on. -/
theorem double_cons_append_ne {q c : Char} {cs r s : List Char} (hs : s.head? ≠ some q) :
    double q (c :: cs) ++ q :: r ≠ q :: s := by
  intro h
  by_cases hc : c = q
  · rw [hc, double_cons_self] at h
    exact hs (by rw [← (List.cons.inj h).2]; rfl)
  · rw [double_cons_of_ne hc] at h
    exact hc (List.cons.inj h).1

/-- The closing quote of a text is the first one that is not doubled. -/
theorem double_append_cancel {q : Char} {cs ds r s : List Char} (hr : r.head? ≠ some q)
    (hs : s.head? ≠ some q) (h : double q cs ++ q :: r = double q ds ++ q :: s) :
    cs = ds ∧ r = s := by
  induction cs generalizing ds with
  | nil =>
    cases ds with
    | nil => exact ⟨rfl, (List.cons.inj h).2⟩
    | cons d ds => exact absurd h.symm (double_cons_append_ne hr)
  | cons c cs ih =>
    cases ds with
    | nil => exact absurd h (double_cons_append_ne hs)
    | cons d ds =>
      have hstep : c = d ∧ double q cs ++ q :: r = double q ds ++ q :: s := by
        by_cases hc : c = q <;> by_cases hd : d = q
        · subst hc hd
          simpa [double_cons_self] using h
        · subst hc
          rw [double_cons_self, double_cons_of_ne hd] at h
          exact absurd (List.cons.inj h).1.symm hd
        · subst hd
          rw [double_cons_self, double_cons_of_ne hc] at h
          exact absurd (List.cons.inj h).1 hc
        · rw [double_cons_of_ne hc, double_cons_of_ne hd] at h
          exact List.cons.inj h
      obtain ⟨rfl, hrest⟩ := hstep
      obtain ⟨rfl, htail⟩ := ih hrest
      exact ⟨rfl, htail⟩

end Quote

namespace Value

/-! ## Kinds of items -/

/-- Whether a value is a float. -/
def isFloat : Value → Bool
  | .float _ => true
  | _ => false

/-- Whether a value is a scalar other than a float, with unsigned words only for the integers that
no signed word stands for. -/
def isDiscrete : Value → Bool
  | .int _ | .str _ | .bool _ | .null => true
  | .uint n => decide (2 ^ 63 ≤ n.toNat)
  | .float _ | .list _ => false

theorem Scalar.isDiscrete_or_isFloat {j : Json} {v : Value} (h : Scalar j v) :
    v.isDiscrete = true ∨ v.isFloat = true := by
  cases h with
  | uint hsame hlarge => exact .inl (decide_eq_true hlarge)
  | float x hx => exact .inr rfl
  | _ => exact .inl rfl

theorem Represents.isDiscrete {j : Json} {v : Value} (h : Represents j v)
    (hfloats : ∀ i ∈ v.toList, i.isFloat = false) : ∀ i ∈ v.toList, i.isDiscrete = true := by
  intro i hi
  obtain ⟨_, hitem⟩ := h.scalar_of_mem i hi
  exact hitem.isDiscrete_or_isFloat.resolve_right (by simp [hfloats i hi])

/-- Whether a value is a string. -/
def isStr : Value → Bool
  | .str _ => true
  | _ => false

theorem exists_of_isStr {v : Value} (h : v.isStr = true) : ∃ s, v = .str s := by
  cases v with
  | str s => exact ⟨s, rfl⟩
  | _ => cases h

theorem exists_of_isList {v : Value} (h : v.isList = true) : ∃ items, v = .list items := by
  cases v with
  | list items => exact ⟨items, rfl⟩
  | _ => cases h

/-- The number that a value stands for. -/
def number? : Value → Option Int
  | .int i => some i.toInt
  | .uint n => some n.toNat
  | _ => none

/-! ## Words -/

/-- The characters of words. -/
def isWordChar (c : Char) : Bool := c.isAlphanum || c == '-'

theorem isDigit_of_mem_toString {i : Int} {c : Char} (h : c ∈ (toString i).toList) :
    c.isDigit = true ∨ c = '-' := by
  have hdigits : ∀ n, c ∈ Nat.toDigits 10 n → c.isDigit = true := fun n =>
    Nat.isDigit_of_mem_toDigits (by decide) (by decide)
  cases i with
  | ofNat n => exact .inl (hdigits n (by simpa [Int.repr] using h))
  | negSucc n =>
    rcases (by simpa [Int.repr] using h : c = '-' ∨ c ∈ Nat.toDigits 10 (n + 1)) with hc | hc
    · exact .inr hc
    · exact .inl (hdigits _ hc)

theorem toString_ne_of_mem {i : Int} {text : String} {c : Char} (hc : c ∈ text.toList)
    (h : ¬(c.isDigit = true ∨ c = '-')) : toString i ≠ text := by
  rintro rfl
  exact h (isDigit_of_mem_toString hc)

/-- A number is what its digits count, with the sign that stands before them. -/
theorem toString_int_injective {i j : Int} (h : toString i = toString j) : i = j := by
  have hdigits : ∀ {m n : Nat}, m.repr = n.repr → m = n := by
    intro m n hrepr
    rw [Nat.repr_eq_ofList_toDigits, Nat.repr_eq_ofList_toDigits, String.ofList_inj] at hrepr
    rw [← @Nat.ofDigitChars_ten_toDigits m, hrepr, Nat.ofDigitChars_ten_toDigits]
  have hsign : ∀ m n : Nat, m.repr ≠ "-" ++ n.repr := by
    intro m n hrepr
    have hminus : '-' ∈ m.repr.toList := by simp [hrepr]
    rw [Nat.repr_eq_ofList_toDigits, String.toList_ofList] at hminus
    cases Nat.isDigit_of_mem_toDigits (by decide) (by decide) hminus
  rw [Int.toString_eq_repr, Int.toString_eq_repr, Int.repr_eq_if, Int.repr_eq_if] at h
  split at h
  · split at h
    · have := hdigits h
      omega
    · exact absurd h (hsign _ _)
  · split at h
    · exact absurd h.symm (hsign _ _)
    · have := hdigits ((String.append_right_inj _).mp h)
      omega

theorem display_of_number? {v : Value} {k : Int} (h : v.number? = some k) :
    v.display = toString k := by
  cases v with
  | int i | uint n =>
    obtain rfl := Option.some.inj h
    rfl
  | _ => cases h

theorem isWordChar_of_mem_display {v : Value} (hv : v.isDiscrete = true) (hs : v.isStr = false)
    {c : Char} (hc : c ∈ v.display.toList) : isWordChar c = true := by
  have hnumber : ∀ k, v.number? = some k → isWordChar c = true := by
    intro k hk
    rw [display_of_number? hk] at hc
    rcases isDigit_of_mem_toString hc with h | h <;> simp [isWordChar, Char.isAlphanum, h]
  cases v with
  | int i => exact hnumber i.toInt rfl
  | uint n => exact hnumber n.toNat rfl
  | bool b =>
    have hwords : ∀ b : Bool, (Value.bool b).display.toList.all isWordChar = true := by decide
    exact List.all_eq_true.mp (hwords b) c hc
  | null =>
    have hword : Value.null.display.toList.all isWordChar = true := by decide
    exact List.all_eq_true.mp hword c hc
  | str | float | list => simp_all [isStr, isDiscrete]

theorem display_ne_empty {v : Value} (hv : v.isDiscrete = true) (hs : v.isStr = false) :
    v.display.toList ≠ [] := by
  have hnumber : ∀ k : Int, (toString k).toList ≠ [] := by
    intro k
    cases k with
    | ofNat n => simp [Int.repr]
    | negSucc n => simp [Int.repr]
  cases v with
  | int i => exact hnumber i.toInt
  | uint n => exact hnumber n.toNat
  | bool b => cases b <;> decide
  | null => decide
  | str | float | list => simp_all [isStr, isDiscrete]

theorem eq_of_number? {a b : Value} (ha : a.isDiscrete = true) (hb : b.isDiscrete = true) {k : Int}
    (hak : a.number? = some k) (hbk : b.number? = some k) : a = b := by
  have hapart : ∀ (i : Int64) (n : UInt64), (Value.uint n).isDiscrete = true →
      i.toInt ≠ n.toNat := by
    intro i n hn
    have hlow : 2 ^ 63 ≤ n.toNat := of_decide_eq_true hn
    have hhigh : i.toInt < 2 ^ 63 := i.toInt_lt
    omega
  cases a with
  | int i =>
    have hi : i.toInt = k := Option.some.inj hak
    cases b with
    | int j => rw [Int64.toInt_inj.mp (hi.trans (Option.some.inj hbk).symm)]
    | uint n => exact absurd (hi.trans (Option.some.inj hbk).symm) (hapart i n hb)
    | _ => cases hbk
  | uint m =>
    have hm : (m.toNat : Int) = k := Option.some.inj hak
    cases b with
    | int j => exact absurd ((Option.some.inj hbk).trans hm.symm) (hapart j m ha)
    | uint n =>
      have hn : (n.toNat : Int) = k := Option.some.inj hbk
      rw [UInt64.toNat_inj.mp (by omega : m.toNat = n.toNat)]
    | _ => cases hbk
  | _ => cases hak

theorem eq_of_number?_eq_none {v : Value} (hv : v.isDiscrete = true) (hs : v.isStr = false)
    (h : v.number? = none) : v = .bool true ∨ v = .bool false ∨ v = .null := by
  cases v with
  | bool b => cases b <;> simp
  | null => simp
  | int | uint => cases h
  | str | float | list => simp_all [isStr, isDiscrete]

/-- Words that are the same stand for the same value. -/
theorem eq_of_display_eq {a b : Value} (ha : a.isDiscrete = true) (hb : b.isDiscrete = true)
    (hsa : a.isStr = false) (hsb : b.isStr = false) (h : a.display = b.display) : a = b := by
  have hletter : ∀ {v w : Value} {k : Int}, v.number? = some k → w.isDiscrete = true →
      w.isStr = false → w.number? = none → v.display ≠ w.display := by
    intro v w k hk hw hws hnone
    rw [display_of_number? hk]
    rcases eq_of_number?_eq_none hw hws hnone with rfl | rfl | rfl
    · exact toString_ne_of_mem (c := 't') (by decide) (by decide)
    · exact toString_ne_of_mem (c := 'f') (by decide) (by decide)
    · exact toString_ne_of_mem (c := 'N') (by decide) (by decide)
  cases hak : a.number? with
  | some k =>
    cases hbk : b.number? with
    | some l =>
      rw [display_of_number? hak, display_of_number? hbk] at h
      obtain rfl : k = l := toString_int_injective h
      exact eq_of_number? ha hb hak hbk
    | none => exact absurd h (hletter hak hb hsb hbk)
  | none =>
    cases hbk : b.number? with
    | some l => exact absurd h.symm (hletter hbk ha hsa hak)
    | none =>
      rcases eq_of_number?_eq_none ha hsa hak with rfl | rfl | rfl <;>
        rcases eq_of_number?_eq_none hb hsb hbk with rfl | rfl | rfl <;>
          first | rfl | exact absurd h (by decide)

/-! ## Items -/

/-- What can stand after an item: nothing, a comma or a closing bracket. -/
def Stops (r : List Char) : Prop := ∀ c, r.head? = some c → c = ',' ∨ c = ')'

theorem takeWhile_isWordChar {v : Value} (hv : v.isDiscrete = true) (hs : v.isStr = false)
    {r : List Char} (hr : Stops r) :
    (v.display.toList ++ r).takeWhile isWordChar = v.display.toList := by
  rw [List.takeWhile_append_of_pos fun c => isWordChar_of_mem_display hv hs]
  cases r with
  | nil => simp
  | cons c r =>
    have hc : isWordChar c = false := by
      rcases hr c rfl with rfl | rfl <;> decide
    simp [hc]

theorem toList_display_str (t : String) :
    (Value.str t).display.toList = '\x27' :: (Quote.double '\x27' t.toList ++ ['\x27']) := by
  simp [display, Quote.enclose]

/-- The text of a word does not start with a character that is in no word. -/
theorem display_append_ne_cons {v : Value} (hv : v.isDiscrete = true) (hs : v.isStr = false)
    {c : Char} (hc : isWordChar c = false) (r s : List Char) :
    v.display.toList ++ r ≠ c :: s := by
  intro h
  obtain ⟨d, text, htext⟩ := List.exists_cons_of_ne_nil (display_ne_empty hv hs)
  have hd : isWordChar d = true :=
    isWordChar_of_mem_display hv hs (by rw [htext]; exact List.mem_cons_self)
  rw [htext] at h
  rw [(List.cons.inj h).1, hc] at hd
  cases hd

/-- Where an item ends can be seen from its text. -/
theorem display_append_cancel {a b : Value} (ha : a.isDiscrete = true) (hb : b.isDiscrete = true)
    {r s : List Char} (hr : Stops r) (hs : Stops s)
    (h : a.display.toList ++ r = b.display.toList ++ s) : a = b ∧ r = s := by
  have hquote : isWordChar '\x27' = false := by decide
  have hopen : ∀ {l : List Char}, Stops l → l.head? ≠ some '\x27' := by
    intro l hl hhead
    rcases hl _ hhead with h | h <;> exact absurd h (by decide)
  cases hsa : a.isStr with
  | true =>
    obtain ⟨t, rfl⟩ := exists_of_isStr hsa
    rw [toList_display_str] at h
    cases hsb : b.isStr with
    | true =>
      obtain ⟨u, rfl⟩ := exists_of_isStr hsb
      rw [toList_display_str] at h
      obtain ⟨htext, hrest⟩ := Quote.double_append_cancel (hopen hr) (hopen hs)
        (by simpa using h)
      rw [String.toList_injective htext]
      exact ⟨rfl, hrest⟩
    | false => exact absurd h.symm (display_append_ne_cons hb hsb hquote _ _)
  | false =>
    cases hsb : b.isStr with
    | true =>
      obtain ⟨u, rfl⟩ := exists_of_isStr hsb
      rw [toList_display_str] at h
      exact absurd h (display_append_ne_cons ha hsa hquote _ _)
    | false =>
      have hword : a.display.toList = b.display.toList := by
        rw [← takeWhile_isWordChar ha hsa hr, ← takeWhile_isWordChar hb hsb hs, h]
      rw [hword] at h
      exact ⟨eq_of_display_eq ha hb hsa hsb (String.toList_injective hword),
        List.append_cancel_left h⟩

/-! ## Lists -/

/-- The text of a list after its first item. -/
def furtherText (items : List Value) : List Char :=
  items.flatMap fun v => ',' :: ' ' :: v.display.toList

theorem toList_display_list (v : Value) (vs : List Value) :
    (Value.list (v :: vs)).display.toList =
      '(' :: (v.display.toList ++ (furtherText vs ++ [')'])) := by
  have hitems : ∀ (v : Value) (vs : List Value), (", ".intercalate (displayList (v :: vs))).toList =
      v.display.toList ++ furtherText vs := by
    intro v vs
    induction vs generalizing v with
    | nil => simp [displayList, furtherText]
    | cons w ws ih =>
      rw [displayList, displayList, String.intercalate_cons_cons, ← displayList,
        String.toList_append, ih, furtherText, furtherText, List.flatMap_cons]
      simp
  rw [display, String.toList_append, String.toList_append, hitems]
  simp

theorem stops_furtherText (items : List Value) : Stops (furtherText items ++ [')']) := by
  intro c hc
  cases items with
  | nil => exact .inr (Option.some.inj hc).symm
  | cons v vs => exact .inl (Option.some.inj hc).symm

theorem furtherText_injective {xs ys : List Value} (hxs : ∀ v ∈ xs, v.isDiscrete = true)
    (hys : ∀ v ∈ ys, v.isDiscrete = true)
    (h : furtherText xs ++ [')'] = furtherText ys ++ [')']) : xs = ys := by
  induction xs generalizing ys with
  | nil =>
    cases ys with
    | nil => rfl
    | cons y ys => exact absurd (List.cons.inj h).1 (by decide)
  | cons x xs ih =>
    cases ys with
    | nil => exact absurd (List.cons.inj h).1 (by decide)
    | cons y ys =>
      obtain ⟨hx, hxs'⟩ := List.forall_mem_cons.mp hxs
      obtain ⟨hy, hys'⟩ := List.forall_mem_cons.mp hys
      have htexts : x.display.toList ++ (furtherText xs ++ [')']) =
          y.display.toList ++ (furtherText ys ++ [')']) := by
        simpa [furtherText] using h
      obtain ⟨rfl, hrest⟩ := display_append_cancel hx hy (stops_furtherText xs)
        (stops_furtherText ys) htexts
      rw [ih hxs' hys' hrest]

/-- No item starts with a bracket. -/
theorem display_append_ne_bracket {v : Value} (hv : v.isDiscrete = true) {c : Char}
    (hc : c = '(' ∨ c = ')') (r s : List Char) : v.display.toList ++ r ≠ c :: s := by
  cases hs : v.isStr with
  | true =>
    obtain ⟨t, rfl⟩ := exists_of_isStr hs
    rw [toList_display_str]
    intro h
    have hfirst : '\x27' = c := (List.cons.inj h).1
    rcases hc with rfl | rfl <;> exact absurd hfirst (by decide)
  | false => exact display_append_ne_cons hv hs (by rcases hc with rfl | rfl <;> decide) r s

theorem list_display_injective {xs ys : List Value} (hxs : ∀ v ∈ xs, v.isDiscrete = true)
    (hys : ∀ v ∈ ys, v.isDiscrete = true) (h : (Value.list xs).display = (Value.list ys).display) :
    xs = ys := by
  have hempty : (Value.list []).display.toList = ['(', ')'] := by decide
  have hlists := congrArg String.toList h
  cases xs with
  | nil =>
    cases ys with
    | nil => rfl
    | cons y ys =>
      rw [hempty, toList_display_list] at hlists
      exact absurd (List.cons.inj hlists).2.symm
        (display_append_ne_bracket (hys y List.mem_cons_self) (.inr rfl) _ _)
  | cons x xs =>
    cases ys with
    | nil =>
      rw [hempty, toList_display_list] at hlists
      exact absurd (List.cons.inj hlists).2
        (display_append_ne_bracket (hxs x List.mem_cons_self) (.inr rfl) _ _)
    | cons y ys =>
      obtain ⟨hx, hxs'⟩ := List.forall_mem_cons.mp hxs
      obtain ⟨hy, hys'⟩ := List.forall_mem_cons.mp hys
      rw [toList_display_list, toList_display_list] at hlists
      obtain ⟨rfl, hrest⟩ := display_append_cancel hx hy (stops_furtherText xs)
        (stops_furtherText ys) (List.cons.inj hlists).2
      rw [furtherText_injective hxs' hys' hrest]

theorem display_list_ne {xs : List Value} {v : Value} (hv : v.isDiscrete = true) :
    (Value.list xs).display ≠ v.display := by
  intro h
  refine display_append_ne_bracket hv (.inl rfl) []
    (", ".intercalate (displayList xs) ++ ")").toList ?_
  rw [← h, display]
  simp

/-- Operands without floats that are shown alike are the same. -/
theorem display_injective {a b : Value} (ha : ∀ v ∈ a.toList, v.isDiscrete = true)
    (hb : ∀ v ∈ b.toList, v.isDiscrete = true) (h : a.display = b.display) : a = b := by
  have hscalar : ∀ {v : Value}, (∀ i ∈ v.toList, i.isDiscrete = true) → v.isList = false →
      v.isDiscrete = true := by
    intro v hv hlist
    cases v with
    | list => cases hlist
    | _ => exact hv _ List.mem_cons_self
  cases hla : a.isList with
  | true =>
    obtain ⟨xs, rfl⟩ := exists_of_isList hla
    cases hlb : b.isList with
    | true =>
      obtain ⟨ys, rfl⟩ := exists_of_isList hlb
      exact congrArg Value.list (list_display_injective ha hb h)
    | false => exact absurd h (display_list_ne (hscalar hb hlb))
  | false =>
    cases hlb : b.isList with
    | true =>
      obtain ⟨ys, rfl⟩ := exists_of_isList hlb
      exact absurd h.symm (display_list_ne (hscalar ha hla))
    | false =>
      exact (display_append_cancel (r := []) (s := []) (hscalar ha hla) (hscalar hb hlb)
        (by simp [Stops]) (by simp [Stops]) (by rw [h])).1

end Value

/-! ## The text of null -/

theorem Decimal.isDigit_of_mem_split {d : Decimal} {c : Char}
    (h : c ∈ d.split.1 ∨ c ∈ d.split.2) : c.isDigit = true := by
  have hzero : ∀ n, c ∈ List.replicate n '0' → c.isDigit = true := by
    intro n hc
    rw [List.eq_of_mem_replicate hc]
    rfl
  simp only [split, List.splitAt_eq] at h
  have hmem := h.elim List.mem_of_mem_take List.mem_of_mem_drop
  rcases List.mem_append.mp hmem with hpad | hdigits
  · exact hzero _ hpad
  · rcases List.mem_append.mp hdigits with hdigit | hpad
    · exact Nat.isDigit_of_mem_toDigits (by decide) (by decide) hdigit
    · exact hzero _ hpad

theorem Binary64.display_ne_null (x : Binary64) : x.display ≠ "NULL" := by
  have hdecimal : ∀ d : Decimal, 'U' ∉ (NumberStyle.display.decimal d).toList := by
    intro d hmem
    have hsplit : ¬('U' ∈ d.split.1 ∨ 'U' ∈ d.split.2) := fun h =>
      absurd (Decimal.isDigit_of_mem_split h) (by decide)
    simp only [NumberStyle.decimal, NumberStyle.display, if_true] at hmem
    split at hmem <;> simp_all
  intro h
  unfold display at h
  split at h
  · exact absurd h (by decide)
  · split at h
    · have hmem : 'U' ∈ (NumberStyle.display.write x).toList := by
        rw [h]
        decide
      rw [NumberStyle.write, String.toList_append, List.mem_append] at hmem
      rcases hmem with hsign | hdigits
      · split at hsign <;> simp at hsign
      · exact hdecimal _ hdigits
    · split at h <;> exact absurd h (by decide)

/-- Nothing but null is shown as null. -/
theorem Value.display_eq_null {v : Value} : v.display = "NULL" ↔ v.isNull = true := by
  have hnumber : ∀ k : Int, toString k ≠ "NULL" := fun k =>
    toString_ne_of_mem (c := 'N') (by decide) (by decide)
  cases v with
  | int i => exact iff_of_false (hnumber _) (by simp [isNull])
  | uint n => exact iff_of_false (hnumber n.toNat) (by simp [isNull])
  | float x => exact iff_of_false x.display_ne_null (by simp [isNull])
  | str s =>
    refine iff_of_false (fun h => ?_) (by simp [isNull])
    have hquote := congrArg String.toList h
    simp [display, Quote.enclose] at hquote
  | bool b => cases b <;> simp [display, isNull]
  | list items =>
    refine iff_of_false (fun h => ?_) (by simp [isNull])
    have hparen := congrArg String.toList h
    simp [display] at hparen
  | null => simp [display, isNull]

end DocFilter
