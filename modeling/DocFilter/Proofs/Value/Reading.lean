import DocFilter.Value
import Mathlib.Data.List.Forall2

/-!
# Operands in JSON

Scalars and arrays of scalars are the JSON values that can be operands. An operand keeps all that
its JSON value says (`Value.Represents`), down to the kind of its numbers, so writing it gives the
JSON value back. What cannot be an operand is refused because of the first item that is no scalar
(`Value.Refused`).
-/

namespace DocFilter

/-! ## Lists read item by item -/

section MapM

variable {α β ε : Type} {f : α → Except ε β}

theorem mapM_eq_ok_iff {xs : List α} {ys : List β} :
    xs.mapM f = .ok ys ↔ List.Forall₂ (fun x y => f x = .ok y) xs ys := by
  induction xs generalizing ys with
  | nil => cases ys <;> simp [pure, Except.pure]
  | cons x xs ih =>
    rw [List.mapM_cons]
    cases hx : f x with
    | error e => cases ys <;> simp [bind, Except.bind, hx]
    | ok y =>
      cases hxs : xs.mapM f <;> cases ys <;>
        simp [bind, Except.bind, pure, Except.pure, ← ih, hx, hxs]

/-- Reading fails with the error of the first item that cannot be read. -/
theorem mapM_eq_error_iff {xs : List α} {e : ε} :
    xs.mapM f = .error e ↔ ∃ before x after, xs = before ++ x :: after ∧
      (∀ b ∈ before, ∃ y, f b = .ok y) ∧ f x = .error e := by
  induction xs with
  | nil => simp [pure, Except.pure]
  | cons x xs ih =>
    have hcons : (x :: xs).mapM f = .error e ↔
        f x = .error e ∨ (∃ y, f x = .ok y) ∧ xs.mapM f = .error e := by
      rw [List.mapM_cons]
      cases hx : f x with
      | error e' => simp [bind, Except.bind]
      | ok b => cases hxs : xs.mapM f <;> simp [bind, Except.bind, pure, Except.pure]
    rw [hcons, ih]
    constructor
    · rintro (hx | ⟨hx, before, bad, after, rfl, hbefore, hbad⟩)
      · exact ⟨[], x, xs, rfl, by simp, hx⟩
      · exact ⟨x :: before, bad, after, rfl, List.forall_mem_cons.mpr ⟨hx, hbefore⟩, hbad⟩
    · rintro ⟨before, bad, after, hsplit, hbefore, hbad⟩
      cases before with
      | nil =>
        obtain ⟨rfl, rfl⟩ := List.cons.inj hsplit
        exact .inl hbad
      | cons b before =>
        obtain ⟨rfl, rfl⟩ := List.cons.inj hsplit
        obtain ⟨hb, hbefore⟩ := List.forall_mem_cons.mp hbefore
        exact .inr ⟨hb, before, bad, after, rfl, hbefore, hbad⟩

end MapM

/-! ## What can be an operand -/

namespace Json

/-- Whether a JSON value is neither an array nor an object. -/
def isScalar : Json → Bool
  | .arr _ | .obj _ => false
  | _ => true

/-- Whether a JSON value is a scalar or an array of scalars. -/
def isOperand : Json → Bool
  | .arr items => items.all isScalar
  | j => j.isScalar

/-- The integer that a number is, if it is written as one. -/
def Number.integer? : Number → Option Int
  | .nat n => some n.toNat
  | .neg i _ => some i.toInt
  | .real _ _ => none

end Json

namespace Value

/-- A scalar in JSON, and the value that keeps its kind. An integer is an unsigned word only if no
signed word can hold it. -/
inductive Scalar : Json → Value → Prop where
  | null : Scalar .null .null
  | bool (b : Bool) : Scalar (.bool b) (.bool b)
  | str (s : String) : Scalar (.str s) (.str s)
  | int {n : Json.Number} {i : Int64} (same : n.integer? = some i.toInt) : Scalar (.num n) (.int i)
  | uint {n : Json.Number} {m : UInt64} (same : n.integer? = some (m.toNat : Int))
      (large : Nat.pow 2 63 ≤ m.toNat) : Scalar (.num n) (.uint m)
  | float (x : Binary64) (finite : x.isFinite = true) : Scalar (.num (.real x finite)) (.float x)

/-- A JSON value, and the operand that keeps all of it. -/
inductive Represents : Json → Value → Prop where
  | scalar {j : Json} {v : Value} (h : Scalar j v) : Represents j v
  | list {items : List Json} {vs : List Value} (h : List.Forall₂ Scalar items vs) :
      Represents (.arr items) (.list vs)

/-- A JSON value that is no operand, the error about it and the text of the error. An item is to
blame if all items before it are scalars. -/
inductive Refused : Json → ReadError → String → Prop where
  | object (entries : List (String × Json)) : Refused (.obj entries) (.object entries)
      ("Objects cannot be used as filter values: " ++ (Json.obj entries).compact)
  | item {before after : List Json} (scalars : ∀ i ∈ before, i.isScalar = true)
      (entries : List (String × Json)) :
      Refused (.arr (before ++ .obj entries :: after)) (.object entries)
        ("Objects cannot be used as filter values: " ++ (Json.obj entries).compact)
  | nested {before after : List Json} (scalars : ∀ i ∈ before, i.isScalar = true)
      (inner : List Json) :
      Refused (.arr (before ++ .arr inner :: after)) (.nestedArray (before ++ .arr inner :: after))
        ("Nested arrays are not supported as filter values: " ++
          (Json.arr (before ++ .arr inner :: after)).compact)

/-! ## Numbers -/

theorem toInt_toInt64 {n : UInt64} (h : n.toNat < Nat.pow 2 63) : n.toInt64.toInt = n.toNat := by
  have hword : n.toInt64.toInt = n.toBitVec.toInt := rfl
  have hsmall : 2 * n.toBitVec.toNat < 2 ^ 64 := by
    have hnat : n.toBitVec.toNat = n.toNat := rfl
    have hpow : Nat.pow 2 63 = 2 ^ 63 := rfl
    omega
  rw [hword, BitVec.toInt_eq_toNat_of_lt hsmall]
  rfl

theorem scalar_ofNumber (n : Json.Number) : Scalar (.num n) (ofNumber n) := by
  cases n with
  | nat n =>
    rw [ofNumber]
    split
    · next hsmall => exact .int (by rw [toInt_toInt64 hsmall]; rfl)
    · next hlarge => exact .uint rfl (Nat.le_of_not_lt hlarge)
  | neg i hi => exact .int rfl
  | real x hx => exact .float x hx

/-- A number has one value only: the two kinds of words share no integer. -/
theorem Scalar.eq_ofNumber {n : Json.Number} {v : Value} (h : Scalar (.num n) v) :
    v = ofNumber n := by
  cases h with
  | @int _ i hsame =>
    cases n with
    | nat n =>
      have hvalue : (n.toNat : Int) = i.toInt := Option.some.inj hsame
      have hsmall : n.toNat < Nat.pow 2 63 := by
        have hbound : i.toInt < 2 ^ 63 := i.toInt_lt
        have hpow : Nat.pow 2 63 = 2 ^ 63 := rfl
        omega
      have hword : n.toInt64.toInt = i.toInt := (toInt_toInt64 hsmall).trans hvalue
      rw [ofNumber, if_pos hsmall, Int64.toInt_inj.mp hword]
    | neg j hj => rw [ofNumber, Int64.toInt_inj.mp (Option.some.inj hsame)]
    | real => cases hsame
  | @uint _ m hsame hlarge =>
    cases n with
    | nat n =>
      have hvalue : (n.toNat : Int) = (m.toNat : Int) := Option.some.inj hsame
      obtain rfl : n = m := UInt64.toNat_inj.mp (by omega)
      rw [ofNumber, if_neg (Nat.not_lt.mpr hlarge)]
    | neg j hj =>
      have hvalue : j.toInt = (m.toNat : Int) := Option.some.inj hsame
      have hnegative : j.toInt < (0 : Int64).toInt := Int64.lt_iff_toInt_lt.mp hj
      have hzero : (0 : Int64).toInt = 0 := rfl
      omega
    | real => cases hsame
  | float x hx => rfl

@[simp] theorem isNull_ofNumber (n : Json.Number) : (ofNumber n).isNull = false := by
  cases n with
  | nat n =>
    rw [ofNumber]
    split <;> rfl
  | neg => rfl
  | real => rfl

theorem toJson_ofNumber (n : Json.Number) : (ofNumber n).toJson = .num n := by
  cases n with
  | nat n =>
    rw [ofNumber]
    split
    · next hsmall =>
      have hnonneg : ¬ n.toInt64 < 0 := by
        rw [Int64.lt_iff_toInt_lt, toInt_toInt64 hsmall]
        exact Int.not_lt.mpr (Int.natCast_nonneg _)
      rw [toJson, jsonOfInt, dif_neg hnonneg, UInt64.toUInt64_toInt64]
    · rw [toJson]
  | neg i hi => rw [ofNumber, toJson, jsonOfInt, dif_pos hi]
  | real x hx => rw [ofNumber, toJson, dif_pos hx]

/-! ## Scalars -/

theorem Scalar.isScalar {j : Json} {v : Value} (h : Scalar j v) : j.isScalar = true := by
  cases h <;> rfl

theorem Scalar.isList {j : Json} {v : Value} (h : Scalar j v) : v.isList = false := by
  cases h <;> rfl

@[simp] theorem isList_ofNumber (n : Json.Number) : (ofNumber n).isList = false :=
  (scalar_ofNumber n).isList

theorem Scalar.toJson_eq {j : Json} {v : Value} (h : Scalar j v) : v.toJson = j := by
  cases j with
  | num n =>
    rw [h.eq_ofNumber]
    exact toJson_ofNumber n
  | null | bool | str =>
    cases h
    rw [toJson]
  | arr | obj => cases h

theorem exists_scalar {j : Json} (h : j.isScalar = true) : ∃ v, Scalar j v := by
  cases j with
  | null => exact ⟨_, .null⟩
  | bool b => exact ⟨_, .bool b⟩
  | num n => exact ⟨_, scalar_ofNumber n⟩
  | str s => exact ⟨_, .str s⟩
  | arr | obj => cases h

theorem ofItem_eq_ok_iff {whole : List Json} {j : Json} {v : Value} :
    ofItem whole j = .ok v ↔ Scalar j v := by
  constructor
  · intro h
    cases j with
    | null | bool | str =>
      cases h
      constructor
    | num n =>
      cases h
      exact scalar_ofNumber n
    | arr | obj => cases h
  · intro h
    cases j with
    | num n => rw [h.eq_ofNumber, ofItem]
    | null | bool | str =>
      cases h
      rfl
    | arr | obj => cases h

theorem ofItem_eq_error_iff {whole : List Json} {j : Json} {e : ReadError} :
    ofItem whole j = .error e ↔ (∃ inner, j = .arr inner ∧ e = .nestedArray whole) ∨
      ∃ entries, j = .obj entries ∧ e = .object entries := by
  cases j <;> simp [ofItem, eq_comm]

theorem ofItem_succeeds_iff {whole : List Json} {j : Json} :
    (∃ v, ofItem whole j = .ok v) ↔ j.isScalar = true := by
  simp only [ofItem_eq_ok_iff]
  exact ⟨fun ⟨_, h⟩ => h.isScalar, exists_scalar⟩

/-! ## Operands -/

theorem toList_of_not_isList {v : Value} (h : v.isList = false) : v.toList = [v] := by
  cases v with
  | list => cases h
  | _ => rfl

theorem ofJson_arr_eq_ok {items : List Json} {v : Value} :
    ofJson (.arr items) = .ok v ↔ ∃ vs, items.mapM (ofItem items) = .ok vs ∧ v = .list vs := by
  rw [ofJson]
  cases items.mapM (ofItem items) <;> simp [Functor.map, Except.map, eq_comm]

theorem ofJson_arr_eq_error {items : List Json} {e : ReadError} :
    ofJson (.arr items) = .error e ↔ items.mapM (ofItem items) = .error e := by
  rw [ofJson]
  cases items.mapM (ofItem items) <;> simp [Functor.map, Except.map]

/-- A scalar is read as it is inside of an array. -/
theorem ofJson_of_isScalar {j : Json} (h : j.isScalar = true) : ofJson j = ofItem [] j := by
  cases j with
  | arr | obj => cases h
  | _ => rfl

theorem ofJson_eq_ok_iff {j : Json} {v : Value} : ofJson j = .ok v ↔ Represents j v := by
  cases j with
  | arr items =>
    simp only [ofJson_arr_eq_ok, mapM_eq_ok_iff, ofItem_eq_ok_iff]
    constructor
    · rintro ⟨vs, hitems, rfl⟩
      exact .list hitems
    · intro h
      cases h with
      | scalar h => cases h
      | list h => exact ⟨_, h, rfl⟩
  | obj entries =>
    refine iff_of_false (by simp [ofJson]) fun h => ?_
    cases h with
    | scalar h => cases h
  | _ =>
    rw [ofJson_of_isScalar rfl, ofItem_eq_ok_iff]
    refine ⟨.scalar, fun h => ?_⟩
    cases h with
    | scalar h => exact h

/-- What is read from JSON is made of scalars. -/
theorem Represents.scalar_of_mem {j : Json} {v : Value} (h : Represents j v) :
    ∀ i ∈ v.toList, ∃ item, Scalar item i := by
  cases h with
  | scalar h =>
    intro i hi
    rw [toList_of_not_isList h.isList, List.mem_singleton] at hi
    exact ⟨j, hi ▸ h⟩
  | list h =>
    induction h with
    | nil => exact List.forall_mem_nil _
    | cons hhead _ ih => exact List.forall_mem_cons.mpr ⟨⟨_, hhead⟩, ih⟩

theorem Represents.toJson_eq {j : Json} {v : Value} (h : Represents j v) : v.toJson = j := by
  cases h with
  | scalar h => exact h.toJson_eq
  | @list items vs h =>
    have hitems : toJsonList vs = items := by
      induction h with
      | nil => rfl
      | cons hhead _ ih => rw [toJsonList, hhead.toJson_eq, ih]
    rw [toJson, hitems]

theorem exists_scalars_iff {items : List Json} :
    (∃ vs, List.Forall₂ Scalar items vs) ↔ ∀ i ∈ items, i.isScalar = true := by
  constructor
  · rintro ⟨vs, h⟩
    induction h with
    | nil => exact List.forall_mem_nil _
    | cons hhead _ ih => exact List.forall_mem_cons.mpr ⟨hhead.isScalar, ih⟩
  · intro h
    induction items with
    | nil => exact ⟨[], .nil⟩
    | cons i items ih =>
      obtain ⟨hi, hitems⟩ := List.forall_mem_cons.mp h
      obtain ⟨v, hv⟩ := exists_scalar hi
      obtain ⟨vs, hvs⟩ := ih hitems
      exact ⟨v :: vs, .cons hv hvs⟩

theorem ofJson_succeeds_iff {j : Json} : (∃ v, ofJson j = .ok v) ↔ j.isOperand = true := by
  cases j with
  | arr items =>
    have hlists : (∃ v, ofJson (.arr items) = .ok v) ↔ ∃ vs, List.Forall₂ Scalar items vs := by
      simp only [ofJson_arr_eq_ok, mapM_eq_ok_iff, ofItem_eq_ok_iff]
      exact ⟨fun ⟨_, vs, hvs, _⟩ => ⟨vs, hvs⟩, fun ⟨vs, hvs⟩ => ⟨_, vs, hvs, rfl⟩⟩
    rw [hlists, exists_scalars_iff, Json.isOperand, List.all_eq_true]
  | obj entries => simp [ofJson, Json.isOperand, Json.isScalar]
  | _ =>
    rw [ofJson_of_isScalar rfl]
    exact ofItem_succeeds_iff

/-- An array is refused because of its first item that is no scalar. -/
theorem ofJson_arr_eq_error_iff {items : List Json} {e : ReadError} :
    ofJson (.arr items) = .error e ↔ ∃ before bad after, items = before ++ bad :: after ∧
      (∀ i ∈ before, i.isScalar = true) ∧
      ((∃ inner, bad = .arr inner ∧ e = .nestedArray items) ∨
        ∃ entries, bad = .obj entries ∧ e = .object entries) := by
  rw [ofJson_arr_eq_error, mapM_eq_error_iff]
  simp only [ofItem_succeeds_iff, ofItem_eq_error_iff]

theorem ofJson_eq_error_iff {j : Json} {e : ReadError} :
    ofJson j = .error e ↔ Refused j e e.message := by
  cases j with
  | arr items =>
    rw [ofJson_arr_eq_error_iff]
    constructor
    · rintro ⟨before, bad, after, rfl, hbefore, ⟨inner, rfl, rfl⟩ | ⟨entries, rfl, rfl⟩⟩
      · exact .nested hbefore inner
      · exact .item hbefore entries
    · intro h
      cases h with
      | item hbefore entries => exact ⟨_, _, _, rfl, hbefore, .inr ⟨entries, rfl, rfl⟩⟩
      | nested hbefore inner => exact ⟨_, _, _, rfl, hbefore, .inl ⟨inner, rfl, rfl⟩⟩
  | obj entries =>
    constructor
    · intro h
      cases h
      exact .object entries
    · intro h
      cases h
      rfl
  | _ => exact iff_of_false (by simp [ofJson]) (fun h => by cases h)

/-- Operands are the scalars and the arrays of scalars of JSON, and nothing is lost when they are
read. -/
theorem ofJson_lossless (j : Json) :
    ((∃ v, ofJson j = .ok v) ↔ j.isOperand = true) ∧
      (∀ v, ofJson j = .ok v ↔ Represents j v) ∧
      (∀ v, ofJson j = .ok v → v.toJson = j ∧ ofJson v.toJson = .ok v) ∧
      (∀ k v, ofJson j = .ok v → ofJson k = .ok v → j = k) ∧
      ∀ e text, ofJson j = .error e ∧ e.message = text ↔ Refused j e text := by
  refine ⟨ofJson_succeeds_iff, fun _ => ofJson_eq_ok_iff, ?_, ?_, ?_⟩
  · intro v hv
    have hjson : v.toJson = j := (ofJson_eq_ok_iff.mp hv).toJson_eq
    exact ⟨hjson, by rw [hjson, hv]⟩
  · intro k v hj hk
    rw [← (ofJson_eq_ok_iff.mp hj).toJson_eq, (ofJson_eq_ok_iff.mp hk).toJson_eq]
  · intro e text
    have hmessage : Refused j e text → e.message = text := by
      intro h
      cases h <;> rfl
    constructor
    · rintro ⟨herror, rfl⟩
      exact ofJson_eq_error_iff.mp herror
    · intro h
      have htext := hmessage h
      exact ⟨ofJson_eq_error_iff.mpr (htext ▸ h), htext⟩

end Value

end DocFilter
