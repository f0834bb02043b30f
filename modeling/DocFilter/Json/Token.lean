/-!
# JSON tokens

`Json.Token.scan` cuts a text into tokens. It never fails: where the text is not JSON any more, the
last token says so (`Token.fault`, or a string with a `stop`). A number is kept as its literal and a
string as the pieces it is written with, because some readers of a text have to accept numbers that
no word can hold and escapes that name no character.
-/

namespace DocFilter.Json

/-- Why a text cannot be read any further. -/
inductive Fault where
  /-- The text ends. -/
  | ended
  /-- The text ends inside a number. -/
  | numberEnded
  /-- What comes next has no place there. -/
  | malformed
  deriving DecidableEq

/-- A piece of a string. -/
inductive Piece where
  /-- A character, written as itself or by a short escape. -/
  | char (c : Char)
  /-- A sixteen-bit unit, written by its four hexadecimal digits. -/
  | unit (u : Nat)
  deriving DecidableEq

/-- A string as far as it can be read. -/
structure Quoted where
  /-- The pieces between the quotes. -/
  pieces : List Piece
  /-- Why the closing quote was not reached. -/
  stop : Option Fault := none
  deriving DecidableEq

/-- A number as it is written. -/
structure Literal where
  /-- Whether a minus sign comes first. -/
  negative : Bool
  /-- The digits before the point. -/
  whole : List Char
  /-- The digits after the point. -/
  fraction : List Char
  /-- The exponent, which is zero when none is written. -/
  exponent : Int
  /-- Whether there is neither a point nor an exponent. -/
  integral : Bool
  deriving DecidableEq

/-- A token of a JSON text. -/
inductive Token where
  | comma
  | colon
  | openArray
  | closeArray
  | openObject
  | closeObject
  | null
  | bool (b : Bool)
  | number (literal : Literal)
  | string (text : Quoted)
  /-- The text is not JSON from here on. -/
  | fault (f : Fault)
  deriving DecidableEq

/-! ## Numbers -/

/-- The value of a decimal digit. -/
def digitValue (c : Char) : Nat := c.toNat - '0'.toNat

/-- The number that a list of decimal digits stands for. -/
def natOfDigits (ds : List Char) : Nat := ds.foldl (fun n c => 10 * n + digitValue c) 0

/-- The digits at the front of a text. -/
def leadingDigits (cs : List Char) : List Char := cs.takeWhile Char.isDigit

/-- A text without the digits at its front. -/
def afterDigits (cs : List Char) : List Char := cs.dropWhile Char.isDigit

/-- Why digits that have to be there are missing. -/
def noDigits : List Char → Fault
  | [] => .numberEnded
  | _ => .malformed

/-- Reads the rest of a number after the mark of its exponent. -/
def scanExponent (cs : List Char) (ok : Int → Literal) : Except Fault (Literal × List Char) :=
  let (negative, cs) := match cs with
    | '+' :: r => (false, r)
    | '-' :: r => (true, r)
    | r => (false, r)
  match leadingDigits cs with
  | [] => .error (noDigits cs)
  | ds =>
    let n : Int := natOfDigits ds
    .ok (ok (if negative then -n else n), afterDigits cs)

/-- Reads the rest of a number after its point; `whole` holds the digits before it. -/
def scanFraction (negative : Bool) (whole cs : List Char) : Except Fault (Literal × List Char) :=
  match leadingDigits cs with
  | [] => .error (noDigits cs)
  | ds =>
    let literal (e : Int) : Literal := ⟨negative, whole, ds, e, false⟩
    match afterDigits cs with
    | 'e' :: r => scanExponent r literal
    | 'E' :: r => scanExponent r literal
    | r => .ok (literal 0, r)

/-- Reads a number after its sign. A zero at the front has to stand alone before the point. -/
def scanNumber (negative : Bool) (cs : List Char) : Except Fault (Literal × List Char) :=
  match leadingDigits cs with
  | [] => .error (noDigits cs)
  | '0' :: _ :: _ => .error .malformed
  | ds =>
    let literal (e : Int) : Literal := ⟨negative, ds, [], e, false⟩
    match afterDigits cs with
    | '.' :: r => scanFraction negative ds r
    | 'e' :: r => scanExponent r literal
    | 'E' :: r => scanExponent r literal
    | r => .ok ({ literal 0 with integral := true }, r)

/-! ## Strings -/

/-- The value of a hexadecimal digit. -/
def hexValue? (c : Char) : Option Nat :=
  if c.isDigit then some (digitValue c)
  else if 'a' ≤ c && c ≤ 'f' then some (c.toNat - 'a'.toNat + 10)
  else if 'A' ≤ c && c ≤ 'F' then some (c.toNat - 'A'.toNat + 10)
  else none

/-- The unit that four hexadecimal digits stand for. -/
def hexUnit? (a b c d : Char) : Option Nat := do
  return 4096 * (← hexValue? a) + 256 * (← hexValue? b) + 16 * (← hexValue? c) + (← hexValue? d)

/-- The character that a letter stands for after a backslash. -/
def shortEscape? : Char → Option Char
  | '"' => some '"'
  | '\\' => some '\\'
  | '/' => some '/'
  | 'b' => some '\x08'
  | 'f' => some '\x0c'
  | 'n' => some '\n'
  | 'r' => some '\r'
  | 't' => some '\t'
  | _ => none

/-- Why four hexadecimal digits that have to be there are missing: a text of fewer than four bytes
of UTF-8 has ended, whatever it holds. -/
def noUnit (cs : List Char) : Fault :=
  if (cs.take 4).foldr (fun c n => c.utf8Size + n) 0 < 4 then .ended else .malformed

/-- Reads a string after its opening quote: its pieces, and the text after the closing quote or why
there is none. -/
def scanString : List Char → List Piece × Except Fault (List Char)
  | [] => ([], .error .ended)
  | '"' :: r => ([], .ok r)
  | '\\' :: 'u' :: a :: b :: c :: d :: r =>
    match hexUnit? a b c d with
    | some u => let (ps, rest) := scanString r; (.unit u :: ps, rest)
    | none => ([], .error .malformed)
  | '\\' :: 'u' :: r => ([], .error (noUnit r))
  | '\\' :: e :: r =>
    match shortEscape? e with
    | some c => let (ps, rest) := scanString r; (.char c :: ps, rest)
    | none => ([], .error .malformed)
  | ['\\'] => ([], .error .ended)
  | c :: r =>
    if c.toNat < 32 then ([], .error .malformed)
    else let (ps, rest) := scanString r; (.char c :: ps, rest)

/-! ## Words -/

/-- What follows `word` in a text, or why the text does not start with it. -/
def scanWord : List Char → List Char → Except Fault (List Char)
  | [], cs => .ok cs
  | _ :: _, [] => .error .ended
  | w :: ws, c :: cs => if w = c then scanWord ws cs else .error .malformed

/-! ## Lengths

Every scanner leaves a text no longer than the one it was given, which is why `Token.scan` ends. -/

theorem length_afterDigits (cs : List Char) : (afterDigits cs).length ≤ cs.length :=
  (List.dropWhile_suffix _).length_le

theorem length_scanExponent {cs : List Char} {ok : Int → Literal} {l : Literal} {r : List Char}
    (h : scanExponent cs ok = .ok (l, r)) : r.length ≤ cs.length := by
  unfold scanExponent at h
  split at h
  rename_i negative cs' heq
  have hle : cs'.length ≤ cs.length := by
    split at heq <;> simp_all
  split at h
  · simp at h
  · have := length_afterDigits cs'
    simp only [Except.ok.injEq, Prod.mk.injEq] at h
    obtain ⟨-, rfl⟩ := h
    omega

theorem length_scanFraction {negative : Bool} {whole cs : List Char} {l : Literal} {r : List Char}
    (h : scanFraction negative whole cs = .ok (l, r)) : r.length ≤ cs.length := by
  have hd := length_afterDigits cs
  unfold scanFraction at h
  split at h
  · simp at h
  · dsimp only at h
    split at h
    · rename_i heq
      have := length_scanExponent h
      simp [heq] at hd; omega
    · rename_i heq
      have := length_scanExponent h
      simp [heq] at hd; omega
    · simp only [Except.ok.injEq, Prod.mk.injEq] at h
      obtain ⟨-, rfl⟩ := h
      exact hd

theorem length_afterDigits_lt {cs : List Char} (h : leadingDigits cs ≠ []) :
    (afterDigits cs).length < cs.length := by
  have := congrArg List.length (List.takeWhile_append_dropWhile (p := Char.isDigit) (l := cs))
  have hpos := List.length_pos_iff.2 h
  simp only [List.length_append] at this
  unfold afterDigits
  unfold leadingDigits at hpos
  omega

theorem length_scanNumber {negative : Bool} {cs : List Char} {l : Literal} {r : List Char}
    (h : scanNumber negative cs = .ok (l, r)) : r.length < cs.length := by
  unfold scanNumber at h
  split at h
  · simp at h
  · simp at h
  · rename_i hne _
    have hd := length_afterDigits_lt hne
    dsimp only at h
    split at h
    · rename_i heq
      have := length_scanFraction h
      simp [heq] at hd; omega
    · rename_i heq
      have := length_scanExponent h
      simp [heq] at hd; omega
    · rename_i heq
      have := length_scanExponent h
      simp [heq] at hd; omega
    · simp only [Except.ok.injEq, Prod.mk.injEq] at h
      obtain ⟨-, rfl⟩ := h
      exact hd

theorem length_scanString {cs r : List Char} (h : (scanString cs).2 = .ok r) :
    r.length ≤ cs.length := by
  fun_induction scanString cs generalizing r with
  | case1 => simp at h
  | case2 rest => simp only [Except.ok.injEq] at h; subst h; simp
  | case3 a b c d rest u _ ps after heq ih =>
    have := ih (by rw [heq]; exact h)
    simp only [List.length_cons]; omega
  | case4 => simp at h
  | case5 => simp at h
  | case6 e rest _ _ c _ ps after heq ih =>
    have := ih (by rw [heq]; exact h)
    simp only [List.length_cons]; omega
  | case7 => simp at h
  | case8 => simp at h
  | case9 => simp at h
  | case10 c rest _ _ _ _ _ _ ps after heq ih =>
    have := ih (by rw [heq]; exact h)
    simp only [List.length_cons]; omega

theorem length_scanWord {ws cs r : List Char} (h : scanWord ws cs = .ok r) :
    r.length ≤ cs.length := by
  induction ws generalizing cs with
  | nil => simp only [scanWord, Except.ok.injEq] at h; subst h; exact Nat.le_refl _
  | cons w ws ih =>
    cases cs with
    | nil => simp [scanWord] at h
    | cons c cs =>
      simp only [scanWord] at h
      split at h
      · have := ih h
        simp only [List.length_cons]; omega
      · simp at h

/-! ## Tokens -/

/-- The blanks that may stand between tokens. -/
def isBlank (c : Char) : Bool := c == ' ' || c == '\t' || c == '\n' || c == '\r'

/-- The token that a single character stands for. -/
def punctuation? : Char → Option Token
  | ',' => some .comma
  | ':' => some .colon
  | '[' => some .openArray
  | ']' => some .closeArray
  | '\x7b' => some .openObject
  | '\x7d' => some .closeObject
  | _ => none

/-- The token whose first character is `c`, with the text after it. -/
def Token.next (c : Char) (cs : List Char) : Token × Option (List Char) :=
  match c with
  | '"' =>
    match scanString cs with
    | (ps, .ok r) => (.string ⟨ps, none⟩, some r)
    | (ps, .error f) => (.string ⟨ps, some f⟩, none)
  | 'n' => word .null "ull" cs
  | 't' => word (.bool true) "rue" cs
  | 'f' => word (.bool false) "alse" cs
  | '-' => number (scanNumber true cs)
  | c =>
    if c.isDigit then number (scanNumber false (c :: cs))
    else match punctuation? c with
      | some t => (t, some cs)
      | none => (.fault .malformed, none)
where
  /-- The token of a word whose first letter was read. -/
  word (t : Token) (rest : String) (cs : List Char) : Token × Option (List Char) :=
    match scanWord rest.toList cs with
    | .ok r => (t, some r)
    | .error f => (.fault f, none)
  /-- The token of a number. -/
  number : Except Fault (Literal × List Char) → Token × Option (List Char)
    | .ok (l, r) => (.number l, some r)
    | .error f => (.fault f, none)

theorem Token.length_next {c : Char} {cs r : List Char} (h : (Token.next c cs).2 = some r) :
    r.length < (c :: cs).length := by
  have word {t : Token} {s : String} (h : (Token.next.word t s cs).2 = some r) :
      r.length ≤ cs.length := by
    unfold Token.next.word at h
    split at h
    · rename_i h'; simp at h; exact h ▸ length_scanWord h'
    · simp at h
  have number {n : Bool} {ds : List Char} (h : (Token.next.number (scanNumber n ds)).2 = some r) :
      r.length < ds.length := by
    unfold Token.next.number at h
    split at h
    · rename_i h'; simp at h; exact h ▸ length_scanNumber h'
    · simp at h
  simp only [List.length_cons]
  unfold Token.next at h
  split at h
  · split at h
    · rename_i h'
      simp at h
      have := @length_scanString cs r (by rw [h', h])
      omega
    · simp at h
  · have := word h; omega
  · have := word h; omega
  · have := word h; omega
  · have := number h; omega
  · split at h
    · have := number h; simp at this; omega
    · split at h
      · simp at h; subst h; omega
      · simp at h

/-- The tokens of a text, up to the first fault. -/
def Token.scan : List Char → List Token
  | [] => []
  | c :: cs =>
    if isBlank c then scan cs
    else match h : Token.next c cs with
      | (t, none) => [t]
      | (t, some r) =>
        have : r.length < (c :: cs).length := Token.length_next (by rw [h])
        t :: scan r
termination_by cs => cs.length
decreasing_by
  · exact Nat.lt_succ_self _
  · exact this

end DocFilter.Json
