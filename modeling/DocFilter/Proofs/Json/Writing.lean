import DocFilter.Json.Printer
import DocFilter.Json.Reading
import Mathlib.Data.List.Basic

/-!
# Reading what was written

The text of an object of strings is read as that object again, whatever characters its keys and
strings have: first the tokens of the text (`Token.scan_quote`), then the tree of the tokens
(`Source.ofString_flat`).
-/

namespace DocFilter.Json

/-! ## Strings -/

/-- The piece that a written character is read as. -/
def piece (c : Char) : Piece := if (escape c)[1]? = some 'u' then .unit c.toNat else .char c

/-- A written string as it is read. -/
def quoted (s : String) : Quoted := ⟨s.toList.map piece, none⟩

theorem hexValue?_hexDigit : ∀ n < 16, hexValue? (hexDigit n) = some n := by decide

theorem hexUnit?_control {n : Nat} (h : n < 32) :
    hexUnit? '0' '0' (hexDigit (n / 16)) (hexDigit (n % 16)) = some n := by
  have hzero : hexValue? '0' = some 0 := by decide
  have hhigh := hexValue?_hexDigit (n / 16) (by omega)
  have hlow := hexValue?_hexDigit (n % 16) (by omega)
  simp only [hexUnit?, hzero, hhigh, hlow, Option.bind_eq_bind, Option.bind_some, Option.pure_def,
    Option.some.injEq]
  omega

theorem scanString_plain {c : Char} (hquote : c ≠ '"') (hescape : c ≠ '\\')
    (hcontrol : ¬ c.toNat < 32) (r : List Char) :
    scanString (c :: r) = (.char c :: (scanString r).1, (scanString r).2) := by
  rw [scanString.eq_def]
  split <;> simp_all

theorem scanString_escape (c : Char) (r : List Char) :
    scanString (escape c ++ r) = (piece c :: (scanString r).1, (scanString r).2) := by
  unfold piece escape
  split
  case h_8 hquote hescape _ _ _ _ _ =>
    split
    · next hcontrol => simp [scanString, hexUnit?_control hcontrol]
    · next hcontrol => simpa using scanString_plain hquote hescape hcontrol r
  all_goals simp [scanString, shortEscape?]

theorem scanString_written (cs r : List Char) :
    scanString (cs.flatMap escape ++ '"' :: r) = (cs.map piece, .ok r) := by
  induction cs with
  | nil => simp [scanString]
  | cons c cs ih => rw [List.flatMap_cons, List.append_assoc, scanString_escape, ih, List.map_cons]

theorem charsOfPieces_unit {u : Nat} (h : u < 32) (stop : Option Fault) (ps : List Piece) :
    charsOfPieces stop (.unit u :: ps) = (Char.ofNat u :: ·) <$> charsOfPieces stop ps := by
  have hhigh : isHighUnit u = false := by simp [isHighUnit]; omega
  have hlow : isLowUnit u = false := by simp [isLowUnit]; omega
  cases ps with
  | nil => simp [charsOfPieces, hhigh, hlow]
  | cons p ps => cases p <;> simp [charsOfPieces, hhigh, hlow]

theorem charsOfPieces_written (cs : List Char) : charsOfPieces none (cs.map piece) = .ok cs := by
  induction cs with
  | nil => rfl
  | cons c cs ih =>
    rw [List.map_cons, piece]
    split
    · next hunit =>
      have hcontrol : c.toNat < 32 := by
        unfold escape at hunit
        split at hunit <;> simp_all
        split at hunit <;> simp_all
      rw [charsOfPieces_unit hcontrol, ih, Char.ofNat_toNat]
      rfl
    · rw [charsOfPieces, ih]
      rfl

theorem text_quoted (s : String) : (quoted s).text = .ok s := by
  simp [Quoted.text, quoted, charsOfPieces_written, Functor.map, Except.map]

/-! ## Tokens -/

theorem Token.scan_of_next {c : Char} {cs r : List Char} {t : Token} (hblank : isBlank c = false)
    (h : Token.next c cs = (t, some r)) : Token.scan (c :: cs) = t :: Token.scan r := by
  rw [Token.scan, if_neg (by simp [hblank])]
  split
  · next hnone => simp [hnone] at h
  · next hsome =>
    rw [h] at hsome
    cases hsome
    rfl

theorem Token.scan_quote (s : String) (r : List Char) :
    Token.scan ((quote s).toList ++ r) = .string (quoted s) :: Token.scan r := by
  have htext : (quote s).toList ++ r = '"' :: (s.toList.flatMap escape ++ '"' :: r) := by
    simp [quote]
  rw [htext]
  refine Token.scan_of_next rfl ?_
  simp [Token.next, scanString_written, quoted]

/-! ## Objects of strings -/

/-- The entries of an object of strings. -/
def flat (es : List (String × String)) : List (String × Json) := es.map fun e => (e.1, .str e.2)

/-- The text of an entry. -/
def entryText (e : String × String) : List Char :=
  (quote e.1).toList ++ ':' :: (quote e.2).toList

/-- The text of the entries after a first one. -/
def furtherText (es : List (String × String)) : List Char := es.flatMap fun e => ',' :: entryText e

/-- The tokens of an entry. -/
def entryTokens (e : String × String) : List Token :=
  [.string (quoted e.1), .colon, .string (quoted e.2)]

/-- The tokens of the entries after a first one. -/
def furtherTokens (es : List (String × String)) : List Token :=
  es.flatMap fun e => .comma :: entryTokens e

/-- The tree of an entry. -/
def entryTree (e : String × String) : Quoted × Tree := (quoted e.1, .string (quoted e.2))

theorem toList_compact_flat (e : String × String) (es : List (String × String)) :
    (Json.obj (flat (e :: es))).compact.toList =
      '\x7b' :: (entryText e ++ (furtherText es ++ ['\x7d'])) := by
  have hentries : ∀ (e : String × String) (es : List (String × String)),
      (",".intercalate (compactEntries (flat (e :: es)))).toList =
        entryText e ++ furtherText es := by
    intro e es
    induction es generalizing e with
    | nil => simp [flat, compactEntries, compact, entryText, furtherText]
    | cons e' es ih =>
      have hcons : compactEntries (flat (e :: e' :: es)) =
          (quote e.1 ++ ":" ++ quote e.2) :: compactEntries (flat (e' :: es)) := by
        simp [flat, compactEntries, compact]
      have hnext : compactEntries (flat (e' :: es)) =
          (quote e'.1 ++ ":" ++ quote e'.2) :: compactEntries (flat es) := by
        simp [flat, compactEntries, compact]
      rw [hcons, hnext, String.intercalate_cons_cons, ← hnext, String.toList_append, ih]
      simp [entryText, furtherText]
  rw [compact, String.toList_append, String.toList_append, hentries]
  simp

theorem Token.scan_entryText (e : String × String) (r : List Char) :
    Token.scan (entryText e ++ r) = entryTokens e ++ Token.scan r := by
  have hcolon : ∀ r, Token.scan (':' :: r) = .colon :: Token.scan r := fun r =>
    Token.scan_of_next rfl rfl
  rw [entryText, List.append_assoc, Token.scan_quote, List.cons_append, hcolon, Token.scan_quote]
  rfl

theorem Token.scan_furtherText (es : List (String × String)) (r : List Char) :
    Token.scan (furtherText es ++ r) = furtherTokens es ++ Token.scan r := by
  induction es with
  | nil => rfl
  | cons e es ih =>
    have hcomma : ∀ r, Token.scan (',' :: r) = .comma :: Token.scan r := fun r =>
      Token.scan_of_next rfl rfl
    rw [furtherText, List.flatMap_cons, List.cons_append, List.cons_append, hcomma,
      List.append_assoc, Token.scan_entryText, ← furtherText, ih]
    simp [furtherTokens]

theorem Token.scan_flat (e : String × String) (es : List (String × String)) :
    Token.scan (Json.obj (flat (e :: es))).compact.toList =
      .openObject :: (entryTokens e ++ (furtherTokens es ++ [.closeObject])) := by
  have hopen : ∀ r, Token.scan ('\x7b' :: r) = .openObject :: Token.scan r := fun r =>
    Token.scan_of_next rfl rfl
  have hclose : Token.scan ['\x7d'] = .closeObject :: Token.scan [] := Token.scan_of_next rfl rfl
  rw [toList_compact_flat, hopen, Token.scan_entryText, Token.scan_furtherText, hclose, Token.scan]

theorem Tree.entries_last (n : Nat) (e : String × String) (r : List Token) :
    Tree.entries (n + 2) (entryTokens e ++ .closeObject :: r) = ⟨[entryTree e], none, some r⟩ :=
  rfl

theorem Tree.entries_comma (n : Nat) (e : String × String) (r : List Token) :
    Tree.entries (n + 2) (entryTokens e ++ .comma :: r) =
      (Tree.entries (n + 1) r).cons (entryTree e) :=
  rfl

/-- Each entry takes one from the first argument, and the value of the last entry one more. -/
theorem Tree.entries_flat {n : Nat} {e : String × String} {es : List (String × String)}
    (hn : es.length + 2 ≤ n) (r : List Token) :
    Tree.entries n (entryTokens e ++ (furtherTokens es ++ .closeObject :: r)) =
      ⟨(e :: es).map entryTree, none, some r⟩ := by
  obtain ⟨k, rfl⟩ : ∃ k, n = k + 2 := ⟨n - 2, by omega⟩
  induction es generalizing k e with
  | nil => exact Tree.entries_last k e r
  | cons e' es ih =>
    obtain ⟨l, rfl⟩ : ∃ l, k = l + 1 := ⟨k - 1, by rw [List.length_cons] at hn; omega⟩
    have hrest := @ih e' l (by rw [List.length_cons] at hn; omega)
    have htokens : furtherTokens (e' :: es) ++ .closeObject :: r =
        .comma :: (entryTokens e' ++ (furtherTokens es ++ .closeObject :: r)) := by
      simp [furtherTokens]
    rw [htokens, Tree.entries_comma, hrest]
    rfl

theorem Source.ofString_flat (e : String × String) (es : List (String × String)) :
    Source.ofString (Json.obj (flat (e :: es))).compact =
      ⟨.object ((e :: es).map entryTree) none, false⟩ := by
  have hlength : es.length ≤ (furtherTokens es).length := by
    induction es with
    | nil => exact Nat.le_refl 0
    | cons e es ih =>
      simp only [furtherTokens, List.flatMap_cons, List.length_append, List.length_cons] at ih ⊢
      omega
  have hvalue : ∀ n, es.length + 2 ≤ n →
      Tree.value (n + 1) (.openObject :: (entryTokens e ++ (furtherTokens es ++ [.closeObject]))) =
        (.object ((e :: es).map entryTree) none, some []) := by
    intro n hn
    have hentries := @Tree.entries_flat n e es hn []
    simp only [entryTokens, List.cons_append, List.nil_append] at hentries ⊢
    rw [Tree.value, hentries]
    simp
  rw [Source.ofString, Token.scan_flat, hvalue]
  simp only [List.length_cons, List.length_append]
  omega

end DocFilter.Json
