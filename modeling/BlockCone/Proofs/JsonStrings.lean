/-
This file proves what strings are read from their texts.

Between its quotes a string is written in pieces, one for each of its characters. Most characters
may stand for themselves, some may be written as a backslash and a letter, and all of them as
hexadecimal digits, those above the first plane as two halves. The reader takes one piece at a time
and gets its character, whatever text follows, so it gets the string that is spelled, by induction
on the pieces. The reader repeats its step at most as often as the text has characters, and that is
enough because no piece is empty.

A printed string is spelled in one of the ways there are: quotes, backslashes and the characters
below the blank become escapes, and every other character stands for itself.
-/

import BlockCone.Json
import BlockCone.Json.Reader

namespace BlockCone.Json

/-! ### Pieces -/

/-- Four hexadecimal digits stand for a number. -/
inductive IsHex : List Char → Nat → Prop where
  | digits {first second third fourth : Char} {a b c d : Nat} :
      hexValue? first = some a → hexValue? second = some b → hexValue? third = some c →
        hexValue? fourth = some d →
          IsHex [first, second, third, fourth] (((a * 16 + b) * 16 + c) * 16 + d)

theorem IsHex.takeHex_append {digits : List Char} {value : Nat} (isHex : IsHex digits value)
    (rest : List Char) : takeHex (digits ++ rest) = .ok (value, rest) := by
  obtain @⟨first, second, third, fourth, a, b, c, d, one, two, three, four⟩ := isHex
  have enough :
      ¬ first.utf8Size + (second.utf8Size + (third.utf8Size + (fourth.utf8Size + 0))) < 4 := by
    have := first.utf8Size_pos
    have := second.utf8Size_pos
    have := third.utf8Size_pos
    have := fourth.utf8Size_pos
    omega
  rw [List.cons_append, List.cons_append, List.cons_append, List.cons_append, List.nil_append,
    takeHex]
  simp only [List.take_succ_cons, List.take_zero, List.foldr_cons, List.foldr_nil, one, two, three,
    four, if_neg enough]

/-- A piece of a string stands for a character. -/
inductive IsPiece : List Char → Char → Prop where
  | plain {char : Char} : 32 ≤ char.toNat → char ≠ '"' → char ≠ '\\' → IsPiece [char] char
  | escape {letter meant : Char} : simpleEscape? letter = some meant →
      IsPiece ['\\', letter] meant
  | unit {digits : List Char} {value : Nat} : IsHex digits value →
      value < 0xD800 ∨ 0xDFFF < value → IsPiece ('\\' :: 'u' :: digits) (Char.ofNat value)
  | halves {upper lower : List Char} {first second : Nat} : IsHex upper first →
      IsHex lower second → 0xD800 ≤ first → first ≤ 0xDBFF → 0xDC00 ≤ second → second ≤ 0xDFFF →
        IsPiece ('\\' :: 'u' :: (upper ++ '\\' :: 'u' :: lower))
          (Char.ofNat (0x10000 + (first - 0xD800) * 0x400 + (second - 0xDC00)))

/-- A piece is taken as the character that it stands for. -/
theorem IsPiece.stringStep_append {piece : List Char} {char : Char} (isPiece : IsPiece piece char)
    (latest rest : List Char) :
    stringStep latest (piece ++ rest) = .ok (.inl (char :: latest), rest) := by
  cases isPiece with
  | plain high noQuote noBackslash =>
    rw [List.singleton_append, stringStep.eq_def]
    have low : ¬ char.toNat < 32 := Nat.not_lt.mpr high
    grind
  | @escape letter meant means =>
    have noUnit : letter ≠ 'u' := by
      rintro rfl
      cases means
    have taken : takeEscape (letter :: rest) = .ok (char, rest) := by
      rw [takeEscape.eq_def]
      grind
    rw [List.cons_append, List.singleton_append, stringStep, taken]
    rfl
  | @unit digits value isHex outside =>
    have noLower : ¬ (0xDC00 ≤ value ∧ value ≤ 0xDFFF) := by omega
    have noUpper : ¬ (0xD800 ≤ value ∧ value ≤ 0xDBFF) := by omega
    have taken : takeEscape ('u' :: (digits ++ rest)) = .ok (Char.ofNat value, rest) := by
      rw [takeEscape, takeCodePoint, isHex.takeHex_append]
      show (if _ then _ else if _ then _ else _) = _
      rw [if_neg (by simpa using noLower), if_neg (by simpa using noUpper)]
      rfl
    rw [List.cons_append, List.cons_append, stringStep, taken]
    rfl
  | @halves upper lower first second upperHex lowerHex fromUpper toUpper fromLower toLower =>
    have noLower : ¬ (0xDC00 ≤ first ∧ first ≤ 0xDFFF) := by omega
    have taken : takeEscape ('u' :: (upper ++ ('\\' :: 'u' :: (lower ++ rest)))) =
        .ok (Char.ofNat (0x10000 + (first - 0xD800) * 0x400 + (second - 0xDC00)), rest) := by
      rw [takeEscape, takeCodePoint, upperHex.takeHex_append]
      show (if _ then _ else if _ then (takeHex (lower ++ rest) >>= _) else _) = _
      rw [if_neg (by simpa using noLower), if_pos (by simp [fromUpper, toUpper]),
        lowerHex.takeHex_append]
      show (if _ then _ else _) = _
      rw [if_pos (by simp [fromLower, toLower])]
      rfl
    simp only [List.cons_append, List.append_assoc]
    rw [stringStep, taken]
    rfl

theorem IsPiece.ne_nil {piece : List Char} {char : Char} (isPiece : IsPiece piece char) :
    piece ≠ [] := by
  cases isPiece <;> exact List.cons_ne_nil _ _

/-! ### Spellings -/

/-- A text between quotes spells characters. -/
inductive Spells : List Char → List Char → Prop where
  | nil : Spells [] []
  | cons {piece text chars : List Char} {char : Char} : IsPiece piece char → Spells text chars →
      Spells (piece ++ text) (char :: chars)

namespace Spells

variable {text chars : List Char}

theorem length_le (spells : Spells text chars) : chars.length ≤ text.length := by
  induction spells with
  | nil => exact Nat.zero_le _
  | cons isPiece _ inductionHypothesis =>
    have piece := List.length_pos_iff.mpr isPiece.ne_nil
    rw [List.length_append, List.length_cons]
    omega

/-- Repeating the step takes all pieces up to the quote, if there are turns enough. -/
theorem repeatStep (spells : Spells text chars) (latest rest : List Char) {budget : Nat}
    (enough : chars.length < budget) :
    Reader.repeatStep stringStep budget latest (text ++ '"' :: rest) =
      .ok (String.ofList (latest.reverse ++ chars), rest) := by
  induction spells generalizing latest budget with
  | nil =>
    obtain ⟨turns, rfl⟩ := Nat.exists_eq_add_one.mpr enough
    rw [List.append_nil]
    rfl
  | @cons piece text chars char isPiece _ inductionHypothesis =>
    obtain ⟨turns, rfl⟩ := Nat.exists_eq_add_one.mpr (Nat.zero_lt_of_lt enough)
    have later := inductionHypothesis (char :: latest) (Nat.lt_of_succ_lt_succ enough)
    rw [List.reverse_cons, List.append_assoc] at later
    rw [Reader.repeatStep, List.append_assoc, isPiece.stringStep_append]
    exact later

/-- A string is read from any text that spells it, behind the opening quote. -/
theorem stringBody {value : String} (spells : Spells text value.toList) (rest : List Char) :
    Json.stringBody (text ++ '"' :: rest) = .ok (value, rest) := by
  have enough := spells.length_le
  rw [Json.stringBody, Reader.iterate, spells.repeatStep [] rest]
  · rw [List.reverse_nil, List.nil_append, String.ofList_toList]
  · rw [List.length_append]
    omega

end Spells

/-! ### Printed strings -/

theorem hexValue?_hexDigit {value : Nat} (small : value < 16) :
    hexValue? (hexDigit value) = some value := by
  have every : ∀ digit < 16, hexValue? (hexDigit digit) = some digit := by decide
  exact every value small

/-- A control character is written as its number, in four hexadecimal digits. -/
theorem isHex_control {value : Nat} (small : value < 32) :
    IsHex ['0', '0', hexDigit (value / 16), hexDigit (value % 16)] value := by
  have zero : hexValue? '0' = some 0 := by decide
  have together : ((0 * 16 + 0) * 16 + value / 16) * 16 + value % 16 = value := by omega
  have upper : value / 16 < 16 := by omega
  have lower : value % 16 < 16 := by omega
  have digits := IsHex.digits zero zero (hexValue?_hexDigit upper) (hexValue?_hexDigit lower)
  rwa [together] at digits

theorem isPiece_escapedChar (char : Char) : IsPiece (escapedChar char) char := by
  rw [escapedChar.eq_def]
  split
  any_goals exact .escape rfl
  split
  · rename_i low
    have piece := IsPiece.unit (isHex_control low) (Or.inl (by omega))
    rwa [Char.ofNat_toNat] at piece
  · rename_i noQuote noBackslash _ _ _ _ _ high
    exact .plain (Nat.not_lt.mp high) noQuote noBackslash

theorem spells_escapedChars (chars : List Char) : Spells (chars.flatMap escapedChar) chars := by
  induction chars with
  | nil => exact .nil
  | cons first others inductionHypothesis =>
    rw [List.flatMap_cons]
    exact .cons (isPiece_escapedChar first) inductionHypothesis

/-- A string is read back from its text behind the opening quote. -/
theorem stringBody_chars (value : String) (rest : List Char) :
    stringBody (value.toList.flatMap escapedChar ++ '"' :: rest) = .ok (value, rest) :=
  (spells_escapedChars value.toList).stringBody rest

end BlockCone.Json
