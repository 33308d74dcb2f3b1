/-
This file proves what is read of a number that stops early.

A head of a number may be a number itself, a smaller one or a larger one: `2.5e+30` is a head of
`2.5e+300`, and `1` of `12`, but `2.5` of `2.5e-3` is larger. A reader does not know that the text
goes on, and takes it. If it was out of range the reader would call it malformed, so it has to be
shown that no head of what is printed is. A head without an exponent has few digits. A head that
stops inside a negative exponent is not large. Inside a positive one the exponent is a tenth of what
it was, or less, and only the whole text needs the bound on the digits that are printed.

A head that stops where a digit has to follow is truncated. What remains is `IsSpent`: a number that
stops early is truncated, or it is taken to its end and nothing is left.
-/

import BlockCone.Proofs.JsonGrammar
import BlockCone.Proofs.NumberRange
import BlockCone.Proofs.ShortestDigits

namespace BlockCone.Json

open Double (AtMost greatest greatest_eq pow_ten_between)

/-! ### Texts that stop early -/

/-- A head of two texts is a head of the first, or goes on into the second. -/
theorem prefix_append_cases {part front back : List Char} (cut : part <+: front ++ back) :
    part <+: front ∨ ∃ rest, rest ≠ [] ∧ rest <+: back ∧ part = front ++ rest := by
  rcases List.prefix_or_prefix_of_prefix cut (List.prefix_append front back) with inside | beyond
  · exact Or.inl inside
  · obtain ⟨rest, rfl⟩ := beyond
    by_cases nonempty : rest = []
    · rw [nonempty, List.append_nil]
      exact Or.inl List.prefix_rfl
    · exact Or.inr ⟨rest, nonempty, (List.prefix_append_right_inj front).mp cut, rfl⟩

/-- What a reader makes of a text that stops early: it asks for more, or it takes all there is. -/
def IsSpent {β : Type} (answer : Except Fault (β × List Char)) : Prop :=
  answer = .error .truncated ∨ ∃ value, answer = .ok (value, [])

/-! ### Numbers that stop early -/

/-- A point and the digits behind it, if there are any. -/
def pointed : List Char → List Char
  | [] => []
  | first :: rest => '.' :: first :: rest

/-- An exponent with its sign, if there is one. -/
def raised : Option (Bool × List Char) → List Char
  | none => []
  | some (down, digits) => 'e' :: (if down then '-' else '+') :: digits

/-- The parts of a number as it is written. -/
structure AreParts (whole fraction : List Char) (power : Option (Bool × List Char)) : Prop where
  whole : IsWhole whole
  fraction : ∀ digit ∈ fraction, digit.isDigit = true
  power : ∀ down digits, power = some (down, digits) → AreDigits digits

/-- The value of the digits of an exponent with its sign. -/
def signedValue (down : Bool) (digits : List Char) : Int :=
  if down then -digitsValue digits else digitsValue digits

/-- What is read from parts of a number that stop early. -/
inductive IsShown (whole fraction : List Char) (power : Option (Bool × List Char)) :
    Numeral → Prop where
  | plain {negative : Bool} {shownWhole shownFraction : List Char} :
      shownWhole.length ≤ whole.length →
        IsShown whole fraction power ⟨negative, shownWhole, shownFraction, none⟩
  | scaled {negative down : Bool} {digits shown : List Char} :
      power = some (down, digits) → shown <+: digits →
        IsShown whole fraction power ⟨negative, whole, fraction, some (signedValue down shown)⟩

theorem areDigits_of_head {part digits : List Char} (cut : part <+: digits)
    (areDigits : ∀ digit ∈ digits, digit.isDigit = true) (nonempty : part ≠ []) : AreDigits part :=
  ⟨nonempty, fun digit member => areDigits digit (cut.subset member)⟩

theorem IsWhole.of_head {part whole : List Char} (isWhole : IsWhole whole) (cut : part <+: whole)
    (nonempty : part ≠ []) : IsWhole part := by
  obtain ⟨first, rest, rfl⟩ := List.exists_cons_of_ne_nil nonempty
  cases isWhole with
  | zero =>
    obtain ⟨rfl, inside⟩ := List.cons_prefix_cons.mp cut
    rw [List.prefix_nil.mp inside]
    exact .zero
  | digits digit positive others =>
    obtain ⟨rfl, inside⟩ := List.cons_prefix_cons.mp cut
    exact .digits digit positive fun char member => others char (inside.subset member)

theorem EndsDigits.of_head {part text : List Char} (ends : EndsDigits text)
    (cut : part <+: text) : EndsDigits part := by
  cases part with
  | nil => exact fun _ none => absurd none (Option.not_mem_none _)
  | cons first rest =>
    obtain ⟨later, rfl⟩ := cut
    exact fun char here => ends char here

theorem endsDigits_nil : EndsDigits [] :=
  fun _ none => absurd none (Option.not_mem_none _)

theorem scanDigits_part {part digits : List Char} (cut : part <+: digits)
    (areDigits : ∀ digit ∈ digits, digit.isDigit = true) :
    part = [] ∨ scanDigits .truncated part = .ok (part, []) := by
  by_cases nonempty : part = []
  · exact Or.inl nonempty
  · have scanned := scanDigits_append (areDigits_of_head cut areDigits nonempty) endsDigits_nil
      .truncated
    rw [List.append_nil] at scanned
    exact Or.inr scanned

section Parts

variable {whole fraction part : List Char} {power : Option (Bool × List Char)}

theorem endsDigits_raised (power : Option (Bool × List Char)) : EndsDigits (raised power) := by
  cases power with
  | none => exact endsDigits_nil
  | some parts =>
    intro char here
    obtain rfl := Option.some.inj here
    rfl

theorem endsDigits_pointed (fraction : List Char) (power : Option (Bool × List Char)) :
    EndsDigits (pointed fraction ++ raised power) := by
  cases fraction with
  | nil => exact endsDigits_raised power
  | cons first rest =>
    intro char here
    obtain rfl := Option.some.inj here
    rfl

theorem scanFraction_part (areDigits : ∀ digit ∈ fraction, digit.isDigit = true)
    (nonempty : part ≠ []) (cut : part <+: pointed fraction) :
    scanFraction .truncated part = .error .truncated ∨
      ∃ shown, scanFraction .truncated part = .ok (shown, []) := by
  cases fraction with
  | nil => exact absurd (List.prefix_nil.mp cut) nonempty
  | cons first rest =>
    obtain ⟨point, shown, rfl⟩ := List.exists_cons_of_ne_nil nonempty
    obtain ⟨rfl, inside⟩ := List.cons_prefix_cons.mp cut
    rcases scanDigits_part inside areDigits with rfl | scanned
    · exact Or.inl rfl
    · exact Or.inr ⟨shown, scanned⟩

theorem scanFraction_pointed (areDigits : ∀ digit ∈ fraction, digit.isDigit = true)
    (cut : part <+: raised power) :
    scanFraction .truncated (pointed fraction ++ part) = .ok (fraction, part) := by
  have ends := (endsDigits_raised power).of_head cut
  cases fraction with
  | nil =>
    rw [pointed, List.nil_append, scanFraction.eq_def]
    split
    · rename_i rest
      cases power with
      | none => exact absurd (List.prefix_nil.mp cut) (List.cons_ne_nil _ _)
      | some parts => exact absurd (List.cons_prefix_cons.mp cut).1 (by decide)
    · rfl
  | cons first rest =>
    exact scanDigits_append ⟨List.cons_ne_nil _ _, areDigits⟩ ends .truncated

theorem scanExponent_part (areParts : AreParts whole fraction power) (nonempty : part ≠ [])
    (cut : part <+: raised power) :
    scanExponent .truncated part = .error .truncated ∨
      ∃ down digits shown, power = some (down, digits) ∧ shown <+: digits ∧
        scanExponent .truncated part = .ok (some (signedValue down shown), []) := by
  cases power with
  | none => exact absurd (List.prefix_nil.mp cut) nonempty
  | some parts =>
    obtain ⟨down, digits⟩ := parts
    obtain ⟨mark, later, rfl⟩ := List.exists_cons_of_ne_nil nonempty
    obtain ⟨rfl, inside⟩ := List.cons_prefix_cons.mp cut
    cases later with
    | nil => exact Or.inl rfl
    | cons sign shown =>
      obtain ⟨rfl, shownCut⟩ := List.cons_prefix_cons.mp inside
      rcases scanDigits_part shownCut (areParts.power down digits rfl).2 with rfl | scanned
      · cases down <;> exact Or.inl rfl
      · refine Or.inr ⟨down, digits, shown, rfl, shownCut, ?_⟩
        cases down with
        | true =>
          show (scanDigits .truncated shown >>= _) = _
          rw [scanned]
          rfl
        | false =>
          show (scanDigits .truncated shown >>= _) = _
          rw [scanned]
          rfl

/-- A number that stops early behind its sign is too short, or a number of fewer characters. -/
theorem scanUnsigned_part (areParts : AreParts whole fraction power)
    (cut : part <+: whole ++ (pointed fraction ++ raised power)) (negative : Bool) :
    scanUnsigned .truncated negative part = .error .truncated ∨
      ∃ numeral, scanUnsigned .truncated negative part = .ok (numeral, []) ∧
        IsShown whole fraction power numeral := by
  rcases prefix_append_cases cut with inside | ⟨later, nonempty, cutLater, rfl⟩
  · by_cases empty : part = []
    · rw [empty]
      exact Or.inl rfl
    · have scanned := (areParts.whole.of_head inside empty).scanWhole_append endsDigits_nil
        .truncated
      rw [List.append_nil] at scanned
      rw [scanUnsigned, scanned]
      exact Or.inr ⟨_, rfl, .plain inside.length_le⟩
  · have scanned := areParts.whole.scanWhole_append
      ((endsDigits_pointed fraction power).of_head cutLater) .truncated
    rw [scanUnsigned, scanned]
    show (scanFraction .truncated later >>= _) = _ ∨
      ∃ numeral, (scanFraction .truncated later >>= _) = _ ∧ _
    rcases prefix_append_cases cutLater with inside | ⟨last, more, cutLast, rfl⟩
    · rcases scanFraction_part areParts.fraction nonempty inside with short | ⟨shown, taken⟩
      · rw [short]
        exact Or.inl rfl
      · rw [taken]
        exact Or.inr ⟨_, rfl, .plain (Nat.le_refl _)⟩
    · rw [scanFraction_pointed areParts.fraction cutLast]
      show (scanExponent .truncated last >>= _) = _ ∨
        ∃ numeral, (scanExponent .truncated last >>= _) = _ ∧ _
      rcases scanExponent_part areParts more cutLast with
        short | ⟨down, digits, shown, same, shownCut, taken⟩
      · rw [short]
        exact Or.inl rfl
      · rw [taken]
        exact Or.inr ⟨_, rfl, .scaled same shownCut⟩

/-- A number that stops early is too short, or a number of fewer characters. -/
theorem scanNumeral_part (areParts : AreParts whole fraction power) (negative : Bool)
    (cut : part <+: (if negative then ['-'] else []) ++
      (whole ++ (pointed fraction ++ raised power))) :
    scanNumeral .truncated part = .error .truncated ∨
      ∃ numeral, scanNumeral .truncated part = .ok (numeral, []) ∧
        IsShown whole fraction power numeral := by
  cases part with
  | nil => exact Or.inl rfl
  | cons first rest =>
    cases negative with
    | true =>
      obtain ⟨rfl, inside⟩ := List.cons_prefix_cons.mp cut
      exact scanUnsigned_part areParts inside true
    | false =>
      rw [if_neg Bool.false_ne_true, List.nil_append] at cut
      have digit : first.isDigit = true := by
        obtain ⟨nonempty, areDigits⟩ := areParts.whole.areDigits
        obtain ⟨leading, others, rfl⟩ := List.exists_cons_of_ne_nil nonempty
        obtain ⟨rfl, _⟩ := List.cons_prefix_cons.mp cut
        exact areDigits _ List.mem_cons_self
      rw [scanNumeral_of_isDigit digit]
      exact scanUnsigned_part areParts cut false

/-- A number that stops early can be read if all that it shows is within range. -/
theorem takeNumber_part (areParts : AreParts whole fraction power) (negative : Bool)
    (inRange : ∀ numeral, IsShown whole fraction power numeral → AtMost greatest numeral.magnitude)
    (cut : part <+: (if negative then ['-'] else []) ++
      (whole ++ (pointed fraction ++ raised power))) : IsSpent (takeNumber part) := by
  rcases scanNumeral_part areParts negative cut with short | ⟨numeral, scanned, isShown⟩
  · rw [takeNumber, short]
    exact Or.inl rfl
  · obtain ⟨number, read⟩ := Numeral.exists_toNumber_eq (inRange numeral isShown)
    rw [takeNumber, scanned]
    show IsSpent (numeral.toNumber >>= _)
    rw [read]
    exact Or.inr ⟨number, rfl⟩

theorem AreParts.isNumber (areParts : AreParts whole fraction power) (negative : Bool) :
    IsNumber ((if negative then ['-'] else []) ++
      (whole ++ (pointed fraction ++ raised power))) := by
  refine .parts ?_ areParts.whole ?_ ?_
  · cases negative with
    | true => exact Or.inr rfl
    | false => exact Or.inl rfl
  · cases fraction with
    | nil => exact .empty
    | cons first rest => exact .point ⟨List.cons_ne_nil _ _, areParts.fraction⟩
  · cases power with
    | none => exact .empty
    | some parts =>
      obtain ⟨down, digits⟩ := parts
      have signed : ∀ sign : Char, sign = '-' ∨ sign = '+' → IsPower ('e' :: ([sign] ++ digits)) :=
        fun sign either => .exponent (Or.inl rfl)
          (Or.inr (either.imp (congrArg fun char => [char]) (congrArg fun char => [char])))
          (areParts.power down digits rfl)
      cases down with
      | true => exact signed '-' (Or.inl rfl)
      | false => exact signed '+' (Or.inr rfl)

/-- A number that does not stop early is read to its end. -/
theorem exists_takeNumber_eq (areParts : AreParts whole fraction power) (negative : Bool)
    (inRange : ∀ numeral, IsShown whole fraction power numeral →
      AtMost greatest numeral.magnitude) :
    ∃ number, takeNumber ((if negative then ['-'] else []) ++
      (whole ++ (pointed fraction ++ raised power))) = .ok (number, []) := by
  obtain ⟨numeral, all⟩ := (areParts.isNumber negative).scanNumeral_append
    (show endsNumber [] = true from rfl) .truncated
  rw [List.append_nil] at all
  rcases scanNumeral_part areParts negative List.prefix_rfl with short | ⟨shown, scanned, isShown⟩
  · rw [short] at all
    cases all
  · obtain ⟨number, read⟩ := Numeral.exists_toNumber_eq (inRange shown isShown)
    refine ⟨number, ?_⟩
    rw [takeNumber, scanned]
    show (shown.toNumber >>= _) = _
    rw [read]
    rfl

end Parts

/-! ### Natural numbers that stop early -/

theorem isWhole_toDigits (value : Nat) : IsWhole (Nat.toDigits 10 value) := by
  obtain ⟨first, rest, written, digit⟩ := exists_toDigits_eq_cons value
  have areDigits := areDigits_toDigits value
  rw [written] at areDigits ⊢
  by_cases zero : first = '0'
  · subst zero
    cases rest with
    | nil => exact .zero
    | cons second later => exact absurd written (toDigits_ne_zero_cons value second later)
  · exact .digits digit zero (List.forall_mem_cons.mp areDigits).2

/-- The digits at the head of a natural number are a natural number. -/
theorem toDigits_part {part : List Char} {value : Nat} (cut : part <+: Nat.toDigits 10 value) :
    part = [] ∨ ∃ shown, part = Nat.toDigits 10 shown ∧ (shown = value ∨ 10 * shown ≤ value) := by
  induction value using Nat.strongRecOn generalizing part with
  | ind value inductionHypothesis =>
    by_cases small : value < 10
    · rw [Nat.toDigits_of_lt_base small] at cut
      cases part with
      | nil => exact Or.inl rfl
      | cons first rest =>
        obtain ⟨rfl, inside⟩ := List.cons_prefix_cons.mp cut
        rw [List.prefix_nil.mp inside]
        exact Or.inr ⟨value, (Nat.toDigits_of_lt_base small).symm, Or.inl rfl⟩
    · have split : Nat.toDigits 10 value =
          Nat.toDigits 10 (value / 10) ++ [Nat.digitChar (value % 10)] := by
        rw [Nat.toDigits_eq_if (by decide), if_neg small]
      rw [split] at cut
      rcases List.prefix_concat_iff.mp cut with whole | inside
      · exact Or.inr ⟨value, whole.trans split.symm, Or.inl rfl⟩
      · rcases inductionHypothesis (value / 10) (by omega) inside with empty | ⟨shown, same, bound⟩
        · exact Or.inl empty
        · exact Or.inr ⟨shown, same, Or.inr (by omega)⟩

/-! ### Doubles that stop early -/

open Decimal (Digits storedLayout)

/-- A number as it is written, of which every head that is a number is within range. -/
def IsCuttable (chars : List Char) : Prop :=
  ∃ (whole fraction : List Char) (power : Option (Bool × List Char)),
    chars = whole ++ (pointed fraction ++ raised power) ∧ AreParts whole fraction power ∧
      ∀ numeral, IsShown whole fraction power numeral → AtMost greatest numeral.magnitude

theorem isCuttable_plain {whole fraction : List Char} (isWhole : IsWhole whole)
    (areDigits : ∀ digit ∈ fraction, digit.isDigit = true) (short : whole.length ≤ 17) :
    IsCuttable (whole ++ pointed fraction) := by
  refine ⟨whole, fraction, none, by rw [raised, List.append_nil], ⟨isWhole, areDigits, ?_⟩, ?_⟩
  · exact fun _ _ none => absurd none.symm (Option.some_ne_none _)
  · intro numeral isShown
    cases isShown with
    | plain shorter => exact Numeral.magnitude_atMost_of_plain (shorter.trans short) (Int.le_refl 0)
    | scaled none => exact absurd none.symm (Option.some_ne_none _)

theorem isWhole_zeros {value count : Nat} (nonzero : 0 < count → value ≠ 0) :
    IsWhole (Nat.toDigits 10 value ++ List.replicate count '0') := by
  rcases Nat.eq_zero_or_pos count with rfl | positive
  · rw [List.replicate_zero, List.append_nil]
    exact isWhole_toDigits value
  · have whole := isWhole_toDigits value
    have positional := digitsValue_toDigits value
    generalize Nat.toDigits 10 value = digits at whole positional ⊢
    cases whole with
    | zero => exact absurd positional.symm (nonzero positive)
    | digits digit leading others =>
      refine .digits digit leading fun char member => ?_
      rcases List.mem_append.mp member with early | zero
      · exact others char early
      · rw [(List.mem_replicate.mp zero).2]
        rfl

theorem pointed_of_ne_nil {digits : List Char} (nonempty : digits ≠ []) :
    pointed digits = '.' :: digits := by
  obtain ⟨first, rest, rfl⟩ := List.exists_cons_of_ne_nil nonempty
  rfl

/-- Digits with zeros in front of them, so that there is one more than places after the point. -/
def padded (places : Nat) (digits : List Char) : List Char :=
  List.replicate (places + 1 - digits.length) '0' ++ digits

section Padded

variable {places : Nat} {digits : List Char}

theorem length_padded : (padded places digits).length = max (places + 1) digits.length := by
  rw [padded, List.length_append, List.length_replicate]
  omega

theorem areDigits_padded (areDigits : ∀ digit ∈ digits, digit.isDigit = true) :
    ∀ digit ∈ padded places digits, digit.isDigit = true := by
  intro digit member
  rcases List.mem_append.mp member with zero | written
  · rw [(List.mem_replicate.mp zero).2]
    rfl
  · exact areDigits digit written

/-- What stands before the point is a natural number: the head of the digits, or a zero. -/
theorem isWhole_take_padded (isWhole : IsWhole digits) :
    IsWhole ((padded places digits).take ((padded places digits).length - places)) := by
  rw [length_padded]
  rcases Nat.lt_or_ge places digits.length with more | few
  · rw [padded, Nat.sub_eq_zero_of_le more, List.replicate_zero, List.nil_append]
    refine isWhole.of_head (List.take_prefix _ _) ?_
    rw [← List.length_pos_iff, List.length_take]
    omega
  · have one : max (places + 1) digits.length - places = 1 := by omega
    obtain ⟨count, more⟩ := Nat.exists_eq_add_one.mpr (Nat.sub_pos_of_lt (Nat.lt_succ_of_le few))
    rw [one, padded, more, List.replicate_succ]
    exact .zero

end Padded

theorem toList_pointText {units places : Nat} (positive : 0 < places) :
    (Decimal.pointText units places).toList =
      (padded places (Nat.toDigits 10 units)).take
          ((padded places (Nat.toDigits 10 units)).length - places) ++
        pointed ((padded places (Nat.toDigits 10 units)).drop
          ((padded places (Nat.toDigits 10 units)).length - places)) := by
  have nonempty : (padded places (Nat.toDigits 10 units)).drop
      ((padded places (Nat.toDigits 10 units)).length - places) ≠ [] := by
    rw [← List.length_pos_iff, List.length_drop, length_padded]
    omega
  rw [pointed_of_ne_nil nonempty, Decimal.pointText]
  simp only [String.toList_append, String.toList_ofList, List.append_assoc]
  rfl

theorem isCuttable_pointText {units places : Nat} (positive : 0 < places)
    (short : (Nat.toDigits 10 units).length ≤ places + 17) :
    IsCuttable (Decimal.pointText units places).toList := by
  have allDigits : ∀ digit ∈ padded places (Nat.toDigits 10 units), digit.isDigit = true :=
    areDigits_padded (areDigits_toDigits units)
  rw [toList_pointText positive]
  refine isCuttable_plain (isWhole_take_padded (isWhole_toDigits units))
    (fun digit member => allDigits digit (List.mem_of_mem_drop member)) ?_
  rw [List.length_take, length_padded]
  omega

/-- A number of moderate size is written without an exponent. -/
theorem isCuttable_positionalText {digits : Digits}
    (nonzero : 0 < digits.exponent → digits.significand ≠ 0)
    (moderate : digits.exponent + ((Nat.toDigits 10 digits.significand).length : Int) - 1 < 16) :
    IsCuttable (storedLayout.positionalText digits).toList := by
  rw [Decimal.Layout.positionalText]
  split
  · have text : (Decimal.digitText digits.significand ++ Decimal.zeros digits.exponent.toNat ++
        storedLayout.wholeEnding).toList =
          Nat.toDigits 10 digits.significand ++ List.replicate digits.exponent.toNat '0' ++
            pointed ['0'] := by
      simp only [Decimal.digitText, Decimal.zeros, String.toList_append, String.toList_ofList]
      rfl
    rw [text]
    refine isCuttable_plain (isWhole_zeros fun positive => nonzero (by omega))
      (List.forall_mem_singleton.mpr rfl) ?_
    rw [List.length_append, List.length_replicate]
    omega
  · exact isCuttable_pointText (by omega) (by omega)

/-- A number with one digit before the point is within range under every exponent that a head of
its own shows, if it is so under its own. -/
theorem magnitude_atMost_of_isShown {significand : Nat} {leading : Int} {first : Char}
    {rest : List Char} (written : Nat.toDigits 10 significand = first :: rest)
    (inRange : leading ≤ 307 ∨ (first = '0' ∧ rest = []) ∨ leading = 308 ∧ rest.length ≤ 17 ∧
      significand * 10 ^ (308 - rest.length) ≤ greatest) {numeral : Numeral}
    (isShown : IsShown [first] rest
      (some (decide (leading < 0), Nat.toDigits 10 leading.natAbs)) numeral) :
    AtMost greatest numeral.magnitude := by
  have areDigits := areDigits_toDigits significand
  have value := digitsValue_toDigits significand
  rw [written] at areDigits value
  obtain ⟨digit, others⟩ := List.forall_mem_cons.mp areDigits
  cases isShown with
  | plain shorter =>
    exact Numeral.magnitude_atMost_of_plain (shorter.trans (by simp)) (Int.le_refl 0)
  | @scaled negative down _ shown same cut =>
    obtain ⟨rfl, rfl⟩ := Prod.mk.inj (Option.some.inj same)
    have plain (exponent : Int) (low : exponent ≤ 0) :
        AtMost greatest (Numeral.magnitude ⟨negative, [first], rest, some exponent⟩) :=
      Numeral.magnitude_atMost_of_plain (by simp) low
    rcases toDigits_part cut with rfl | ⟨number, rfl, bound⟩
    · refine plain _ ?_
      cases decide (leading < 0) <;> decide
    · rw [signedValue, digitsValue_toDigits]
      split
      · exact plain _ (by omega)
      · rename_i up
        have nonneg : 0 ≤ leading := by simpa using up
        rcases inRange with low | ⟨rfl, rfl⟩ | ⟨rfl, short, small⟩
        · exact Numeral.magnitude_atMost_of_exponent digit others (by omega)
        · exact Numeral.magnitude_atMost_of_zero
        · rcases bound with rfl | few
          · exact Numeral.magnitude_atMost_of_top digit short (value.symm ▸ small)
          · exact Numeral.magnitude_atMost_of_exponent digit others (by omega)

/-- A number of another size is written with one digit before the point and an exponent. -/
theorem isCuttable_exponentText {digits : Digits} {leading : Int}
    (inRange : ∀ first rest, Nat.toDigits 10 digits.significand = first :: rest →
      leading ≤ 307 ∨ (first = '0' ∧ rest = []) ∨ leading = 308 ∧ rest.length ≤ 17 ∧
        digits.significand * 10 ^ (308 - rest.length) ≤ greatest) :
    IsCuttable (Decimal.Layout.exponentText digits leading).toList := by
  obtain ⟨first, rest, written, digit⟩ := exists_toDigits_eq_cons digits.significand
  have areDigits := areDigits_toDigits digits.significand
  rw [written] at areDigits
  refine ⟨[first], rest, some (decide (leading < 0), Nat.toDigits 10 leading.natAbs), ?_,
    ⟨?_, (List.forall_mem_cons.mp areDigits).2, ?_⟩,
    fun _ => magnitude_atMost_of_isShown written (inRange first rest written)⟩
  · rw [Decimal.Layout.exponentText, written]
    cases rest <;> by_cases down : leading < 0 <;>
      simp [down, pointed, raised, Decimal.digitText]
  · by_cases zero : first = '0'
    · exact zero ▸ .zero
    · exact .digits digit zero fun _ none => absurd none List.not_mem_nil
  · rintro _ _ same
    obtain ⟨rfl, rfl⟩ := Prod.mk.inj (Option.some.inj same)
    exact ⟨toDigits_ne_nil, areDigits_toDigits _⟩

/-- A natural number is at least the power of ten at its leading digit. -/
theorem pow_le_of_toDigits {value : Nat} {first : Char} {rest : List Char}
    (written : Nat.toDigits 10 value = first :: rest) (nonzero : value ≠ 0) :
    10 ^ rest.length ≤ value := by
  rcases Nat.eq_zero_or_pos rest.length with none | some
  · rw [none]
    exact Nat.pos_of_ne_zero nonzero
  · refine Nat.not_lt.mp fun below => ?_
    have few := (Nat.length_toDigits_le_iff (by decide) some).mpr below
    rw [written, List.length_cons] at few
    omega

/-- Digits of a double that reach the largest power of ten are few, and stand for no more than the
largest double. -/
theorem shortest_digits_top {steps : Nat} {power : Int} (small : steps < 2 ^ 53) (low : power ≤ 971)
    {first : Char} {rest : List Char}
    (written : Nat.toDigits 10 (Decimal.shortest .even steps power).significand = first :: rest)
    (nonzero : (Decimal.shortest .even steps power).significand ≠ 0)
    (large : 308 ≤ (Decimal.shortest .even steps power).exponent + rest.length) :
    (Decimal.shortest .even steps power).exponent + rest.length = 308 ∧ rest.length ≤ 17 ∧
      (Decimal.shortest .even steps power).significand * 10 ^ (308 - rest.length) ≤ greatest := by
  have top := @Decimal.shortest_top steps power small low
  rw [Digits.size_toRatio] at top
  generalize Decimal.shortest .even steps power = digits at *
  have least := pow_le_of_toDigits written nonzero
  have reached : (10 : ℚ) ^ (digits.exponent + rest.length) ≤
      digits.significand * 10 ^ digits.exponent := by
    rw [zpow_add₀ (by decide), zpow_natCast, mul_comm]
    exact mul_le_mul_of_nonneg_right (by exact_mod_cast least) (zpow_pos (by decide) _).le
  have bound : ((10 ^ 308 : Nat) : ℚ) ≤ digits.significand * 10 ^ digits.exponent := by
    refine le_trans ?_ reached
    rw [Nat.cast_pow, ← zpow_natCast]
    exact zpow_le_zpow_right₀ (by decide) large
  obtain ⟨atMost, high⟩ := top bound
  have leading : digits.exponent + rest.length < 309 := by
    have next : greatest < 10 ^ (308 + 1) := by
      have between := pow_ten_between.1
      have tens := Nat.pow_add 10 308 1
      rw [greatest_eq]
      omega
    have below : ((greatest : Nat) : ℚ) < (10 ^ (308 + 1) : Nat) := Nat.cast_lt.mpr next
    have powers := (reached.trans atMost).trans_lt below
    rw [Nat.cast_pow, ← zpow_natCast] at powers
    exact (zpow_lt_zpow_iff_right₀ (by decide)).mp powers
  have exponent : digits.exponent = (308 - rest.length : Nat) := by omega
  refine ⟨by omega, by omega, ?_⟩
  rw [exponent, zpow_natCast] at atMost
  exact_mod_cast atMost

theorem isCuttable_unsignedText {steps : Nat} {power : Int} (small : steps < 2 ^ 53)
    (low : power ≤ 971) :
    IsCuttable (storedLayout.unsignedText (Decimal.shortest .even steps power)).toList := by
  have digits := @Nat.length_toDigits_pos 10 (Decimal.shortest .even steps power).significand
  rw [Decimal.Layout.unsignedText]
  split
  · rename_i positional
    have moderate : (Decimal.shortest .even steps power).exponent +
        ((Nat.toDigits 10 (Decimal.shortest .even steps power).significand).length : Int) - 1 <
          16 := by
      simp only [storedLayout, Bool.and_eq_true, decide_eq_true_eq] at positional
      exact positional.2
    refine isCuttable_positionalText (fun high => ?_) moderate
    rcases Nat.eq_zero_or_pos steps with rfl | positive
    · exact absurd high (Int.lt_irrefl 0)
    · exact Decimal.shortest_significand_ne_zero .even positive.ne' power high (by omega)
  · refine isCuttable_exponentText fun first rest written => ?_
    rw [written, List.length_cons]
    by_cases moderate : (Decimal.shortest .even steps power).exponent + rest.length ≤ 307
    · exact Or.inl (by omega)
    · by_cases zero : (Decimal.shortest .even steps power).significand = 0
      · rw [zero] at written
        obtain ⟨rfl, rfl⟩ := List.cons.inj written
        exact Or.inr (Or.inl ⟨rfl, rfl⟩)
      · obtain ⟨leading, short, bound⟩ := shortest_digits_top small low written zero (by omega)
        exact Or.inr (Or.inr ⟨by omega, short, bound⟩)

theorem bounds_of_ofFloat {value : Float} {negative : Bool} {steps : Nat} {power : Int}
    (finite : Decimal.Binary.ofFloat value = .finite negative steps power) :
    steps < 2 ^ 53 ∧ power ≤ 971 := by
  have field : value.toBits.toNat / Decimal.fullSteps % 2048 < 2048 := Nat.mod_lt _ (by decide)
  have fraction : value.toBits.toNat % Decimal.fullSteps < Decimal.fullSteps :=
    Nat.mod_lt _ (by decide)
  have full : Decimal.fullSteps = 2 ^ 52 := rfl
  rw [Decimal.Binary.ofFloat] at finite
  generalize value.toBits.toNat / Decimal.fullSteps % 2048 = exponent at field finite
  generalize value.toBits.toNat % Decimal.fullSteps = mantissa at fraction finite
  split at finite
  · split at finite <;> cases finite
  · rename_i top
    have inside : exponent ≠ 2047 := by simpa using top
    split at finite <;> obtain ⟨_, rfl, rfl⟩ := Decimal.Binary.finite.inj finite
    · exact ⟨by omega, by decide⟩
    · exact ⟨by omega, by omega⟩

/-- The text of a double has the parts of a number, and no head of it is out of range. -/
theorem exists_parts_of_stored {value : Float} {text : String}
    (printed : Decimal.stored? value = some text) :
    ∃ (negative : Bool) (whole fraction : List Char) (power : Option (Bool × List Char)),
      text.toList = (if negative then ['-'] else []) ++
        (whole ++ (pointed fraction ++ raised power)) ∧
      AreParts whole fraction power ∧
      ∀ numeral, IsShown whole fraction power numeral → AtMost greatest numeral.magnitude := by
  rw [Decimal.stored?] at printed
  split at printed
  · rename_i negative steps power finite
    obtain rfl := Option.some.inj printed
    obtain ⟨small, low⟩ := bounds_of_ofFloat finite
    obtain ⟨whole, fraction, exponent, same, areParts, inRange⟩ := isCuttable_unsignedText small low
    have tie : storedLayout.tie = .even := rfl
    refine ⟨negative, whole, fraction, exponent, ?_, areParts, inRange⟩
    rw [Decimal.Layout.finiteText, String.toList_append, tie, same]
    cases negative <;> rfl
  · cases printed

/-- A head of the text of a double is too short for a number, or is a number. -/
theorem takeNumber_stored {value : Float} {text : String}
    (printed : Decimal.stored? value = some text) {part : List Char} (cut : part <+: text.toList) :
    IsSpent (takeNumber part) := by
  obtain ⟨negative, whole, fraction, power, same, areParts, inRange⟩ :=
    exists_parts_of_stored printed
  exact takeNumber_part areParts negative inRange (same ▸ cut)

/-- The text of a double is a number, and it is read to its end. -/
theorem exists_takeNumber_stored {value : Float} {text : String}
    (printed : Decimal.stored? value = some text) :
    ∃ first rest number, text.toList = first :: rest ∧ startsNumber first = true ∧
      takeNumber (first :: rest) = .ok (number, []) := by
  obtain ⟨negative, whole, fraction, power, same, areParts, inRange⟩ :=
    exists_parts_of_stored printed
  obtain ⟨first, rest, written, starts⟩ := (areParts.isNumber negative).exists_eq_cons
  obtain ⟨number, taken⟩ := exists_takeNumber_eq areParts negative inRange
  rw [← same] at written taken
  exact ⟨first, rest, number, written, starts, written ▸ taken⟩

end BlockCone.Json
