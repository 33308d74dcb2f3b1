/-
This file proves how numbers are read out of a longer text.

A printed number is followed by something: a comma, a line break, a closing bracket or brace, or
nothing. None of these goes on with a number, so a scanner stops where the number ends. `TakesHead`
says this of a scanner once and for all, and it passes from the parts of a number to numbers. What
is known of the text of a number alone is then known of the number in its place.

For natural numbers the text is known completely: decimal digits without needless zeros, read back
as the number they were printed from. For doubles it is not, because this reader does not always
find the nearest double again. That a double is read back from its own text is therefore a property
of the double, `Decimal.ReadsBack`. A double that is not finite is printed as a word, and the
reader of numbers reports a mismatch.
-/

import Mathlib.Data.List.Basic
import BlockCone.Decimal.Layout
import BlockCone.Json
import BlockCone.Json.Reader
import BlockCone.Proofs.Fallible

namespace BlockCone

theorem toDigits_ne_nil {value : Nat} : Nat.toDigits 10 value ≠ [] :=
  List.ne_nil_of_length_pos Nat.length_toDigits_pos

theorem areDigits_toDigits (value : Nat) :
    ∀ digit ∈ Nat.toDigits 10 value, digit.isDigit = true :=
  fun _ => Nat.isDigit_of_mem_toDigits (by decide) (by decide)

/-- A natural number starts with a digit. -/
theorem exists_toDigits_eq_cons (value : Nat) :
    ∃ first rest, Nat.toDigits 10 value = first :: rest ∧ first.isDigit = true := by
  obtain ⟨first, rest, written⟩ := List.exists_cons_of_ne_nil (@toDigits_ne_nil value)
  exact ⟨first, rest, written, areDigits_toDigits value first (written ▸ List.mem_cons_self)⟩

/-! ### The text of a double -/

namespace Decimal

/-- The exponent of a double as its logical model reads it is the field that printing looks at. -/
theorem unpackExponent_eq_iff (value : Float) :
    @Float.Model.UnpackedFloat.unpackExponent .binary64 value.toModel.toBits.toBitVec = -1#11 ↔
      value.toBits.toNat / fullSteps % 2048 = 2047 := by
  rw [← BitVec.toNat_inj]
  simp only [Float.Model.UnpackedFloat.unpackExponent, BitVec.toNat_cast, BitVec.extractLsb_toNat]
  show value.toBits.toNat >>> 52 % 2048 = 2047 ↔ _
  rw [Nat.shiftRight_eq_div_pow]
  rfl

theorem isFinite_iff (value : Float) :
    value.isFinite = true ↔ value.toBits.toNat / fullSteps % 2048 ≠ 2047 := by
  rw [ne_eq, ← unpackExponent_eq_iff]
  -- Splitting the cases here would rewrite under the bounds that a finite double carries.
  show Float.Model.UnpackedFloat.isFinite (ite (_ = _) (ite (_ = _) _ _)
    (ite (_ = _) (dite (_ = _) _ _) _)) = true ↔ ¬ _ = _
  by_cases top : @Float.Model.UnpackedFloat.unpackExponent .binary64
      value.toModel.toBits.toBitVec = -1#11
  · rw [if_pos top]
    split <;> exact iff_of_false Bool.false_ne_true fun below => below top
  · rw [if_neg top]
    refine iff_of_true ?_ top
    by_cases small : @Float.Model.UnpackedFloat.unpackExponent .binary64
        value.toModel.toBits.toBitVec = 0#11
    · rw [if_pos small]
      by_cases zero : @Float.Model.UnpackedFloat.unpackMantissa .binary64
          value.toModel.toBits.toBitVec = 0#52
      · rw [dif_pos zero]
        rfl
      · rw [dif_neg zero]
        rfl
    · rw [if_neg small]
      rfl

/-- A double has a text exactly if it is finite. -/
theorem isSome_stored? (value : Float) : (stored? value).isSome = value.isFinite := by
  rw [Bool.eq_iff_iff, isFinite_iff]
  simp only [stored?, Binary.ofFloat, beq_iff_eq]
  by_cases top : value.toBits.toNat / fullSteps % 2048 = 2047
  · rw [if_pos top]
    by_cases whole : value.toBits.toNat % fullSteps = 0 <;> simp [whole, top]
  · rw [if_neg top]
    by_cases small : value.toBits.toNat / fullSteps % 2048 = 0 <;> simp [small, top]

/-- Whether a character may stand in a number. -/
def isNumeral (char : Char) : Bool :=
  char.isDigit || char == '-' || char == '+' || char == '.' || char == 'e'

theorem isNumeral_of_mem_toDigits {value : Nat} {char : Char}
    (member : char ∈ Nat.toDigits 10 value) :
    isNumeral char = true := by
  rw [isNumeral, areDigits_toDigits value char member]
  rfl

theorem isNumeral_of_mem_pointText {units places : Nat} {char : Char}
    (member : char ∈ (pointText units places).toList) : isNumeral char = true := by
  have padded : ∀ digit ∈ List.replicate (places + 1 - (Nat.toDigits 10 units).length) '0' ++
      Nat.toDigits 10 units, isNumeral digit = true := by
    intro digit listed
    rcases List.mem_append.mp listed with zero | written
    · rw [(List.mem_replicate.mp zero).2]
      decide
    · exact isNumeral_of_mem_toDigits written
  simp only [pointText, String.toList_append, String.toList_ofList, List.mem_append] at member
  rcases member with (whole | point) | fraction
  · exact padded char (List.mem_of_mem_take whole)
  · obtain rfl : char = '.' := by simpa using point
    decide
  · exact padded char (List.mem_of_mem_drop fraction)

theorem isNumeral_of_mem_positionalText {digits : Digits} {char : Char}
    (member : char ∈ (storedLayout.positionalText digits).toList) : isNumeral char = true := by
  rw [Layout.positionalText] at member
  split at member
  · simp only [digitText, zeros, String.toList_append, String.toList_ofList,
      List.mem_append] at member
    rcases member with (written | zero) | ending
    · exact isNumeral_of_mem_toDigits written
    · rw [(List.mem_replicate.mp zero).2]
      decide
    · have either : char = '.' ∨ char = '0' := by simpa [storedLayout] using ending
      rcases either with rfl | rfl <;> decide
  · exact isNumeral_of_mem_pointText member

theorem isNumeral_of_mem_exponentText {digits : Digits} {leading : Int} {char : Char}
    (member : char ∈ (Layout.exponentText digits leading).toList) : isNumeral char = true := by
  have written : ∀ digit ∈ Nat.toDigits 10 digits.significand, isNumeral digit = true :=
    fun digit listed => isNumeral_of_mem_toDigits listed
  simp only [Layout.exponentText, digitText, String.toList_append, String.toList_ofList,
    List.mem_append] at member
  rcases member with (mantissa | sign) | exponent
  · split at mantissa
    · exact absurd mantissa (by simp)
    · rename_i single alone
      obtain rfl : char = single := by simpa using mantissa
      exact written char (alone ▸ List.mem_singleton_self char)
    · rename_i first rest several
      simp only [String.toList_append, String.toList_singleton, String.toList_ofList,
        List.mem_append] at mantissa
      rcases mantissa with (head | point) | tail
      · exact written char (several ▸ List.mem_cons.mpr (Or.inl (List.mem_singleton.mp head)))
      · obtain rfl : char = '.' := by simpa using point
        decide
      · exact written char (several ▸ List.mem_cons_of_mem _ tail)
  · split at sign
    · have either : char = 'e' ∨ char = '-' := by simpa using sign
      rcases either with rfl | rfl <;> decide
    · have either : char = 'e' ∨ char = '+' := by simpa using sign
      rcases either with rfl | rfl <;> decide
  · exact isNumeral_of_mem_toDigits exponent

/-- The text of a double holds nothing but what may stand in a number. -/
theorem isNumeral_of_mem_stored? {value : Float} {text : String}
    (printed : stored? value = some text)
    {char : Char} (member : char ∈ text.toList) : isNumeral char = true := by
  rw [stored?] at printed
  split at printed
  · obtain rfl := Option.some.inj printed
    rw [Layout.finiteText, String.toList_append, List.mem_append] at member
    rcases member with sign | unsigned
    · split at sign
      · obtain rfl : char = '-' := by simpa using sign
        decide
      · exact absurd sign (by simp)
    · rw [Layout.unsignedText] at unsigned
      split at unsigned
      · exact isNumeral_of_mem_positionalText unsigned
      · exact isNumeral_of_mem_exponentText unsigned
  · cases printed

theorem stored?_ne_nil {value : Float} {text : String} (printed : stored? value = some text) :
    text.toList ≠ [] := by
  rw [stored?] at printed
  split at printed
  · obtain rfl := Option.some.inj printed
    have unsigned : ∀ digits, (storedLayout.unsignedText digits).toList ≠ [] := by
      intro digits
      rw [Layout.unsignedText]
      split
      · rw [Layout.positionalText]
        split
        · simp [storedLayout]
        · simp [pointText]
      · rw [Layout.exponentText, String.toList_append, digitText, String.toList_ofList]
        exact List.append_ne_nil_of_right_ne_nil _ toDigits_ne_nil
    simp [Layout.finiteText, unsigned]
  · cases printed

end Decimal

namespace Decimal

/-- A double is what is read from its own text, if it has one. -/
def ReadsBack (value : Float) : Prop :=
  ∀ text, stored? value = some text → Json.Reader.real.run text = .ok value

theorem readsBack_iff (value : Float) :
    (stored? value).all (fun text => decide (Json.Reader.real.run text = .ok value)) = true ↔
      ReadsBack value := by
  rw [Option.all_eq_true]
  simp only [decide_eq_true_eq, ReadsBack]

instance : DecidablePred ReadsBack :=
  fun value => decidable_of_iff _ (readsBack_iff value)

/-- Only finite doubles have texts to be read back from. -/
theorem readsBack_of_isFinite {value : Float} (reads : value.isFinite = true → ReadsBack value) :
    ReadsBack value := by
  intro text printed
  have finite := isSome_stored? value
  rw [printed] at finite
  exact reads finite.symm text printed

end Decimal

namespace Json

/-! ### Scanning the head of a text -/

/-- Whether a number that stands before a text does not go on in it. -/
def endsNumber : List Char → Bool
  | [] => true
  | char :: _ => !(char.isDigit || char == '.' || char == 'e' || char == 'E')

/-- A scanner works at the head of a text. It leaves an end of the text, and what stands behind the
text is left as well, unless a number goes on in it. -/
structure TakesHead {β : Type} (scan : List Char → Except Fault (β × List Char)) : Prop where
  suffix : ∀ {chars rest : List Char} {result : β}, scan chars = .ok (result, rest) → rest <:+ chars
  append : ∀ {chars rest tail : List Char} {result : β}, scan chars = .ok (result, rest) →
    endsNumber tail = true → scan (chars ++ tail) = .ok (result, rest ++ tail)

section Heads

variable {β γ : Type}

theorem TakesHead.bind {first : List Char → Except Fault (β × List Char)}
    {next : β → List Char → Except Fault (γ × List Char)} (firstTakes : TakesHead first)
    (nextTakes : ∀ value, TakesHead (next value)) :
    TakesHead fun chars => first chars >>= fun (value, rest) => next value rest where
  suffix scanned := by
    obtain ⟨⟨value, between⟩, here, there⟩ := bind_eq_ok_iff.mp scanned
    exact ((nextTakes value).suffix there).trans (firstTakes.suffix here)
  append scanned ends := by
    obtain ⟨⟨value, between⟩, here, there⟩ := bind_eq_ok_iff.mp scanned
    exact bind_eq_ok_iff.mpr
      ⟨(value, between ++ _), firstTakes.append here ends, (nextTakes value).append there ends⟩

/-- Answering without a look at the text takes nothing. -/
theorem TakesHead.answer (computed : Except Fault β) :
    TakesHead fun rest => computed >>= fun value => pure (value, rest) where
  suffix scanned := by
    obtain ⟨value, _, same⟩ := bind_eq_ok_iff.mp scanned
    obtain ⟨rfl, rfl⟩ := Prod.mk.inj (Except.ok.inj same)
    exact List.suffix_refl _
  append scanned _ := by
    obtain ⟨value, computedValue, same⟩ := bind_eq_ok_iff.mp scanned
    obtain ⟨rfl, rfl⟩ := Prod.mk.inj (Except.ok.inj same)
    exact bind_eq_ok_iff.mpr ⟨value, computedValue, rfl⟩

end Heads

/-- Digits are taken up to the first character that is none, and there is at least one. -/
theorem scanDigits_eq_ok_iff {atEnd : Fault} {chars digits rest : List Char} :
    scanDigits atEnd chars = .ok (digits, rest) ↔
      digits ≠ [] ∧ chars.takeWhile Char.isDigit = digits ∧
        chars.dropWhile Char.isDigit = rest := by
  rw [scanDigits]
  generalize chars.takeWhile Char.isDigit = taken
  generalize chars.dropWhile Char.isDigit = left
  cases taken with
  | nil => cases left <;> grind
  | cons first others => grind

theorem takesHead_scanDigits (atEnd : Fault) : TakesHead (scanDigits atEnd) where
  suffix scanned := by
    obtain ⟨_, _, rfl⟩ := scanDigits_eq_ok_iff.mp scanned
    exact List.dropWhile_suffix _
  append {chars rest tail digits} scanned ends := by
    obtain ⟨nonempty, taken, left⟩ := scanDigits_eq_ok_iff.mp scanned
    have split : chars = digits ++ rest := by
      rw [← taken, ← left, List.takeWhile_append_dropWhile]
    have allDigits : ∀ digit ∈ digits, digit.isDigit = true := by
      rw [← taken]
      exact List.all_eq_true.mp List.all_takeWhile
    have stops : ∀ char later, rest ++ tail = char :: later → char.isDigit = false := by
      intro char later equal
      cases rest with
      | nil =>
        rw [List.nil_append] at equal
        simp only [equal, endsNumber] at ends
        grind
      | cons next others =>
        obtain rfl : next = char := (List.cons.inj equal).1
        have first := List.head?_dropWhile_not Char.isDigit chars
        rw [left] at first
        simpa using first
    refine scanDigits_eq_ok_iff.mpr ⟨nonempty, ?_, ?_⟩
    · rw [split, List.append_assoc, List.takeWhile_append_of_pos allDigits]
      cases behind : rest ++ tail with
      | nil => simp
      | cons char later => simp [stops char later behind]
    · rw [split, List.append_assoc, List.dropWhile_append_of_pos allDigits]
      cases behind : rest ++ tail with
      | nil => simp
      | cons char later => simp [stops char later behind]

/-- Checks the digits before the point when they have been taken: a zero at their head is alone. -/
def checkWhole (digits rest : List Char) : Except Fault (List Char × List Char) :=
  match digits with
  | '0' :: _ :: _ => .error .malformed
  | _ => .ok (digits, rest)

theorem takesHead_checkWhole (digits : List Char) : TakesHead (checkWhole digits) := by
  unfold checkWhole
  split
  · exact .answer (.error .malformed)
  · exact .answer (.ok digits)

theorem takesHead_scanWhole (atEnd : Fault) : TakesHead (scanWhole atEnd) :=
  (takesHead_scanDigits atEnd).bind takesHead_checkWhole

theorem scanFraction_of_ends {tail : List Char} (ends : endsNumber tail = true) (atEnd : Fault) :
    scanFraction atEnd tail = .ok ([], tail) := by
  rw [scanFraction.eq_def]
  split
  · cases ends
  · rfl

theorem takesHead_scanFraction (atEnd : Fault) : TakesHead (scanFraction atEnd) where
  suffix scanned := by
    rw [scanFraction.eq_def] at scanned
    split at scanned
    · exact ((takesHead_scanDigits atEnd).suffix scanned).trans (List.suffix_cons _ _)
    · obtain ⟨_, rfl⟩ := Prod.mk.inj (Except.ok.inj scanned)
      exact List.suffix_refl _
  append {chars rest tail digits} scanned ends := by
    rw [scanFraction.eq_def] at scanned
    split at scanned
    · exact (takesHead_scanDigits atEnd).append scanned ends
    · rename_i noPoint
      obtain ⟨rfl, rfl⟩ := Prod.mk.inj (Except.ok.inj scanned)
      cases chars with
      | nil => exact scanFraction_of_ends ends atEnd
      | cons first others =>
        rw [scanFraction.eq_def]
        split
        · rename_i later equal
          exact absurd (congrArg (· :: others) (List.cons.inj equal).1) (noPoint others)
        · rfl

/-- Takes the sign and the digits of an exponent. -/
def scanPower (atEnd : Fault) (chars : List Char) : Except Fault (Option Int × List Char) :=
  match chars with
  | '-' :: rest => do
      let (digits, rest) ← scanDigits atEnd rest
      pure (some (-(digitsValue digits : Int)), rest)
  | '+' :: rest => do
      let (digits, rest) ← scanDigits atEnd rest
      pure (some (digitsValue digits : Int), rest)
  | rest => do
      let (digits, rest) ← scanDigits atEnd rest
      pure (some (digitsValue digits : Int), rest)

theorem takesHead_digitsThen {β : Type} (atEnd : Fault) (meaning : List Char → β) :
    TakesHead fun chars => scanDigits atEnd chars >>= fun (digits, rest) =>
      pure (meaning digits, rest) := by
  have next : ∀ digits, TakesHead fun rest => pure (meaning digits, rest) :=
    fun digits => .answer (.ok (meaning digits))
  exact (takesHead_scanDigits atEnd).bind next

theorem takesHead_scanPower (atEnd : Fault) : TakesHead (scanPower atEnd) := by
  have down := takesHead_digitsThen atEnd fun digits => some (-(digitsValue digits : Int))
  have up := takesHead_digitsThen atEnd fun digits => some (digitsValue digits : Int)
  constructor
  · intro chars rest power scanned
    rw [scanPower.eq_def] at scanned
    split at scanned
    · exact (down.suffix scanned).trans (List.suffix_cons _ _)
    · exact (up.suffix scanned).trans (List.suffix_cons _ _)
    · exact up.suffix scanned
  · intro chars rest tail power scanned ends
    rw [scanPower.eq_def] at scanned
    split at scanned
    · exact down.append scanned ends
    · exact up.append scanned ends
    · rename_i noMinus noPlus
      cases chars with
      | nil => cases scanned
      | cons first others =>
        rw [List.cons_append, scanPower.eq_def]
        split
        · rename_i later equal
          exact absurd (congrArg (· :: others) (List.cons.inj equal).1) (noMinus others)
        · rename_i later equal
          exact absurd (congrArg (· :: others) (List.cons.inj equal).1) (noPlus others)
        · exact up.append scanned ends

theorem scanExponent_of_ends {tail : List Char} (ends : endsNumber tail = true) (atEnd : Fault) :
    scanExponent atEnd tail = .ok (none, tail) := by
  rw [scanExponent.eq_def]
  split
  · cases ends
  · cases ends
  · rfl

theorem takesHead_scanExponent (atEnd : Fault) : TakesHead (scanExponent atEnd) where
  suffix scanned := by
    rw [scanExponent.eq_def] at scanned
    split at scanned
    · exact ((takesHead_scanPower atEnd).suffix scanned).trans (List.suffix_cons _ _)
    · exact ((takesHead_scanPower atEnd).suffix scanned).trans (List.suffix_cons _ _)
    · obtain ⟨_, rfl⟩ := Prod.mk.inj (Except.ok.inj scanned)
      exact List.suffix_refl _
  append {chars rest tail power} scanned ends := by
    rw [scanExponent.eq_def] at scanned
    split at scanned
    · exact (takesHead_scanPower atEnd).append scanned ends
    · exact (takesHead_scanPower atEnd).append scanned ends
    · rename_i noSmall noLarge
      obtain ⟨rfl, rfl⟩ := Prod.mk.inj (Except.ok.inj scanned)
      cases chars with
      | nil => exact scanExponent_of_ends ends atEnd
      | cons first others =>
        rw [scanExponent.eq_def]
        split
        · rename_i later equal
          exact absurd (congrArg (· :: others) (List.cons.inj equal).1) (noSmall others)
        · rename_i later equal
          exact absurd (congrArg (· :: others) (List.cons.inj equal).1) (noLarge others)
        · rfl

/-- Takes the parts of a number behind its sign. -/
def scanUnsigned (atEnd : Fault) (negative : Bool) (chars : List Char) :
    Except Fault (Numeral × List Char) := do
  let (whole, chars) ← scanWhole atEnd chars
  let (fraction, chars) ← scanFraction atEnd chars
  let (exponent, chars) ← scanExponent atEnd chars
  pure (⟨negative, whole, fraction, exponent⟩, chars)

theorem takesHead_scanUnsigned (atEnd : Fault) (negative : Bool) :
    TakesHead (scanUnsigned atEnd negative) := by
  have answered : ∀ whole fraction exponent, TakesHead fun chars =>
      pure ((⟨negative, whole, fraction, exponent⟩ : Numeral), chars) :=
    fun whole fraction exponent =>
      .answer (.ok (⟨negative, whole, fraction, exponent⟩ : Numeral))
  exact (takesHead_scanWhole atEnd).bind fun whole => (takesHead_scanFraction atEnd).bind
    fun fraction => (takesHead_scanExponent atEnd).bind (answered whole fraction)

theorem scanNumeral_of_ne {first : Char} (noMinus : first ≠ '-') (atEnd : Fault)
    (rest : List Char) :
    scanNumeral atEnd (first :: rest) = scanUnsigned atEnd false (first :: rest) := by
  rw [scanNumeral]
  · rfl
  · intro others equal
    exact noMinus (List.cons.inj equal).1

theorem scanNumeral_of_isDigit {first : Char} (digit : first.isDigit = true) (atEnd : Fault)
    (rest : List Char) :
    scanNumeral atEnd (first :: rest) = scanUnsigned atEnd false (first :: rest) := by
  refine scanNumeral_of_ne ?_ atEnd rest
  rintro rfl
  exact absurd digit (by decide)

theorem takesHead_scanNumeral (atEnd : Fault) : TakesHead (scanNumeral atEnd) where
  suffix {chars rest numeral} scanned := by
    cases chars with
    | nil => cases scanned
    | cons first others =>
      by_cases minus : first = '-'
      · subst minus
        exact ((takesHead_scanUnsigned atEnd true).suffix scanned).trans (List.suffix_cons _ _)
      · rw [scanNumeral_of_ne minus] at scanned
        exact (takesHead_scanUnsigned atEnd false).suffix scanned
  append {chars rest tail numeral} scanned ends := by
    cases chars with
    | nil => cases scanned
    | cons first others =>
      by_cases minus : first = '-'
      · subst minus
        exact (takesHead_scanUnsigned atEnd true).append scanned ends
      · rw [scanNumeral_of_ne minus] at scanned
        rw [List.cons_append, scanNumeral_of_ne minus]
        exact (takesHead_scanUnsigned atEnd false).append scanned ends

theorem takesHead_takeNumber : TakesHead takeNumber :=
  (takesHead_scanNumeral .truncated).bind fun numeral => .answer numeral.toNumber

/-! ### Blanks -/

theorem skipBlanks_append {blanks : List Char} (blank : blanks.all isBlank = true)
    (chars : List Char) : skipBlanks (blanks ++ chars) = skipBlanks chars :=
  List.dropWhile_append_of_pos (List.all_eq_true.mp blank)

theorem skipBlanks_cons {first : Char} (notBlank : isBlank first = false) (rest : List Char) :
    skipBlanks (first :: rest) = first :: rest := by
  rw [skipBlanks, List.dropWhile_cons_of_neg (by simp [notBlank])]

/-- What stands behind blanks starts with what is no blank. -/
theorem skipBlanks_blanks {blanks : List Char} (blank : blanks.all isBlank = true) {first : Char}
    (notBlank : isBlank first = false) (rest : List Char) :
    skipBlanks (blanks ++ first :: rest) = first :: rest := by
  rw [skipBlanks_append blank, skipBlanks_cons notBlank]

theorem isBlank_eq_false_of_isNumeral {char : Char} (numeral : Decimal.isNumeral char = true) :
    isBlank char = false := by
  cases blank : isBlank char with
  | false => rfl
  | true =>
    simp only [isBlank, Bool.or_eq_true, beq_iff_eq] at blank
    rcases blank with ((rfl | rfl) | rfl) | rfl <;> exact absurd numeral (by decide)

/-! ### Natural numbers -/

theorem digitsValue_toDigits (value : Nat) : digitsValue (Nat.toDigits 10 value) = value :=
  Nat.ofDigitChars_toDigits (by decide) (by decide)

/-- A natural number of several digits does not start with a zero. -/
theorem toDigits_ne_zero_cons (value : Nat) (second : Char) (rest : List Char) :
    Nat.toDigits 10 value ≠ '0' :: second :: rest := by
  induction value using Nat.strongRecOn generalizing second rest with
  | ind value inductionHypothesis =>
    intro written
    rw [Nat.toDigits_eq_if (by decide)] at written
    split at written
    · exact absurd (List.cons.inj written).2 (List.cons_ne_nil _ _).symm
    · rename_i large
      cases front : Nat.toDigits 10 (value / 10) with
      | nil => exact absurd front toDigits_ne_nil
      | cons first others =>
        rw [front] at written
        obtain rfl := (List.cons.inj written).1
        cases others with
        | nil =>
          have zero : value / 10 = 0 := by rw [← digitsValue_toDigits (value / 10), front]; rfl
          omega
        | cons next later => exact inductionHypothesis (value / 10) (by omega) next later front

theorem scanDigits_toDigits (value : Nat) :
    scanDigits .truncated (Nat.toDigits 10 value) = .ok (Nat.toDigits 10 value, []) := by
  have allDigits := areDigits_toDigits value
  refine scanDigits_eq_ok_iff.mpr ⟨toDigits_ne_nil, ?_, ?_⟩
  · rw [← List.append_nil (Nat.toDigits 10 value), List.takeWhile_append_of_pos allDigits]
    rfl
  · rw [← List.append_nil (Nat.toDigits 10 value), List.dropWhile_append_of_pos allDigits]
    rfl

theorem scanWhole_toDigits (value : Nat) :
    scanWhole .truncated (Nat.toDigits 10 value) = .ok (Nat.toDigits 10 value, []) := by
  rw [scanWhole, scanDigits_toDigits]
  show checkWhole (Nat.toDigits 10 value) [] = _
  rw [checkWhole]
  exact toDigits_ne_zero_cons value

theorem scanNumeral_toDigits (value : Nat) :
    scanNumeral .truncated (Nat.toDigits 10 value) =
      .ok (⟨false, Nat.toDigits 10 value, [], none⟩, []) := by
  have whole := scanWhole_toDigits value
  obtain ⟨first, rest, written, digit⟩ := exists_toDigits_eq_cons value
  rw [written] at whole ⊢
  rw [scanNumeral_of_isDigit digit, scanUnsigned, whole]
  rfl

/-- A natural number is taken off the head of a text as its digits. -/
theorem takeNumber_toDigits {value : Nat} (small : value < naturalLimit) {tail : List Char}
    (ends : endsNumber tail = true) :
    takeNumber (Nat.toDigits 10 value ++ tail) = .ok (.natural value, tail) := by
  have alone : takeNumber (Nat.toDigits 10 value) = .ok (.natural value, []) := by
    rw [takeNumber, scanNumeral_toDigits]
    show (Numeral.toNumber ⟨false, Nat.toDigits 10 value, [], none⟩ >>= fun number =>
      pure (number, [])) = _
    simp only [Numeral.toNumber, Numeral.isNatural, digitsValue_toDigits, small]
    rfl
  exact takesHead_takeNumber.append alone ends

/-! ### Numbers behind blanks -/

theorem isBlank_eq_false_of_startsNumber {char : Char} (starts : startsNumber char = true) :
    isBlank char = false := by
  refine isBlank_eq_false_of_isNumeral ?_
  rw [startsNumber, Bool.or_eq_true] at starts
  rcases starts with minus | digit
  · rw [beq_iff_eq.mp minus]
    decide
  · rw [Decimal.isNumeral, digit]
    rfl

theorem number_of_startsNumber {blanks : List Char} (blank : blanks.all isBlank = true)
    {first : Char} (starts : startsNumber first = true) (rest : List Char) :
    Reader.number (blanks ++ first :: rest) = takeNumber (first :: rest) := by
  rw [Reader.number, skipBlanks_blanks blank (isBlank_eq_false_of_startsNumber starts)]
  exact if_pos starts

theorem startsNumber_of_isDigit {char : Char} (digit : char.isDigit = true) :
    startsNumber char = true := by
  rw [startsNumber, digit, Bool.or_true]

/-- A natural number is read off a text in which it stands. -/
theorem number_toDigits {value : Nat} (small : value < naturalLimit) {blanks tail : List Char}
    (blank : blanks.all isBlank = true) (ends : endsNumber tail = true) :
    Reader.number (blanks ++ (Nat.toDigits 10 value ++ tail)) = .ok (.natural value, tail) := by
  obtain ⟨first, rest, written, digit⟩ := exists_toDigits_eq_cons value
  have taken := takeNumber_toDigits small ends
  rw [written, List.cons_append] at taken ⊢
  rw [number_of_startsNumber blank (startsNumber_of_isDigit digit), taken]

/-! ### Doubles behind blanks -/

theorem run_eq_ok_iff {β : Type} {reader : Reader β} {text : String} {value : β} :
    reader.run text = .ok value ↔
      ∃ rest, reader text.toList = .ok (value, rest) ∧ skipBlanks rest = [] := by
  rw [Reader.run]
  cases reader text.toList with
  | error fault => simp
  | ok answer =>
    obtain ⟨result, behind⟩ := answer
    by_cases onlyBlanks : skipBlanks behind = []
    · simp [onlyBlanks]
    · simp only [List.isEmpty_iff, if_neg onlyBlanks, Except.ok.injEq, Prod.mk.injEq, reduceCtorEq,
        false_iff, not_exists, not_and]
      rintro _ ⟨_, rfl⟩
      exact onlyBlanks

/-- What is left of a text of a number has no blanks in it. -/
theorem eq_nil_of_skipBlanks {chars left : List Char} (isEnd : left <:+ chars)
    (numeral : ∀ char ∈ chars, Decimal.isNumeral char = true) (onlyBlanks : skipBlanks left = []) :
    left = [] := by
  cases left with
  | nil => rfl
  | cons next others =>
    have visible := isBlank_eq_false_of_isNumeral (numeral next (isEnd.subset List.mem_cons_self))
    rw [skipBlanks_cons visible] at onlyBlanks
    cases onlyBlanks

/-- What is known of a double that is read back from its own text: the text starts with a digit or
a sign, and taking a number from it takes all of it. -/
theorem takeNumber_of_readsBack {value : Float} {text : String}
    (printed : Decimal.stored? value = some text) (reads : Decimal.ReadsBack value) :
    ∃ first rest number, text.toList = first :: rest ∧ startsNumber first = true ∧
      takeNumber (first :: rest) = .ok (number, []) ∧ number.toDouble = value := by
  obtain ⟨left, read, onlyBlanks⟩ := run_eq_ok_iff.mp (reads text printed)
  obtain ⟨⟨number, _⟩, numberRead, same⟩ := bind_eq_ok_iff.mp read
  obtain ⟨rfl, rfl⟩ := Prod.mk.inj (Except.ok.inj same)
  have numeral : ∀ char ∈ text.toList, Decimal.isNumeral char = true :=
    fun char => Decimal.isNumeral_of_mem_stored? printed
  cases chars : text.toList with
  | nil =>
    rw [chars] at numberRead
    cases numberRead
  | cons first rest =>
    rw [chars] at numeral numberRead
    have visible := isBlank_eq_false_of_isNumeral (numeral first List.mem_cons_self)
    rw [Reader.number, skipBlanks_cons visible] at numberRead
    by_cases starts : startsNumber first = true
    · have taken := (if_pos starts).symm.trans numberRead
      obtain rfl :=
        eq_nil_of_skipBlanks (takesHead_takeNumber.suffix taken) numeral onlyBlanks
      exact ⟨first, rest, number, rfl, starts, taken, rfl⟩
    · exact absurd ((if_neg starts).symm.trans numberRead) (by simp)

/-- A finite double that is read back from its own text is read off a text in which it stands. -/
theorem real_stored {value : Float} {text : String} (printed : Decimal.stored? value = some text)
    (reads : Decimal.ReadsBack value) {blanks tail : List Char}
    (blank : blanks.all isBlank = true) (ends : endsNumber tail = true) :
    Reader.real (blanks ++ (text.toList ++ tail)) = .ok (value, tail) := by
  obtain ⟨first, rest, number, chars, starts, taken, same⟩ := takeNumber_of_readsBack printed reads
  have inPlace := takesHead_takeNumber.append taken ends
  rw [List.cons_append, List.nil_append] at inPlace
  rw [chars, List.cons_append, Reader.real, Reader.map, number_of_startsNumber blank starts,
    inPlace, ← same]
  rfl

/-- The word that is printed for a double that is not finite is no number. -/
theorem number_null {blanks : List Char} (blank : blanks.all isBlank = true) (tail : List Char) :
    Reader.number (blanks ++ 'n' :: 'u' :: 'l' :: 'l' :: tail) = .error .mismatched := by
  rw [Reader.number, skipBlanks_blanks blank (by decide)]
  rfl

end Json

end BlockCone
