/-
This file says which texts are JSON values, and proves that the reader passes over each of them.

The grammar is stated without regard to the readers: words, numbers, strings, and arrays and objects
of values with blanks between their parts. What a string spells does not matter for a value that is
passed over, so any four hexadecimal digits may stand behind a `\u` in it, also those of a half that
stands alone. Nor does the size of a number.

The reader does not recurse. It keeps the brackets that are still open and goes from the head of one
value to the head of the next, whether that stands inside or behind it. What is left to do behind a
finished value depends on the open brackets alone; `resume` says what it is. To pass over a value is
to resume behind it, whatever is open, and in this form it goes through by induction on the grammar:
the last item of an array closes its bracket, and so resuming behind the item is resuming behind the
array. Every turn of the reader takes a character of the value, so it has turns enough.
-/

import BlockCone.Proofs.JsonNumbers
import BlockCone.Proofs.JsonStrings

namespace BlockCone.Json

/-! ### Numbers -/

/-- Decimal digits, at least one. -/
def AreDigits (digits : List Char) : Prop :=
  digits ≠ [] ∧ ∀ digit ∈ digits, digit.isDigit = true

/-- The digits before the point of a number. A zero at their head is alone. -/
inductive IsWhole : List Char → Prop where
  | zero : IsWhole ['0']
  | digits {first : Char} {rest : List Char} : first.isDigit = true → first ≠ '0' →
      (∀ digit ∈ rest, digit.isDigit = true) → IsWhole (first :: rest)

/-- The point of a number and the digits behind it, or nothing. -/
inductive IsFraction : List Char → Prop where
  | empty : IsFraction []
  | point {digits : List Char} : AreDigits digits → IsFraction ('.' :: digits)

/-- The exponent of a number, or nothing. -/
inductive IsPower : List Char → Prop where
  | empty : IsPower []
  | exponent {mark : Char} {sign digits : List Char} : mark = 'e' ∨ mark = 'E' →
      sign = [] ∨ sign = ['-'] ∨ sign = ['+'] → AreDigits digits →
        IsPower (mark :: (sign ++ digits))

/-- A number. -/
inductive IsNumber : List Char → Prop where
  | parts {sign whole fraction power : List Char} : sign = [] ∨ sign = ['-'] → IsWhole whole →
      IsFraction fraction → IsPower power → IsNumber (sign ++ (whole ++ (fraction ++ power)))

/-- Digits that stand before a text do not go on in it. -/
def EndsDigits (tail : List Char) : Prop :=
  ∀ first ∈ tail.head?, first.isDigit = false

theorem endsDigits_of_endsNumber {tail : List Char} (ends : endsNumber tail = true) :
    EndsDigits tail := by
  cases tail with
  | nil => exact fun _ none => absurd none (Option.not_mem_none _)
  | cons first rest =>
    intro char here
    obtain rfl := Option.some.inj here
    simp only [endsNumber] at ends
    grind

theorem scanDigits_append {digits tail : List Char} (areDigits : AreDigits digits)
    (ends : EndsDigits tail) (atEnd : Fault) :
    scanDigits atEnd (digits ++ tail) = .ok (digits, tail) := by
  obtain ⟨nonempty, allDigits⟩ := areDigits
  refine scanDigits_eq_ok_iff.mpr ⟨nonempty, ?_, ?_⟩
  · rw [List.takeWhile_append_of_pos allDigits]
    cases tail with
    | nil => simp
    | cons first rest => simp [ends first rfl]
  · rw [List.dropWhile_append_of_pos allDigits]
    cases tail with
    | nil => simp
    | cons first rest => simp [ends first rfl]

theorem IsWhole.areDigits {whole : List Char} (isWhole : IsWhole whole) : AreDigits whole := by
  cases isWhole with
  | zero => exact ⟨List.cons_ne_nil _ _, List.forall_mem_singleton.mpr rfl⟩
  | digits first _ rest => exact ⟨List.cons_ne_nil _ _, List.forall_mem_cons.mpr ⟨first, rest⟩⟩

theorem IsWhole.scanWhole_append {whole tail : List Char} (isWhole : IsWhole whole)
    (ends : EndsDigits tail) (atEnd : Fault) :
    scanWhole atEnd (whole ++ tail) = .ok (whole, tail) := by
  rw [scanWhole, scanDigits_append isWhole.areDigits ends]
  show checkWhole whole tail = _
  rw [checkWhole]
  cases isWhole with
  | zero => exact fun _ _ equal => List.cons_ne_nil _ _ (List.cons.inj equal).2.symm
  | digits _ positive _ => exact fun _ _ equal => positive (List.cons.inj equal).1

theorem IsFraction.scanFraction_append {fraction tail : List Char}
    (isFraction : IsFraction fraction)
    (ends : EndsDigits tail) (noPoint : '.' ∉ tail.head?) (atEnd : Fault) :
    ∃ digits, scanFraction atEnd (fraction ++ tail) = .ok (digits, tail) := by
  cases isFraction with
  | empty =>
    refine ⟨[], ?_⟩
    rw [List.nil_append, scanFraction.eq_def]
    split
    · exact absurd rfl noPoint
    · rfl
  | @point digits areDigits => exact ⟨digits, scanDigits_append areDigits ends atEnd⟩

/-- The digits of an exponent may stand behind a sign or alone. -/
theorem scanPower_append {sign digits tail : List Char}
    (signed : sign = [] ∨ sign = ['-'] ∨ sign = ['+']) (areDigits : AreDigits digits)
    (ends : EndsDigits tail) (atEnd : Fault) :
    ∃ exponent, scanPower atEnd (sign ++ (digits ++ tail)) = .ok (exponent, tail) := by
  have scanned := scanDigits_append areDigits ends atEnd
  rcases signed with rfl | rfl | rfl
  · refine ⟨some (digitsValue digits), ?_⟩
    obtain ⟨nonempty, allDigits⟩ := areDigits
    obtain ⟨first, rest, rfl⟩ := List.exists_cons_of_ne_nil nonempty
    have digit := allDigits first List.mem_cons_self
    rw [List.nil_append, scanPower.eq_3, scanned]
    · rfl
    · rintro others equal
      rw [(List.cons.inj equal).1] at digit
      exact absurd digit (by decide)
    · rintro others equal
      rw [(List.cons.inj equal).1] at digit
      exact absurd digit (by decide)
  · exact ⟨some (-digitsValue digits), by
      rw [List.singleton_append, scanPower, scanned]
      rfl⟩
  · exact ⟨some (digitsValue digits), by
      rw [List.singleton_append, scanPower, scanned]
      rfl⟩

theorem IsPower.scanExponent_append {power tail : List Char} (isPower : IsPower power)
    (ends : endsNumber tail = true) (atEnd : Fault) :
    ∃ exponent, scanExponent atEnd (power ++ tail) = .ok (exponent, tail) := by
  cases isPower with
  | empty => exact ⟨none, scanExponent_of_ends ends atEnd⟩
  | @exponent mark sign digits marked signed areDigits =>
    obtain ⟨exponent, taken⟩ :=
      scanPower_append signed areDigits (endsDigits_of_endsNumber ends) atEnd
    refine ⟨exponent, ?_⟩
    rw [List.cons_append, List.append_assoc]
    rcases marked with rfl | rfl <;> exact taken

/-- What stands behind the digits before an exponent goes on with neither digits nor a point. -/
theorem IsPower.ends {power tail : List Char} (isPower : IsPower power)
    (ends : endsNumber tail = true) :
    EndsDigits (power ++ tail) ∧ '.' ∉ (power ++ tail).head? := by
  cases isPower with
  | empty =>
    refine ⟨endsDigits_of_endsNumber ends, fun point => ?_⟩
    cases tail with
    | nil => cases point
    | cons first rest =>
      obtain rfl := Option.some.inj point
      cases ends
  | exponent marked _ _ =>
    rcases marked with rfl | rfl <;> exact ⟨fun _ here => by cases here; decide, by simp⟩

theorem IsFraction.ends {fraction tail : List Char} (isFraction : IsFraction fraction)
    (ends : EndsDigits tail) : EndsDigits (fraction ++ tail) := by
  cases isFraction with
  | empty => exact ends
  | point _ => exact fun _ here => by cases here; decide

/-- A number is scanned to its end, whatever stands behind it that does not go on with a number. -/
theorem IsNumber.scanNumeral_append {text tail : List Char} (isNumber : IsNumber text)
    (ends : endsNumber tail = true) (atEnd : Fault) :
    ∃ numeral, scanNumeral atEnd (text ++ tail) = .ok (numeral, tail) := by
  obtain @⟨sign, whole, fraction, power, signed, isWhole, isFraction, isPower⟩ := isNumber
  obtain ⟨powerEnds, noPoint⟩ := isPower.ends ends
  obtain ⟨digits, fractionTaken⟩ := isFraction.scanFraction_append powerEnds noPoint atEnd
  obtain ⟨exponent, powerTaken⟩ := isPower.scanExponent_append ends atEnd
  have unsigned : ∀ negative, scanUnsigned atEnd negative
      (whole ++ (fraction ++ (power ++ tail))) =
        .ok (⟨negative, whole, digits, exponent⟩, tail) := by
    intro negative
    rw [scanUnsigned, isWhole.scanWhole_append (isFraction.ends powerEnds)]
    show (scanFraction atEnd (fraction ++ (power ++ tail)) >>= _) = _
    rw [fractionTaken]
    show (scanExponent atEnd (power ++ tail) >>= _) = _
    rw [powerTaken]
    rfl
  simp only [List.append_assoc]
  rcases signed with rfl | rfl
  · obtain ⟨nonempty, allDigits⟩ := isWhole.areDigits
    obtain ⟨first, rest, rfl⟩ := List.exists_cons_of_ne_nil nonempty
    refine ⟨⟨false, first :: rest, digits, exponent⟩, ?_⟩
    rw [List.nil_append, List.cons_append,
      scanNumeral_of_isDigit (allDigits first List.mem_cons_self)]
    exact unsigned false
  · exact ⟨_, unsigned true⟩

/-- What starts a number starts no other value. -/
theorem noOther_of_startsNumber {first : Char} (starts : startsNumber first = true) :
    first ≠ 'n' ∧ first ≠ 't' ∧ first ≠ 'f' ∧ first ≠ '"' ∧ first ≠ '[' ∧ first ≠ '\x7b' := by
  refine ⟨?_, ?_, ?_, ?_, ?_, ?_⟩ <;> rintro rfl <;> exact absurd starts (by decide)

theorem IsNumber.exists_eq_cons {text : List Char} (isNumber : IsNumber text) :
    ∃ first rest, text = first :: rest ∧ startsNumber first = true := by
  obtain @⟨sign, whole, fraction, power, signed, isWhole, _, _⟩ := isNumber
  rcases signed with rfl | rfl
  · obtain ⟨nonempty, allDigits⟩ := isWhole.areDigits
    obtain ⟨first, rest, rfl⟩ := List.exists_cons_of_ne_nil nonempty
    exact ⟨first, _, rfl, startsNumber_of_isDigit (allDigits first List.mem_cons_self)⟩
  · exact ⟨'-', _, rfl, rfl⟩

/-! ### Strings -/

/-- The text of a string between its quotes, whatever it spells. -/
inductive IsString : List Char → Prop where
  | empty : IsString []
  | plain {char : Char} {text : List Char} : 32 ≤ char.toNat → char ≠ '"' → char ≠ '\\' →
      IsString text → IsString (char :: text)
  | escape {letter : Char} {text : List Char} :
      letter ∈ ['"', '\\', '/', 'b', 'f', 'n', 'r', 't'] → IsString text →
        IsString ('\\' :: letter :: text)
  | unit {digits text : List Char} {value : Nat} : IsHex digits value → IsString text →
      IsString ('\\' :: 'u' :: (digits ++ text))

/-- Repeating the step passes over a string up to its quote, if there are turns enough. -/
theorem IsString.repeatStep {text : List Char} (isString : IsString text) (tail : List Char)
    {budget : Nat} (enough : text.length < budget) :
    Reader.repeatStep skipStringStep budget () (text ++ '"' :: tail) = .ok ((), tail) := by
  obtain ⟨turns, rfl⟩ := Nat.exists_eq_add_one.mpr (Nat.zero_lt_of_lt enough)
  induction isString generalizing turns with
  | empty => rfl
  | @plain char text high noQuote noBackslash _ inductionHypothesis =>
    have stepped : skipStringStep () (char :: (text ++ '"' :: tail)) =
        .ok (.inl (), text ++ '"' :: tail) := by
      have low : ¬ char.toNat < 32 := Nat.not_lt.mpr high
      rw [skipStringStep.eq_def]
      grind
    rw [List.length_cons] at enough
    obtain ⟨others, rfl⟩ := Nat.exists_eq_add_one.mpr (show 0 < turns by omega)
    rw [List.cons_append, Reader.repeatStep, stepped]
    exact inductionHypothesis others (by omega)
  | @escape letter text known _ inductionHypothesis =>
    have stepped : skipStringStep () ('\\' :: letter :: (text ++ '"' :: tail)) =
        .ok (.inl (), text ++ '"' :: tail) := by
      simp only [List.mem_cons, List.not_mem_nil, or_false] at known
      rcases known with rfl | rfl | rfl | rfl | rfl | rfl | rfl | rfl <;> rfl
    rw [List.length_cons, List.length_cons] at enough
    obtain ⟨others, rfl⟩ := Nat.exists_eq_add_one.mpr (show 0 < turns by omega)
    rw [List.cons_append, List.cons_append, Reader.repeatStep, stepped]
    exact inductionHypothesis others (by omega)
  | @unit digits text value isHex _ inductionHypothesis =>
    have stepped : skipStringStep () ('\\' :: 'u' :: (digits ++ (text ++ '"' :: tail))) =
        .ok (.inl (), text ++ '"' :: tail) := by
      rw [skipStringStep, isHex.takeHex_append]
      rfl
    rw [List.length_cons, List.length_cons, List.length_append] at enough
    obtain ⟨others, rfl⟩ := Nat.exists_eq_add_one.mpr (show 0 < turns by omega)
    rw [List.cons_append, List.cons_append, List.append_assoc, Reader.repeatStep, stepped]
    exact inductionHypothesis others (by omega)

theorem IsString.skipString_append {text : List Char} (isString : IsString text)
    (tail : List Char) : skipString (text ++ '"' :: tail) = .ok ((), tail) := by
  refine isString.repeatStep tail ?_
  rw [List.length_append]
  omega

/-! ### Values -/

/-- A key of an object with the colon behind it. -/
inductive IsKey : List Char → Prop where
  | quoted {before text after : List Char} : before.all isBlank = true → IsString text →
      after.all isBlank = true → IsKey (before ++ '"' :: (text ++ '"' :: (after ++ [':'])))

mutual

/-- A value. -/
inductive IsValue : List Char → Prop where
  | null : IsValue ['n', 'u', 'l', 'l']
  | yes : IsValue ['t', 'r', 'u', 'e']
  | no : IsValue ['f', 'a', 'l', 's', 'e']
  | number {text : List Char} : IsNumber text → IsValue text
  | string {text : List Char} : IsString text → IsValue ('"' :: (text ++ ['"']))
  | emptyArray {gap : List Char} : gap.all isBlank = true → IsValue ('[' :: (gap ++ [']']))
  | array {items : List Char} : AreItems items → IsValue ('[' :: (items ++ [']']))
  | emptyObject {gap : List Char} : gap.all isBlank = true →
      IsValue ('\x7b' :: (gap ++ ['\x7d']))
  | object {members : List Char} : AreMembers members → IsValue ('\x7b' :: (members ++ ['\x7d']))

/-- The items of an array with commas between them, at least one. -/
inductive AreItems : List Char → Prop where
  | last {before value after : List Char} : before.all isBlank = true → IsValue value →
      after.all isBlank = true → AreItems (before ++ (value ++ after))
  | item {before value after items : List Char} : before.all isBlank = true → IsValue value →
      after.all isBlank = true → AreItems items →
        AreItems (before ++ (value ++ (after ++ ',' :: items)))

/-- The members of an object with commas between them, at least one. -/
inductive AreMembers : List Char → Prop where
  | last {key before value after : List Char} : IsKey key → before.all isBlank = true →
      IsValue value → after.all isBlank = true → AreMembers (key ++ (before ++ (value ++ after)))
  | member {key before value after members : List Char} : IsKey key → before.all isBlank = true →
      IsValue value → after.all isBlank = true → AreMembers members →
        AreMembers (key ++ (before ++ (value ++ (after ++ ',' :: members))))

end

/-- A value starts with a character that is neither blank nor a closing bracket. -/
theorem IsValue.exists_eq_cons {text : List Char} (isValue : IsValue text) :
    ∃ first rest, text = first :: rest ∧ isBlank first = false ∧ first ≠ ']' := by
  cases isValue with
  | number isNumber =>
    obtain ⟨first, rest, rfl, starts⟩ := isNumber.exists_eq_cons
    refine ⟨first, rest, rfl, isBlank_eq_false_of_startsNumber starts, ?_⟩
    rintro rfl
    exact absurd starts (by decide)
  | _ => exact ⟨_, _, rfl, rfl, by decide⟩

theorem IsKey.skipKey_append {key : List Char} (isKey : IsKey key) (tail : List Char) :
    skipKey (key ++ tail) = .ok tail := by
  obtain @⟨before, text, after, beforeBlank, isString, afterBlank⟩ := isKey
  simp only [List.append_assoc, List.cons_append, List.nil_append]
  rw [skipKey, skipBlanks_blanks beforeBlank (by decide)]
  show (skipString (text ++ '"' :: (after ++ ':' :: tail)) >>= _) = _
  rw [isString.skipString_append]
  simp only [bind, Except.bind, skipBlanks_blanks afterBlank (show isBlank ':' = false from rfl)]

/-! ### Passing over values -/

/-- What is done behind a finished value: brackets are closed, and if one stays open, the value that
follows in it is passed over. -/
def resume (budget : Nat) (opened : List Bracket) : Reader Unit := fun chars => do
  let (outcome, rest) ← closeBrackets opened chars
  match outcome with
  | .inl next => Reader.repeatStep skipStep budget next rest
  | .inr result => pure (result, rest)

/-- The reader passes over a text in some number of turns, whatever is open and whatever stands
behind it. -/
def IsPassed (text : List Char) : Prop :=
  ∃ turns ≤ text.length, ∀ budget opened chars tail, skipBlanks chars = text ++ tail →
    endsNumber tail = true →
      Reader.repeatStep skipStep (budget + turns) opened chars = resume budget opened tail

section Turns

variable {budget : Nat} {opened next : List Bracket} {chars tail : List Char}

/-- A turn that finishes a value. -/
theorem repeatStep_of_finished (finished : skipStep opened chars = closeBrackets opened tail) :
    Reader.repeatStep skipStep (budget + 1) opened chars = resume budget opened tail := by
  rw [Reader.repeatStep, finished, resume]
  cases closeBrackets opened tail with
  | error fault => rfl
  | ok closed =>
    obtain ⟨outcome, rest⟩ := closed
    cases outcome <;> rfl

/-- A turn that goes on to another value. -/
theorem repeatStep_of_opened (goesOn : skipStep opened chars = .ok (.inl next, tail)) :
    Reader.repeatStep skipStep (budget + 1) opened chars =
      Reader.repeatStep skipStep budget next tail := by
  rw [Reader.repeatStep, goesOn]
  rfl

/-- Closing a bracket leaves what is done behind it. -/
theorem resume_of_closed {inner : List Bracket} {behind : List Char}
    (closed : closeBrackets inner behind = closeBrackets opened tail) :
    resume budget inner behind = resume budget opened tail := by
  rw [resume, resume, closed]

theorem resume_of_next (goesOn : closeBrackets opened chars = .ok (.inl next, tail)) :
    resume budget opened chars = Reader.repeatStep skipStep budget next tail := by
  rw [resume, goesOn]
  rfl

end Turns

section Closing

variable {opened : List Bracket} {after tail : List Char}

theorem closeBrackets_array (blank : after.all isBlank = true) :
    closeBrackets (.array :: opened) (after ++ ']' :: tail) = closeBrackets opened tail := by
  rw [closeBrackets.eq_def]
  simp only [skipBlanks_blanks blank (show isBlank ']' = false from rfl)]

theorem closeBrackets_object (blank : after.all isBlank = true) :
    closeBrackets (.object :: opened) (after ++ '\x7d' :: tail) = closeBrackets opened tail := by
  rw [closeBrackets.eq_def]
  simp only [skipBlanks_blanks blank (show isBlank '\x7d' = false from rfl)]

theorem closeBrackets_nextItem (blank : after.all isBlank = true) :
    closeBrackets (.array :: opened) (after ++ ',' :: tail) =
      .ok (.inl (.array :: opened), tail) := by
  rw [closeBrackets.eq_def]
  simp only [skipBlanks_blanks blank (show isBlank ',' = false from rfl)]

theorem closeBrackets_nextMember {behind : List Char} (blank : after.all isBlank = true)
    (key : skipKey tail = .ok behind) :
    closeBrackets (.object :: opened) (after ++ ',' :: tail) =
      .ok (.inl (.object :: opened), behind) := by
  rw [closeBrackets.eq_def]
  simp only [skipBlanks_blanks blank (show isBlank ',' = false from rfl), key]
  rfl

end Closing

/-! ### Words, numbers and strings -/

section Heads

variable {opened : List Bracket} {chars tail : List Char}

/-- A text that one turn takes off is passed over. -/
theorem isPassed_of_finished {text : List Char} (nonempty : text ≠ [])
    (finished : ∀ opened chars tail, skipBlanks chars = text ++ tail → endsNumber tail = true →
      skipStep opened chars = closeBrackets opened tail) : IsPassed text := by
  refine ⟨1, List.length_pos_iff.mpr nonempty, fun budget opened chars tail visible ends => ?_⟩
  exact repeatStep_of_finished (finished opened chars tail visible ends)

theorem IsNumber.isPassed {text : List Char} (isNumber : IsNumber text) : IsPassed text := by
  obtain ⟨first, rest, written, starts⟩ := isNumber.exists_eq_cons
  refine isPassed_of_finished (written ▸ List.cons_ne_nil _ _)
    fun opened chars tail visible ends => ?_
  obtain ⟨numeral, scanned⟩ := isNumber.scanNumeral_append ends .malformed
  rw [written, List.cons_append] at visible scanned
  obtain ⟨noNull, noTrue, noFalse, noString, noArray, noObject⟩ := noOther_of_startsNumber starts
  rw [skipStep]
  split
  any_goals grind
  rename_i char others _ _ _ _ _ _ equal
  rw [visible] at equal
  obtain ⟨rfl, rfl⟩ := List.cons.inj equal
  rw [if_pos starts, scanned]
  rfl

theorem IsString.isPassed {text : List Char} (isString : IsString text) :
    IsPassed ('"' :: (text ++ ['"'])) := by
  refine isPassed_of_finished (List.cons_ne_nil _ _) fun opened chars tail visible _ => ?_
  rw [List.cons_append, List.append_assoc, List.singleton_append] at visible
  rw [skipStep, visible]
  show (skipString (text ++ '"' :: tail) >>= _) = _
  rw [isString.skipString_append]
  rfl

end Heads

/-! ### Arrays and objects -/

theorem endsNumber_blanks {gap : List Char} (blank : gap.all isBlank = true) {tail : List Char}
    (ends : endsNumber tail = true) : endsNumber (gap ++ tail) = true := by
  cases gap with
  | nil => exact ends
  | cons first rest =>
    simp only [List.all_cons, Bool.and_eq_true, isBlank, Bool.or_eq_true, beq_iff_eq] at blank
    rcases blank.1 with ((rfl | rfl) | rfl) | rfl <;> rfl

theorem IsValue.skipBlanks_append {value before : List Char} (isValue : IsValue value)
    (blank : before.all isBlank = true) (tail : List Char) :
    skipBlanks (before ++ (value ++ tail)) = value ++ tail := by
  obtain ⟨first, rest, rfl, visible, _⟩ := isValue.exists_eq_cons
  exact skipBlanks_blanks blank visible _

/-- The items of an open array are passed over, and the array is closed behind them. -/
def AreItemsPassed (items : List Char) : Prop :=
  ∃ turns ≤ items.length, ∀ budget opened chars tail,
    skipBlanks chars = skipBlanks (items ++ ']' :: tail) →
      Reader.repeatStep skipStep (budget + turns) (.array :: opened) chars =
        resume budget opened tail

/-- Behind its first key, the members of an open object are passed over, and the object is closed
behind them. -/
def AreMembersPassed (members : List Char) : Prop :=
  ∃ turns ≤ members.length, ∀ tail, ∃ behind,
    skipKey (members ++ '\x7d' :: tail) = .ok behind ∧ ∀ budget opened,
      Reader.repeatStep skipStep (budget + turns) (.object :: opened) behind =
        resume budget opened tail

section Inside

variable {before value after : List Char}

theorem IsPassed.lastItem (passed : IsPassed value) (isValue : IsValue value)
    (blankBefore : before.all isBlank = true) (blankAfter : after.all isBlank = true) :
    AreItemsPassed (before ++ (value ++ after)) := by
  obtain ⟨turns, few, passes⟩ := passed
  refine ⟨turns, by simp only [List.length_append]; omega,
    fun budget opened chars tail visible => ?_⟩
  rw [List.append_assoc, List.append_assoc, isValue.skipBlanks_append blankBefore] at visible
  rw [passes budget _ chars _ visible (endsNumber_blanks blankAfter rfl)]
  exact resume_of_closed (closeBrackets_array blankAfter)

theorem IsPassed.nextItem {items : List Char} (passed : IsPassed value) (isValue : IsValue value)
    (blankBefore : before.all isBlank = true) (blankAfter : after.all isBlank = true)
    (others : AreItemsPassed items) :
    AreItemsPassed (before ++ (value ++ (after ++ ',' :: items))) := by
  obtain ⟨turns, few, passes⟩ := passed
  obtain ⟨later, fewLater, passesLater⟩ := others
  refine ⟨later + turns, by simp only [List.length_append, List.length_cons]; omega,
    fun budget opened chars tail visible => ?_⟩
  simp only [List.append_assoc, List.cons_append] at visible
  rw [isValue.skipBlanks_append blankBefore] at visible
  rw [← Nat.add_assoc, passes _ _ chars _ visible (endsNumber_blanks blankAfter rfl),
    resume_of_next (closeBrackets_nextItem blankAfter)]
  exact passesLater budget opened _ tail rfl

theorem IsPassed.lastMember {key : List Char} (passed : IsPassed value) (isValue : IsValue value)
    (isKey : IsKey key) (blankBefore : before.all isBlank = true)
    (blankAfter : after.all isBlank = true) :
    AreMembersPassed (key ++ (before ++ (value ++ after))) := by
  obtain ⟨turns, few, passes⟩ := passed
  refine ⟨turns, by simp only [List.length_append]; omega, fun tail => ?_⟩
  simp only [List.append_assoc]
  refine ⟨_, isKey.skipKey_append _, fun budget opened => ?_⟩
  rw [passes budget _ _ _ (isValue.skipBlanks_append blankBefore _)
    (endsNumber_blanks blankAfter rfl)]
  exact resume_of_closed (closeBrackets_object blankAfter)

theorem IsPassed.nextMember {key members : List Char} (passed : IsPassed value)
    (isValue : IsValue value) (isKey : IsKey key) (blankBefore : before.all isBlank = true)
    (blankAfter : after.all isBlank = true) (others : AreMembersPassed members) :
    AreMembersPassed (key ++ (before ++ (value ++ (after ++ ',' :: members)))) := by
  obtain ⟨turns, few, passes⟩ := passed
  obtain ⟨later, fewLater, passesLater⟩ := others
  refine ⟨later + turns, by simp only [List.length_append, List.length_cons]; omega,
    fun tail => ?_⟩
  obtain ⟨behind, skipped, resumes⟩ := passesLater tail
  simp only [List.append_assoc, List.cons_append]
  refine ⟨_, isKey.skipKey_append _, fun budget opened => ?_⟩
  rw [← Nat.add_assoc, passes _ _ _ _ (isValue.skipBlanks_append blankBefore _)
    (endsNumber_blanks blankAfter rfl),
    resume_of_next (closeBrackets_nextMember blankAfter skipped)]
  exact resumes budget opened

end Inside

/-- The items of an array start with a character that does not close it. -/
theorem AreItems.exists_skipBlanks_eq {items : List Char} (areItems : AreItems items)
    (tail : List Char) : ∃ first rest, skipBlanks (items ++ tail) = first :: rest ∧
      isBlank first = false ∧ first ≠ ']' := by
  cases areItems with
  | last blank isValue _ =>
    obtain ⟨first, rest, rfl, visible, noClosing⟩ := isValue.exists_eq_cons
    rw [List.append_assoc, List.append_assoc]
    exact ⟨first, _, skipBlanks_blanks blank visible _, visible, noClosing⟩
  | item blank isValue _ _ =>
    obtain ⟨first, rest, rfl, visible, noClosing⟩ := isValue.exists_eq_cons
    rw [List.append_assoc, List.append_assoc]
    exact ⟨first, _, skipBlanks_blanks blank visible _, visible, noClosing⟩

theorem isPassed_emptyArray {gap : List Char} (blank : gap.all isBlank = true) :
    IsPassed ('[' :: (gap ++ [']'])) := by
  refine isPassed_of_finished (List.cons_ne_nil _ _) fun opened chars tail visible _ => ?_
  rw [List.cons_append, List.append_assoc, List.singleton_append] at visible
  rw [skipStep, visible]
  simp only [skipBlanks_blanks blank (show isBlank ']' = false from rfl)]

theorem isPassed_emptyObject {gap : List Char} (blank : gap.all isBlank = true) :
    IsPassed ('\x7b' :: (gap ++ ['\x7d'])) := by
  refine isPassed_of_finished (List.cons_ne_nil _ _) fun opened chars tail visible _ => ?_
  rw [List.cons_append, List.append_assoc, List.singleton_append] at visible
  rw [skipStep, visible]
  simp only [skipBlanks_blanks blank (show isBlank '\x7d' = false from rfl)]

theorem AreItemsPassed.isPassed {items : List Char} (passed : AreItemsPassed items)
    (areItems : AreItems items) : IsPassed ('[' :: (items ++ [']'])) := by
  obtain ⟨turns, few, passes⟩ := passed
  refine ⟨turns + 1, by simp only [List.length_cons, List.length_append]; omega,
    fun budget opened chars tail visible _ => ?_⟩
  obtain ⟨first, rest, inside, notBlank, noClosing⟩ := areItems.exists_skipBlanks_eq (']' :: tail)
  rw [List.cons_append, List.append_assoc, List.singleton_append] at visible
  have goesOn : skipStep opened chars = .ok (.inl (.array :: opened), first :: rest) := by
    rw [skipStep, visible]
    simp only [inside]
    split
    · contradiction
    · rename_i equal
      exact absurd (List.cons.inj equal).1 noClosing
    · rfl
  rw [← Nat.add_assoc, repeatStep_of_opened goesOn]
  exact passes budget opened _ tail (by rw [skipBlanks_cons notBlank, inside])

/-- The members of an object start with a key. -/
theorem AreMembers.exists_skipBlanks_eq {members : List Char} (areMembers : AreMembers members)
    (tail : List Char) : ∃ rest, skipBlanks (members ++ tail) = '"' :: rest := by
  cases areMembers with
  | last isKey _ _ _ =>
    obtain ⟨blank, _, _⟩ := isKey
    simp only [List.append_assoc, List.cons_append]
    exact ⟨_, skipBlanks_blanks blank (by decide) _⟩
  | member isKey _ _ _ _ =>
    obtain ⟨blank, _, _⟩ := isKey
    simp only [List.append_assoc, List.cons_append]
    exact ⟨_, skipBlanks_blanks blank (by decide) _⟩

theorem AreMembersPassed.isPassed {members : List Char} (passed : AreMembersPassed members)
    (areMembers : AreMembers members) : IsPassed ('\x7b' :: (members ++ ['\x7d'])) := by
  obtain ⟨turns, few, passes⟩ := passed
  refine ⟨turns + 1, by simp only [List.length_cons, List.length_append]; omega,
    fun budget opened chars tail visible _ => ?_⟩
  obtain ⟨rest, inside⟩ := areMembers.exists_skipBlanks_eq ('\x7d' :: tail)
  obtain ⟨behind, skipped, resumes⟩ := passes tail
  rw [List.cons_append, List.append_assoc, List.singleton_append] at visible
  have sameKey : skipKey ('"' :: rest) = .ok behind := by
    rw [← skipped, skipKey, skipKey, inside, skipBlanks_cons (by decide)]
  have goesOn : skipStep opened chars = .ok (.inl (.object :: opened), behind) := by
    rw [skipStep, visible]
    simp only [inside]
    show (skipKey ('"' :: rest) >>= _) = _
    rw [sameKey]
    rfl
  rw [← Nat.add_assoc, repeatStep_of_opened goesOn]
  exact resumes budget opened

/-! ### Any value -/

mutual

/-- Every value is passed over. -/
theorem IsValue.isPassed {text : List Char} : IsValue text → IsPassed text
  | .null => isPassed_of_finished (List.cons_ne_nil _ _) fun _ _ _ visible _ => by
    rw [skipStep, visible]
    rfl
  | .yes => isPassed_of_finished (List.cons_ne_nil _ _) fun _ _ _ visible _ => by
    rw [skipStep, visible]
    rfl
  | .no => isPassed_of_finished (List.cons_ne_nil _ _) fun _ _ _ visible _ => by
    rw [skipStep, visible]
    rfl
  | .number isNumber => isNumber.isPassed
  | .string isString => isString.isPassed
  | .emptyArray blank => isPassed_emptyArray blank
  | .array areItems => (AreItems.arePassed areItems).isPassed areItems
  | .emptyObject blank => isPassed_emptyObject blank
  | .object areMembers => (AreMembers.arePassed areMembers).isPassed areMembers

theorem AreItems.arePassed {items : List Char} : AreItems items → AreItemsPassed items
  | .last before isValue after => (IsValue.isPassed isValue).lastItem isValue before after
  | .item before isValue after others =>
    (IsValue.isPassed isValue).nextItem isValue before after (AreItems.arePassed others)

theorem AreMembers.arePassed {members : List Char} : AreMembers members → AreMembersPassed members
  | .last isKey before isValue after =>
    (IsValue.isPassed isValue).lastMember isValue isKey before after
  | .member isKey before isValue after others =>
    (IsValue.isPassed isValue).nextMember isValue isKey before after (AreMembers.arePassed others)

end

/-- Any value is passed over to its end. -/
theorem IsValue.anything_append {value gap tail : List Char} (isValue : IsValue value)
    (blank : gap.all isBlank = true) (ends : endsNumber tail = true) :
    Reader.anything (gap ++ (value ++ tail)) = .ok ((), tail) := by
  obtain ⟨turns, few, passes⟩ := isValue.isPassed
  have room : turns ≤ (gap ++ (value ++ tail)).length + 1 := by
    simp only [List.length_append]
    omega
  rw [Reader.anything, Reader.iterate, ← Nat.sub_add_cancel room,
    passes _ [] _ tail (isValue.skipBlanks_append blank tail) ends]
  rfl

end BlockCone.Json
