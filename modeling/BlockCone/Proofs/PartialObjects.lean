/-
This file proves how a record is read from an object that holds some of its fields.

The members of such an object come in any order, their keys may be spelled in any way, blanks may
stand between all parts, and there may be members that nobody asked for. `Takes` follows the reader
through them. A member of a known key changes the record and marks the key as seen, and a member of
any other key changes nothing, so the fields that were not named keep what they had.

A key that comes again is refused as soon as it is seen. For this the values before it have to be
read, but not to be of the right kind: a value that can be read and is of another kind is refused
for the same reason. What cannot be read is a number beyond all doubles and a string with a half of
a character in it. A value in brackets is not looked into if it is not wanted.
-/

import BlockCone.Proofs.JsonGrammar
import BlockCone.Proofs.JsonRecords

namespace BlockCone.Json

/-! ### Values in their places -/

section Values

variable {β γ : Type}

/-- A reader takes a text as a value, wherever it stands. -/
def Reads (reader : Reader β) (text : List Char) (value : β) : Prop :=
  ∀ gap tail : List Char, gap.all isBlank = true → endsNumber tail = true →
    reader (gap ++ (text ++ tail)) = .ok (value, tail)

/-- A reader refuses a text as a mismatch, wherever it stands. -/
def Refuses (reader : Reader β) (text : List Char) : Prop :=
  ∀ gap tail : List Char, gap.all isBlank = true → endsNumber tail = true →
    reader (gap ++ (text ++ tail)) = .error .mismatched

/-- A reader takes a text as some value or refuses it as a mismatch. -/
def Judges (reader : Reader β) (text : List Char) : Prop :=
  (∃ value, Reads reader text value) ∨ Refuses reader text

theorem Reads.map {reader : Reader β} {text : List Char} {value : β}
    (reads : Reads reader text value) (change : β → γ) :
    Reads (reader.map change) text (change value) := by
  intro gap tail blank ends
  rw [Reader.map, reads gap tail blank ends]
  rfl

/-- What is recalled without a look at doubles is read from its text. -/
theorem Recalls.reads {reader : Reader β} {json : Json} {value : β}
    (recalls : Recalls reader json [] value) (spacing : Spacing) (level : Nat) :
    Reads reader (json.chars spacing level) value :=
  recalls spacing level

/-- A field whose reader takes a text as a value stores the value. -/
theorem Reads.field {σ : Type} {reader : Reader β} {text : List Char} {value : β}
    (reads : Reads reader text value) {store : σ → β → σ} {record next : σ}
    (stored : store record value = next) (key : String) (required : Bool) :
    Reads ((Field.of key required reader store).read record) text next :=
  stored ▸ reads.map (store record)

theorem Judges.map {reader : Reader β} {text : List Char} (judges : Judges reader text)
    (change : β → γ) : Judges (reader.map change) text := by
  rcases judges with ⟨value, reads⟩ | refuses
  · exact Or.inl ⟨change value, reads.map change⟩
  · refine Or.inr fun gap tail blank ends => ?_
    rw [Reader.map, refuses gap tail blank ends]
    rfl

theorem Judges.field {σ : Type} {reader : Reader β} {text : List Char}
    (judges : Judges reader text) (key : String) (required : Bool) (store : σ → β → σ)
    (record : σ) : Judges ((Field.of key required reader store).read record) text :=
  judges.map (store record)

/-- A text that holds a number and nothing else. -/
def IsNumberText (text : List Char) (number : Number) : Prop :=
  takeNumber text = .ok (number, [])

theorem IsNumberText.exists_eq_cons {text : List Char} {number : Number}
    (isText : IsNumberText text number) :
    ∃ first rest, text = first :: rest ∧ startsNumber first = true := by
  cases text with
  | nil => cases isText
  | cons first rest =>
    refine ⟨first, rest, rfl, ?_⟩
    by_cases minus : first = '-'
    · rw [startsNumber, beq_iff_eq.mpr minus, Bool.true_or]
    · obtain ⟨⟨numeral, behind⟩, scanned, _⟩ := bind_eq_ok_iff.mp isText
      rw [scanNumeral_of_ne minus] at scanned
      obtain ⟨⟨whole, _⟩, wholeScanned, _⟩ := bind_eq_ok_iff.mp scanned
      obtain ⟨⟨digits, _⟩, digitsScanned, _⟩ := bind_eq_ok_iff.mp wholeScanned
      obtain ⟨nonempty, taken, _⟩ := scanDigits_eq_ok_iff.mp digitsScanned
      cases digit : first.isDigit with
      | true => exact startsNumber_of_isDigit digit
      | false =>
        rw [List.takeWhile_cons_of_neg (by simp [digit])] at taken
        exact absurd taken.symm nonempty

theorem IsNumberText.reads {text : List Char} {number : Number}
    (isText : IsNumberText text number) : Reads Reader.number text number := by
  intro gap tail blank ends
  obtain ⟨first, rest, rfl, starts⟩ := isText.exists_eq_cons
  rw [List.cons_append, number_of_startsNumber blank starts]
  exact takesHead_takeNumber.append isText ends

/-- A double is what is read from a text. -/
def IsTextOf (text : List Char) (value : Float) : Prop :=
  ∃ number, IsNumberText text number ∧ number.toDouble = value

theorem IsTextOf.reads {text : List Char} {value : Float} (isText : IsTextOf text value) :
    Reads Reader.real text value := by
  obtain ⟨number, numberText, rfl⟩ := isText
  exact numberText.reads.map Number.toDouble

/-- A finite double that is read back from its own text has it as a text. -/
theorem isTextOf_realChars {value : Float} (finite : value.isFinite = true)
    (reads : Decimal.ReadsBack value) : IsTextOf (realChars value) value := by
  obtain ⟨text, printed⟩ :=
    Option.isSome_iff_exists.mp ((Decimal.isSome_stored? value).trans finite)
  obtain ⟨first, rest, number, written, _, taken, same⟩ := takeNumber_of_readsBack printed reads
  refine ⟨number, ?_, same⟩
  rw [IsNumberText, realChars, printed]
  show takeNumber text.toList = _
  rw [written, taken]

/-! ### Values of any kind -/

/-- The text of a value that can be read, of whatever kind. What is behind an opening bracket does
not matter if it is not wanted. -/
inductive IsReadable : List Char → Prop where
  | null : IsReadable ['n', 'u', 'l', 'l']
  | yes : IsReadable ['t', 'r', 'u', 'e']
  | no : IsReadable ['f', 'a', 'l', 's', 'e']
  | number {text : List Char} {number : Number} : IsNumberText text number → IsReadable text
  | string {text : List Char} {value : String} : Spells text value.toList →
      IsReadable ('"' :: (text ++ ['"']))
  | array (inside : List Char) : IsReadable ('[' :: inside)
  | object (inside : List Char) : IsReadable ('\x7b' :: inside)

namespace IsReadable

variable {text : List Char}

theorem exists_eq_cons (readable : IsReadable text) :
    ∃ first rest, text = first :: rest ∧ isBlank first = false := by
  cases readable with
  | number isText =>
    obtain ⟨first, rest, rfl, starts⟩ := isText.exists_eq_cons
    exact ⟨first, rest, rfl, isBlank_eq_false_of_startsNumber starts⟩
  | _ => exact ⟨_, _, rfl, rfl⟩

theorem skipBlanks_append (readable : IsReadable text) {gap : List Char}
    (blank : gap.all isBlank = true) (tail : List Char) :
    skipBlanks (gap ++ (text ++ tail)) = text ++ tail := by
  obtain ⟨first, rest, rfl, visible⟩ := readable.exists_eq_cons
  exact skipBlanks_blanks blank visible _

theorem mismatch_of_startsNumber {first : Char} {rest behind : List Char} {number : Number}
    (starts : startsNumber first = true)
    (taken : takeNumber (first :: rest) = .ok (number, behind)) :
    mismatch (first :: rest) = .mismatched := by
  obtain ⟨noNull, noTrue, noFalse, noString, noArray, noObject⟩ := noOther_of_startsNumber starts
  rw [mismatch]
  split
  all_goals grind

/-- A value that can be read is of another kind where none of its kind is wanted. -/
theorem mismatch_append (readable : IsReadable text) {tail : List Char}
    (ends : endsNumber tail = true) : mismatch (text ++ tail) = .mismatched := by
  cases readable with
  | number isText =>
    obtain ⟨first, rest, rfl, starts⟩ := isText.exists_eq_cons
    exact mismatch_of_startsNumber starts (takesHead_takeNumber.append isText ends)
  | @string text value spells =>
    rw [List.cons_append, List.append_assoc, List.singleton_append, mismatch]
    simp only [spells.stringBody]
  | _ => rfl

/-- Truth values are taken, and all else is refused. -/
theorem judges_bool (readable : IsReadable text) : Judges Reader.bool text := by
  have visible := fun (gap tail : List Char) (blank : gap.all isBlank = true) =>
    readable.skipBlanks_append blank tail
  have refused : ∀ tail, endsNumber tail = true →
      (Except.error (mismatch (text ++ tail)) : Except Fault (Bool × List Char)) =
        .error .mismatched := fun tail ends => by rw [readable.mismatch_append ends]
  cases readable with
  | yes =>
    exact Or.inl ⟨true, fun gap tail blank _ => by rw [Reader.bool, visible gap tail blank]; rfl⟩
  | no =>
    exact Or.inl ⟨false, fun gap tail blank _ => by rw [Reader.bool, visible gap tail blank]; rfl⟩
  | number isText =>
    obtain ⟨first, rest, rfl, starts⟩ := isText.exists_eq_cons
    obtain ⟨_, noTrue, noFalse, _⟩ := noOther_of_startsNumber starts
    refine Or.inr fun gap tail blank ends => ?_
    rw [Reader.bool, visible gap tail blank]
    split
    all_goals grind
  | _ =>
    refine Or.inr fun gap tail blank ends => ?_
    rw [Reader.bool, visible gap tail blank]
    exact refused tail ends

/-- Numbers are taken, and all else is refused. -/
theorem judges_number (readable : IsReadable text) : Judges Reader.number text := by
  have visible := fun (gap tail : List Char) (blank : gap.all isBlank = true) =>
    readable.skipBlanks_append blank tail
  have refused : ∀ tail, endsNumber tail = true →
      (Except.error (mismatch (text ++ tail)) : Except Fault (Number × List Char)) =
        .error .mismatched := fun tail ends => by rw [readable.mismatch_append ends]
  cases readable with
  | number isText => exact Or.inl ⟨_, isText.reads⟩
  | _ =>
    refine Or.inr fun gap tail blank ends => ?_
    rw [Reader.number, visible gap tail blank]
    exact refused tail ends

theorem judges_real (readable : IsReadable text) : Judges Reader.real text :=
  readable.judges_number.map Number.toDouble

/-- Natural numbers below the limit are taken, and all other numbers are refused like all else. -/
theorem judges_natural (readable : IsReadable text) (limit : Nat) :
    Judges (Reader.natural limit) text := by
  rcases readable.judges_number with ⟨number, reads⟩ | refuses
  · have taken : ∀ gap tail : List Char, gap.all isBlank = true → endsNumber tail = true →
        Reader.natural limit (gap ++ (text ++ tail)) =
          match number with
          | .natural value => if value < limit then .ok (value, tail) else .error .mismatched
          | .real _ => .error .mismatched := by
      intro gap tail blank ends
      rw [Reader.natural, reads gap tail blank ends]
      cases number <;> rfl
    cases number with
    | natural value =>
      by_cases small : value < limit
      · refine Or.inl ⟨value, fun gap tail blank ends => ?_⟩
        rw [taken gap tail blank ends]
        exact if_pos small
      · refine Or.inr fun gap tail blank ends => ?_
        rw [taken gap tail blank ends]
        exact if_neg small
    | real value => exact Or.inr taken
  · refine Or.inr fun gap tail blank ends => ?_
    rw [Reader.natural, refuses gap tail blank ends]
    rfl

end IsReadable

end Values

/-! ### Members as they are written -/

/-- A member of an object as it is written: its key and how that is spelled, the text of its value,
and the blanks between them. -/
structure Member where
  key : String
  before : List Char
  spelled : List Char
  toColon : List Char
  toValue : List Char
  value : List Char
  after : List Char

namespace Member

/-- The parts of a member are what they stand for. -/
structure IsWritten (member : Member) : Prop where
  before : member.before.all isBlank = true
  spells : Spells member.spelled member.key.toList
  toColon : member.toColon.all isBlank = true
  toValue : member.toValue.all isBlank = true
  after : member.after.all isBlank = true

/-- The text of a member behind the opening quote of its key. -/
def behindQuote (member : Member) (tail : List Char) : List Char :=
  member.spelled ++ '"' :: (member.toColon ++ ':' ::
    (member.toValue ++ (member.value ++ (member.after ++ tail))))

/-- The text of members behind another one. -/
def othersChars : List Member → List Char → List Char
  | [], tail => tail
  | member :: others, tail =>
      ',' :: (member.before ++ '"' :: member.behindQuote (othersChars others tail))

/-- The text of an object behind its opening brace. -/
def objectChars (gap : List Char) : List Member → List Char → List Char
  | [], tail => gap ++ tail
  | member :: others, tail => member.before ++ '"' :: member.behindQuote (othersChars others tail)

/-- A member without blanks, whose key is printed. -/
def plain (key : String) (value : List Char) : Member :=
  ⟨key, [], key.toList.flatMap escapedChar, [], [], value, []⟩

theorem isWritten_plain (key : String) (value : List Char) : (plain key value).IsWritten :=
  ⟨rfl, spells_escapedChars key.toList, rfl, rfl, rfl⟩

theorem endsNumber_othersChars {members : List Member} {tail : List Char}
    (ends : endsNumber tail = true) : endsNumber (othersChars members tail) = true := by
  cases members with
  | nil => exact ends
  | cons first rest => rfl

/-- Every member behind another one takes characters. -/
theorem length_le_length_othersChars (members : List Member) (tail : List Char) :
    members.length ≤ (othersChars members tail).length := by
  induction members with
  | nil => exact Nat.zero_le _
  | cons first rest inductionHypothesis =>
    simp only [othersChars, behindQuote, List.length_cons, List.length_append]
    omega

theorem length_lt_behindQuote (member : Member) (members : List Member) (tail : List Char) :
    members.length <
      (member.before ++ '"' :: member.behindQuote (othersChars members tail)).length := by
  have long := length_le_length_othersChars members tail
  simp only [behindQuote, List.length_cons, List.length_append]
  omega

end Member

/-! ### Taking members -/

variable {σ : Type}

/-- A record takes in members as they are written. A member of a known key, which has to be new,
changes it, and any other member does not. -/
inductive Layout.Takes (layout : Layout σ) :
    List String → σ → List Member → List String → σ → Prop where
  | done (seen : List String) (record : σ) : layout.Takes seen record [] seen record
  | known {seen seenLast : List String} {record next last : σ} {member : Member} {field : Field σ}
      {members : List Member}
      (found : (layout.fields.find? fun field => field.key == member.key) = some field)
      (fresh : member.key ∉ seen) (reads : Reads (field.read record) member.value next)
      (others : layout.Takes (member.key :: seen) next members seenLast last) :
      layout.Takes seen record (member :: members) seenLast last
  | unknown {seen seenLast : List String} {record last : σ} {member : Member}
      {members : List Member}
      (unasked : (layout.fields.find? fun field => field.key == member.key) = none)
      (isValue : IsValue member.value)
      (others : layout.Takes seen record members seenLast last) :
      layout.Takes seen record (member :: members) seenLast last

namespace Layout

variable {layout : Layout σ} {state : Partial σ} {member : Member} {chars tail : List Char}

/-- A member of a known key that is new is read by its field. -/
theorem memberStep_known {field : Field σ} (written : member.IsWritten)
    (announced : nextKey state.first chars = .ok (true, member.behindQuote tail))
    (found : (layout.fields.find? fun field => field.key == member.key) = some field)
    (fresh : member.key ∉ state.seen) :
    layout.memberStep state chars =
      (field.read state.record (member.toValue ++ (member.value ++ (member.after ++ tail))) >>=
        fun read => pure (.inl ⟨false, member.key :: state.seen, read.1⟩, read.2)) := by
  have unseen : state.seen.contains member.key = false := by simpa using fresh
  rw [memberStep, announced]
  show (stringBody (member.behindQuote tail) >>= _) = _
  rw [Member.behindQuote, written.spells.stringBody]
  simp only [bind, Except.bind, found, unseen, takeColon_append written.toColon]
  rfl

/-- A member of an unknown key is passed over. -/
theorem memberStep_unknown (written : member.IsWritten)
    (announced : nextKey state.first chars = .ok (true, member.behindQuote tail))
    (unasked : (layout.fields.find? fun field => field.key == member.key) = none)
    (isValue : IsValue member.value) (ends : endsNumber tail = true) :
    layout.memberStep state chars =
      .ok (.inl { state with first := false }, member.after ++ tail) := by
  rw [memberStep, announced]
  show (stringBody (member.behindQuote tail) >>= _) = _
  rw [Member.behindQuote, written.spells.stringBody]
  simp only [bind, Except.bind, unasked, takeColon_append written.toColon]
  rw [isValue.anything_append written.toValue (endsNumber_blanks written.after ends)]
  rfl

/-- A known key that was seen is refused, whatever stands behind it. -/
theorem memberStep_again {key : String} {spelled behind : List Char} {field : Field σ}
    (spells : Spells spelled key.toList)
    (announced : nextKey state.first chars = .ok (true, spelled ++ '"' :: behind))
    (found : (layout.fields.find? fun field => field.key == key) = some field)
    (again : key ∈ state.seen) : layout.memberStep state chars = .error .mismatched := by
  have seen : state.seen.contains key = true := by simpa using again
  rw [memberStep, announced]
  show (stringBody (spelled ++ '"' :: behind) >>= _) = _
  rw [spells.stringBody]
  simp only [bind, Except.bind, found, seen]
  rfl

/-- One turn for each member, and the rest for what follows. -/
theorem repeatStep_of_ok {next : Partial σ} {turns : Nat}
    (stepped : layout.memberStep state chars = .ok (.inl next, tail)) :
    Reader.repeatStep layout.memberStep (turns + 1) state chars =
      Reader.repeatStep layout.memberStep turns next tail := by
  rw [Reader.repeatStep, stepped]
  rfl

theorem repeatStep_of_error {fault : Fault} {turns : Nat}
    (stepped : layout.memberStep state chars = .error fault) :
    Reader.repeatStep layout.memberStep (turns + 1) state chars = .error fault := by
  rw [Reader.repeatStep, stepped]
  rfl

/-- Wherever a member stands, a turn takes it and leaves other keys seen and another record. -/
def Steps (layout : Layout σ) (member : Member) (seen : List String) (record : σ)
    (seenNext : List String) (next : σ) : Prop :=
  ∀ first chars tail, nextKey first chars = .ok (true, member.behindQuote tail) →
    endsNumber tail = true →
      layout.memberStep ⟨first, seen, record⟩ chars =
        .ok (.inl ⟨false, seenNext, next⟩, member.after ++ tail)

/-- Wherever a member stands, it is refused as a mismatch. -/
def Stops (layout : Layout σ) (member : Member) (seen : List String) (record : σ) : Prop :=
  ∀ first chars tail, nextKey first chars = .ok (true, member.behindQuote tail) →
    endsNumber tail = true →
      layout.memberStep ⟨first, seen, record⟩ chars = .error .mismatched

theorem steps_of_reads {field : Field σ} {seen : List String} {record next : σ}
    (written : member.IsWritten)
    (found : (layout.fields.find? fun field => field.key == member.key) = some field)
    (fresh : member.key ∉ seen) (reads : Reads (field.read record) member.value next) :
    layout.Steps member seen record (member.key :: seen) next := by
  intro first chars tail announced ends
  rw [memberStep_known written announced found fresh,
    reads _ _ written.toValue (endsNumber_blanks written.after ends)]
  rfl

theorem stops_of_refuses {field : Field σ} {seen : List String} {record : σ}
    (written : member.IsWritten)
    (found : (layout.fields.find? fun field => field.key == member.key) = some field)
    (fresh : member.key ∉ seen) (refuses : Refuses (field.read record) member.value) :
    layout.Stops member seen record := by
  intro first chars tail announced ends
  rw [memberStep_known written announced found fresh,
    refuses _ _ written.toValue (endsNumber_blanks written.after ends)]
  rfl

/-- The first of the members that a record takes in is a turn, and then it takes in the others. -/
theorem Takes.exists_steps {seen seenLast : List String} {record last : σ}
    {members : List Member} (takes : layout.Takes seen record (member :: members) seenLast last)
    (written : member.IsWritten) :
    ∃ seenNext next, layout.Steps member seen record seenNext next ∧
      layout.Takes seenNext next members seenLast last := by
  cases takes with
  | known found fresh reads others =>
    exact ⟨_, _, steps_of_reads written found fresh reads, others⟩
  | unknown unasked isValue others =>
    exact ⟨_, _, fun _ _ _ announced ends =>
      memberStep_unknown written announced unasked isValue ends, others⟩

/-- Behind a member all others are taken, up to the closing brace. -/
theorem Takes.repeatStep {members : List Member} {seen seenLast : List String} {record last : σ}
    (takes : layout.Takes seen record members seenLast last)
    (written : ∀ member ∈ members, member.IsWritten)
    (complete : layout.isComplete seenLast = true) {gap : List Char}
    (blank : gap.all isBlank = true) (tail : List Char) {budget : Nat}
    (enough : members.length < budget) :
    Reader.repeatStep layout.memberStep budget ⟨false, seen, record⟩
        (gap ++ Member.othersChars members ('\x7d' :: tail)) = .ok (last, tail) := by
  induction members generalizing seen record gap budget with
  | nil =>
    obtain ⟨turns, rfl⟩ := Nat.exists_eq_add_one.mpr enough
    cases takes
    rw [Member.othersChars, Reader.repeatStep, memberStep_end complete false _ blank]
    rfl
  | cons first rest inductionHypothesis =>
    obtain ⟨here, later⟩ := List.forall_mem_cons.mp written
    obtain ⟨turns, rfl⟩ := Nat.exists_eq_add_one.mpr (Nat.zero_lt_of_lt enough)
    obtain ⟨seenNext, next, steps, others⟩ := takes.exists_steps here
    rw [Member.othersChars, repeatStep_of_ok (steps _ _ _ (nextKey_later blank here.before _)
      (Member.endsNumber_othersChars rfl))]
    exact inductionHypothesis others later here.after (Nat.lt_of_succ_lt_succ enough)

/-- A record is read from the object of members that it takes in. -/
theorem Takes.reader_append {members : List Member} {seen : List String} {record : σ}
    (takes : layout.Takes [] layout.blank members seen record)
    (written : ∀ member ∈ members, member.IsWritten) (complete : layout.isComplete seen = true)
    {lead gap : List Char} (leadBlank : lead.all isBlank = true) (blank : gap.all isBlank = true)
    (tail : List Char) :
    layout.reader (lead ++ '\x7b' :: Member.objectChars gap members ('\x7d' :: tail)) =
      .ok (record, tail) := by
  rw [reader, skipBlanks_blanks leadBlank (by decide)]
  show Reader.repeatStep layout.memberStep _ _ _ = _
  cases members with
  | nil =>
    cases takes
    rw [Member.objectChars, Reader.repeatStep, memberStep_end complete true _ blank]
    rfl
  | cons first rest =>
    obtain ⟨here, later⟩ := List.forall_mem_cons.mp written
    obtain ⟨seenNext, next, steps, others⟩ := takes.exists_steps here
    rw [Member.objectChars, repeatStep_of_ok (steps _ _ _ (nextKey_first here.before _)
      (Member.endsNumber_othersChars rfl))]
    exact others.repeatStep later complete here.after tail (Member.length_lt_behindQuote _ _ _)

/-! ### Keys that come again -/

/-- The value of a member can be read, whether or not it is of the right kind. -/
def JudgesMember (layout : Layout σ) (member : Member) : Prop :=
  match layout.fields.find? fun field => field.key == member.key with
  | some field => ∀ record, Judges (field.read record) member.value
  | none => IsValue member.value

/-- A member whose value can be read is taken or refused. If it is taken and known, its key is seen
from then on. -/
theorem JudgesMember.stops_or_steps (judged : layout.JudgesMember member)
    (written : member.IsWritten) (seen : List String) (record : σ) :
    layout.Stops member seen record ∨
      ∃ seenNext next, layout.Steps member seen record seenNext next ∧
        (∀ key ∈ seen, key ∈ seenNext) ∧
        ((layout.fields.find? fun field => field.key == member.key) ≠ none →
          member.key ∈ seenNext) := by
  unfold JudgesMember at judged
  cases found : layout.fields.find? fun field => field.key == member.key with
  | none =>
    rw [found] at judged
    exact Or.inr ⟨seen, record, fun _ _ _ announced ends =>
      memberStep_unknown written announced found judged ends, fun _ => id, absurd rfl⟩
  | some field =>
    rw [found] at judged
    by_cases again : member.key ∈ seen
    · exact Or.inl fun _ _ _ announced _ => memberStep_again written.spells announced found again
    · rcases judged record with ⟨next, reads⟩ | refuses
      · exact Or.inr ⟨_, next, steps_of_reads written found again reads,
          fun _ => List.mem_cons_of_mem _, fun _ => List.mem_cons_self⟩
      · exact Or.inl (stops_of_refuses written found again refuses)

section Again

variable {key : String} {before spelled : List Char} {field : Field σ}

/-- A known key that was seen, or that is among the members behind, is refused when it comes again,
if nothing was refused before. -/
theorem repeatStep_again
    (found : (layout.fields.find? fun field => field.key == key) = some field)
    (spells : Spells spelled key.toList) (beforeBlank : before.all isBlank = true)
    (behind : List Char) {members : List Member} {seen : List String} {record : σ}
    (written : ∀ member ∈ members, member.IsWritten)
    (judged : ∀ member ∈ members, layout.JudgesMember member)
    (earlier : key ∈ seen ∨ key ∈ members.map Member.key) {gap : List Char}
    (blank : gap.all isBlank = true) {budget : Nat} (enough : members.length < budget) :
    Reader.repeatStep layout.memberStep budget ⟨false, seen, record⟩
        (gap ++ Member.othersChars members
          (',' :: (before ++ '"' :: (spelled ++ '"' :: behind)))) = .error .mismatched := by
  obtain ⟨turns, rfl⟩ := Nat.exists_eq_add_one.mpr (Nat.zero_lt_of_lt enough)
  induction members generalizing seen record gap turns with
  | nil =>
    rw [List.map_nil] at earlier
    exact repeatStep_of_error (memberStep_again spells (nextKey_later blank beforeBlank _) found
      (earlier.resolve_right List.not_mem_nil))
  | cons first rest inductionHypothesis =>
    obtain ⟨here, later⟩ := List.forall_mem_cons.mp written
    obtain ⟨hereJudged, laterJudged⟩ := List.forall_mem_cons.mp judged
    have announced := nextKey_later blank here.before (first.behindQuote
      (Member.othersChars rest (',' :: (before ++ '"' :: (spelled ++ '"' :: behind)))))
    have ends := @Member.endsNumber_othersChars rest _
      (show endsNumber (',' :: (before ++ '"' :: (spelled ++ '"' :: behind))) = true from rfl)
    rw [Member.othersChars]
    rcases hereJudged.stops_or_steps here seen record with stops |
      ⟨seenNext, next, steps, kept, added⟩
    · exact repeatStep_of_error (stops _ _ _ announced ends)
    · rw [List.length_cons] at enough
      obtain ⟨fewer, rfl⟩ := Nat.exists_eq_add_one.mpr (show 0 < turns by omega)
      rw [repeatStep_of_ok (steps _ _ _ announced ends)]
      refine inductionHypothesis later laterJudged ?_ here.after fewer (by omega)
      rcases earlier with seenBefore | among
      · exact Or.inl (kept key seenBefore)
      · rcases List.mem_cons.mp among with rfl | behindFirst
        · exact Or.inl (added (by rw [found]; exact Option.some_ne_none field))
        · exact Or.inr behindFirst

/-- An object in which a known key comes again is refused, whatever stands behind the key. -/
theorem reader_again
    (found : (layout.fields.find? fun field => field.key == key) = some field)
    (spells : Spells spelled key.toList) (beforeBlank : before.all isBlank = true)
    (behind : List Char) {members : List Member}
    (written : ∀ member ∈ members, member.IsWritten)
    (judged : ∀ member ∈ members, layout.JudgesMember member)
    (earlier : key ∈ members.map Member.key) {lead gap : List Char}
    (leadBlank : lead.all isBlank = true) :
    layout.reader (lead ++ '\x7b' :: Member.objectChars gap members
      (',' :: (before ++ '"' :: (spelled ++ '"' :: behind)))) = .error .mismatched := by
  rw [reader, skipBlanks_blanks leadBlank (by decide)]
  show Reader.repeatStep layout.memberStep _ _ _ = _
  cases members with
  | nil => exact absurd earlier List.not_mem_nil
  | cons first rest =>
    obtain ⟨here, later⟩ := List.forall_mem_cons.mp written
    obtain ⟨hereJudged, laterJudged⟩ := List.forall_mem_cons.mp judged
    have announced := nextKey_first here.before (first.behindQuote
      (Member.othersChars rest (',' :: (before ++ '"' :: (spelled ++ '"' :: behind)))))
    have ends := @Member.endsNumber_othersChars rest _
      (show endsNumber (',' :: (before ++ '"' :: (spelled ++ '"' :: behind))) = true from rfl)
    rw [Member.objectChars]
    rcases hereJudged.stops_or_steps here [] layout.blank with stops |
      ⟨seenNext, next, steps, _, added⟩
    · exact repeatStep_of_error (stops _ _ _ announced ends)
    · rw [repeatStep_of_ok (steps _ _ _ announced ends)]
      refine repeatStep_again found spells beforeBlank behind later laterJudged ?_ here.after
        (Member.length_lt_behindQuote _ _ _)
      rcases List.mem_cons.mp earlier with rfl | behindFirst
      · exact Or.inl (added (by rw [found]; exact Option.some_ne_none field))
      · exact Or.inr behindFirst

end Again

end Layout

end BlockCone.Json
