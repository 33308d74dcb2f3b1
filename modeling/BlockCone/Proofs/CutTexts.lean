/-
This file proves that readers notice when a text stops early.

A text is needed to its last character by a scanner that finds every proper head of it truncated.
Strings, words, arrays and objects are such texts, because a character at their end closes them.
Numbers are not: a head of a number may be a number. A reader that stands before a number that stops
early asks for more or takes all there is, and in the second case it leaves nothing to whatever
comes next, which then asks for more. So it is enough that every value is either spent or truncated,
and that something has to follow. `Endures` says this of a reader and a JSON value, together with
what the reader does when the text goes on.

The proofs are put together as the texts are. A head of two texts is a head of the first, or the
first and a head of the second; `NeedsAll.append` and `NeedsAll.andThen` are this case distinction,
and everything else is a chain of them. For a repeated step the number of turns does not matter,
because running out of turns counts as truncated as well.
-/

import BlockCone.Proofs.CutNumbers
import BlockCone.Proofs.JsonRecords

namespace BlockCone.Json

section Needing

variable {β γ σ : Type}

/-! ### Texts that are needed to the end -/

/-- A scanner finds every proper head of a text truncated. -/
def NeedsAll (scan : List Char → Except Fault β) (text : List Char) : Prop :=
  ∀ part, part <+: text → part ≠ text → scan part = .error .truncated

theorem NeedsAll.nil (scan : List Char → Except Fault β) : NeedsAll scan [] :=
  fun _ cut proper => absurd (List.prefix_nil.mp cut) proper

/-- What is done behind a first text decides about a second, if a head of the first is too little
for anything. -/
theorem NeedsAll.append {scan later : List Char → Except Fault β} {front back : List Char}
    (short : ∀ part, part <+: front → scan part = .error .truncated)
    (long : ∀ rest, rest ≠ [] → rest <+: back → scan (front ++ rest) = later rest)
    (needs : NeedsAll later back) : NeedsAll scan (front ++ back) := by
  intro part cut proper
  rcases prefix_append_cases cut with inside | ⟨rest, nonempty, beyond, rfl⟩
  · exact short part inside
  · rw [long rest nonempty beyond]
    exact needs rest beyond fun same => proper (same ▸ rfl)

/-- Two texts are needed one after the other. -/
theorem NeedsAll.andThen {scan later : List Char → Except Fault β} {front back : List Char}
    (needs : NeedsAll scan front) (long : ∀ rest, rest <+: back → scan (front ++ rest) = later rest)
    (needsLater : NeedsAll later back) (nonempty : back ≠ []) : NeedsAll scan (front ++ back) := by
  refine .append (fun part cut => ?_) (fun rest _ => long rest) needsLater
  by_cases whole : part = front
  · have here := long [] List.nil_prefix
    rw [List.append_nil] at here
    rw [whole, here]
    exact needsLater [] List.nil_prefix nonempty.symm
  · exact needs part cut whole

/-- What is done behind a character decides, if what stands before it is too little. -/
theorem NeedsAll.behind {scan later : List Char → Except Fault β} {front text : List Char}
    {first : Char} (short : ∀ part, part <+: front → scan part = .error .truncated)
    (opened : ∀ rest, scan (front ++ first :: rest) = later rest) (needs : NeedsAll later text) :
    NeedsAll scan (front ++ first :: text) := by
  intro part cut proper
  rcases prefix_append_cases cut with inside | ⟨rest, nonempty, beyond, rfl⟩
  · exact short part inside
  · obtain ⟨char, others, rfl⟩ := List.exists_cons_of_ne_nil nonempty
    obtain ⟨rfl, inside⟩ := List.cons_prefix_cons.mp beyond
    rw [opened others]
    exact needs others inside fun same => proper (same ▸ rfl)

theorem NeedsAll.cons {scan later : List Char → Except Fault β} {first : Char} {text : List Char}
    (hungry : scan [] = .error .truncated) (opened : ∀ rest, scan (first :: rest) = later rest)
    (needs : NeedsAll later text) : NeedsAll scan (first :: text) :=
  .behind (fun _ cut => List.prefix_nil.mp cut ▸ hungry) opened needs

theorem NeedsAll.singleton {scan : List Char → Except Fault β}
    (hungry : scan [] = .error .truncated) (char : Char) : NeedsAll scan [char] :=
  .cons hungry (fun _ => rfl) (.nil _)

theorem NeedsAll.bind {scan : List Char → Except Fault β} {text : List Char}
    (needs : NeedsAll scan text) (next : β → Except Fault γ) :
    NeedsAll (fun chars => scan chars >>= next) text := by
  intro part cut proper
  show (scan part >>= next) = _
  rw [needs part cut proper]
  rfl

/-- A head of a text that is spent leaves nothing to what comes next. -/
theorem IsSpent.bind {answer : Except Fault (β × List Char)} (spent : IsSpent answer)
    {next : β × List Char → Except Fault γ}
    (hungry : ∀ value, next (value, []) = .error .truncated) :
    (answer >>= next) = .error .truncated := by
  rcases spent with short | ⟨value, full⟩
  · rw [short]
    rfl
  · rw [full]
    exact hungry value

theorem IsSpent.map {answer : Except Fault (β × List Char)} (spent : IsSpent answer)
    (change : β → γ) : IsSpent (answer >>= fun (value, rest) => pure (change value, rest)) := by
  rcases spent with short | ⟨value, full⟩
  · rw [short]
    exact Or.inl rfl
  · rw [full]
    exact Or.inr ⟨change value, rfl⟩

/-! ### Repeated steps -/

/-- What a repeated step makes of a text that stops early: it asks for more, or it takes all there
is and wants to go on. -/
def IsPending (answer : Except Fault ((σ ⊕ β) × List Char)) : Prop :=
  answer = .error .truncated ∨ ∃ next, answer = .ok (.inl next, [])

theorem IsSpent.pending {answer : Except Fault (γ × List Char)} (spent : IsSpent answer)
    (make : γ → σ) :
    IsPending (answer >>= fun (value, rest) =>
      (pure (.inl (make value), rest) : Except Fault ((σ ⊕ β) × List Char))) := by
  rcases spent with short | ⟨value, full⟩
  · rw [short]
    exact Or.inl rfl
  · rw [full]
    exact Or.inr ⟨make value, rfl⟩

variable {step : σ → Reader (σ ⊕ β)}

theorem repeatStep_nil (hungry : ∀ state, step state [] = .error .truncated) (budget : Nat)
    (state : σ) : Reader.repeatStep step budget state [] = .error .truncated := by
  cases budget with
  | zero => rfl
  | succ turns =>
    rw [Reader.repeatStep, hungry]
    rfl

/-- A repeated step needs what it takes and what the others need. -/
theorem NeedsAll.repeatStep {state next : σ} {front back : List Char}
    (hungry : ∀ state, step state [] = .error .truncated)
    (pending : ∀ part, part <+: front → IsPending (step state part))
    (stepped : ∀ rest, rest ≠ [] → rest <+: back →
      step state (front ++ rest) = .ok (.inl next, rest))
    (others : ∀ budget, NeedsAll (Reader.repeatStep step budget next) back) (budget : Nat) :
    NeedsAll (Reader.repeatStep step budget state) (front ++ back) := by
  cases budget with
  | zero => exact fun _ _ _ => rfl
  | succ turns =>
    refine .append (fun part cut => ?_) (fun rest nonempty cut => ?_) (others turns)
    · rw [Reader.repeatStep]
      rcases pending part cut with short | ⟨later, full⟩
      · rw [short]
        rfl
      · rw [full]
        exact repeatStep_nil hungry turns later
    · rw [Reader.repeatStep, stepped rest nonempty cut]
      rfl

/-- The last turn needs what its step needs. -/
theorem NeedsAll.repeatStep_last {state : σ} {text : List Char} (needs : NeedsAll (step state) text)
    (budget : Nat) : NeedsAll (Reader.repeatStep step budget state) text := by
  cases budget with
  | zero => exact fun _ _ _ => rfl
  | succ turns => exact needs.bind _

theorem NeedsAll.iterate {state : σ} {text : List Char}
    (needs : ∀ budget, NeedsAll (Reader.repeatStep step budget state) text) :
    NeedsAll (Reader.iterate step state) text :=
  fun part cut proper => needs _ part cut proper

end Needing

/-! ### Words and strings -/

theorem needsAll_takeWord (word : List Char) : NeedsAll (takeWord word) word := by
  induction word with
  | nil => exact .nil _
  | cons first rest inductionHypothesis =>
    refine .cons rfl (fun chars => ?_) inductionHypothesis
    rw [takeWord, beq_self_eq_true, if_pos rfl]

/-- A hexadecimal digit is a single byte. -/
theorem utf8Size_of_hexValue? {char : Char} {value : Nat} (isHex : hexValue? char = some value) :
    char.utf8Size = 1 := by
  have small : char.toNat ≤ 127 := by
    rw [hexValue?] at isHex
    split at isHex
    · rename_i digit
      simp only [Char.isDigit, Bool.and_eq_true, decide_eq_true_eq] at digit
      exact digit.2.trans (by decide)
    · split at isHex
      · rename_i lower
        simp only [Bool.and_eq_true, decide_eq_true_eq] at lower
        exact (show char.toNat ≤ 'f'.toNat from lower.2).trans (by decide)
      · split at isHex
        · rename_i upper
          simp only [Bool.and_eq_true, decide_eq_true_eq] at upper
          exact (show char.toNat ≤ 'F'.toNat from upper.2).trans (by decide)
        · cases isHex
  rw [Char.utf8Size]
  exact if_pos small

theorem IsHex.needsAll {digits : List Char} {value : Nat} (isHex : IsHex digits value) :
    NeedsAll takeHex digits := by
  obtain @⟨first, second, third, fourth, a, b, c, d, one, two, three, four⟩ := isHex
  have sizes := And.intro (utf8Size_of_hexValue? one) (And.intro (utf8Size_of_hexValue? two)
    (utf8Size_of_hexValue? three))
  have few : ∀ part : List Char,
      (part.take 4).foldr (fun char bytes => char.utf8Size + bytes) 0 < 4 →
        takeHex part = .error .truncated := by
    intro part short
    rw [takeHex.eq_def]
    exact if_pos short
  intro part cut proper
  refine few part ?_
  rcases part with _ | ⟨x, _ | ⟨y, _ | ⟨z, _ | ⟨w, rest⟩⟩⟩⟩
  · decide
  all_goals simp only [List.cons_prefix_cons] at cut
  · obtain ⟨rfl, _⟩ := cut
    simp [sizes.1]
  · obtain ⟨rfl, rfl, _⟩ := cut
    simp [sizes.1, sizes.2.1]
  · obtain ⟨rfl, rfl, rfl, _⟩ := cut
    simp [sizes.1, sizes.2.1, sizes.2.2]
  · obtain ⟨rfl, rfl, rfl, rfl, inside⟩ := cut
    rw [List.prefix_nil.mp inside] at proper
    exact absurd rfl proper

theorem IsHex.ne_nil {digits : List Char} {value : Nat} (isHex : IsHex digits value) :
    digits ≠ [] := by
  cases isHex
  exact List.cons_ne_nil _ _

/-- Takes the second half of a character behind the first. -/
def takeLowerHalf (first : Nat) (chars : List Char) : Except Fault (Char × List Char) := do
  let rest ← takeWord ['\\', 'u'] chars
  let (second, rest) ← takeHex rest
  if 0xDC00 ≤ second && second ≤ 0xDFFF then
    pure (Char.ofNat (0x10000 + (first - 0xD800) * 0x400 + (second - 0xDC00)), rest)
  else .error .malformed

theorem IsHex.needsAll_takeLowerHalf {digits : List Char} {value : Nat}
    (isHex : IsHex digits value) (first : Nat) :
    NeedsAll (takeLowerHalf first) ('\\' :: 'u' :: digits) :=
  .andThen ((needsAll_takeWord ['\\', 'u']).bind _) (fun _ _ => rfl) (isHex.needsAll.bind _)
    isHex.ne_nil

/-- A piece of a string is needed to its end. -/
theorem IsPiece.needsAll {piece : List Char} {char : Char} (isPiece : IsPiece piece char)
    (latest : List Char) : NeedsAll (stringStep latest) piece := by
  have escaped {text : List Char} (needs : NeedsAll takeEscape text) :
      NeedsAll (stringStep latest) ('\\' :: text) :=
    .cons rfl (fun _ => rfl) (needs.bind _)
  cases isPiece with
  | plain => exact .singleton rfl char
  | @escape letter => exact escaped (.singleton rfl letter)
  | unit isHex => exact escaped (.cons rfl (fun _ => rfl) (isHex.needsAll.bind _))
  | @halves upper lower first second upperHex lowerHex fromUpper toUpper =>
    have noLower : ¬ (0xDC00 ≤ first ∧ first ≤ 0xDFFF) := by omega
    refine escaped (.cons rfl (fun _ => rfl) ?_)
    refine .andThen (upperHex.needsAll.bind _) (fun rest _ => ?_)
      (lowerHex.needsAll_takeLowerHalf first) (List.cons_ne_nil _ _)
    show takeCodePoint (upper ++ rest) = _
    rw [takeCodePoint, upperHex.takeHex_append]
    show (if _ then _ else if _ then _ else _) = _
    rw [if_neg (by simpa using noLower), if_pos (by simp [fromUpper, toUpper])]
    rfl

/-- The text of a string is needed up to the quote that ends it. -/
theorem Spells.needsAll {text chars : List Char} (spells : Spells text chars) (latest : List Char)
    (budget : Nat) : NeedsAll (Reader.repeatStep stringStep budget latest) (text ++ ['"']) := by
  induction spells generalizing latest budget with
  | nil => exact (NeedsAll.singleton rfl '"').repeatStep_last budget
  | @cons piece text chars char isPiece _ inductionHypothesis =>
    rw [List.append_assoc]
    refine .repeatStep (fun _ => rfl) (fun part cut => ?_)
      (fun rest _ _ => isPiece.stringStep_append latest rest)
      (inductionHypothesis (char :: latest)) budget
    by_cases whole : part = piece
    · have taken := isPiece.stringStep_append latest []
      rw [List.append_nil] at taken
      exact Or.inr ⟨char :: latest, whole ▸ taken⟩
    · exact Or.inl (isPiece.needsAll latest part cut whole)

theorem needsAll_stringBody (value : String) :
    NeedsAll stringBody (value.toList.flatMap escapedChar ++ ['"']) :=
  .iterate fun budget => (spells_escapedChars value.toList).needsAll [] budget

/-! ### Values -/

section Enduring

variable {β γ σ : Type}

theorem endsNumber_of_head {part text : List Char} (cut : part <+: text)
    (ends : endsNumber text = true) : endsNumber part = true := by
  cases part with
  | nil => rfl
  | cons first rest =>
    obtain ⟨later, rfl⟩ := cut
    exact ends

theorem blank_of_head {part blanks : List Char} (cut : part <+: blanks)
    (blank : blanks.all isBlank = true) : part.all isBlank = true :=
  List.all_eq_true.mpr fun char member => List.all_eq_true.mp blank char (cut.subset member)

/-- A reader takes the text of a JSON value off the head of a text, skips blanks before it, and
either finds a text that stops early truncated or is spent on it. -/
structure Endures (reader : Reader β) (json : Json) : Prop where
  recalls : ∃ value, Recalls reader json [] value
  skips : ∀ {blanks : List Char}, blanks.all isBlank = true → ∀ chars,
    reader (blanks ++ chars) = reader chars
  spent : ∀ spacing level part, part <+: json.chars spacing level → IsSpent (reader part)

namespace Endures

variable {reader : Reader β} {json : Json}

theorem of_needsAll (recalls : ∃ value, Recalls reader json [] value)
    (skips : ∀ {blanks : List Char}, blanks.all isBlank = true → ∀ chars,
      reader (blanks ++ chars) = reader chars)
    (needs : ∀ spacing level, NeedsAll reader (json.chars spacing level)) :
    Endures reader json where
  recalls := recalls
  skips := skips
  spent spacing level part cut := by
    by_cases whole : part = json.chars spacing level
    · obtain ⟨value, recalled⟩ := recalls
      have taken := recalled spacing level [] [] rfl rfl
      rw [List.append_nil] at taken
      exact Or.inr ⟨value, whole ▸ taken⟩
    · exact Or.inl (needs spacing level part cut whole)

theorem map (endures : Endures reader json) (change : β → γ) :
    Endures (reader.map change) json where
  recalls := by
    obtain ⟨value, recalled⟩ := endures.recalls
    exact ⟨change value, recalled.map change⟩
  skips blank chars := by rw [Reader.map, endures.skips blank, Reader.map]
  spent spacing level part cut := (endures.spent spacing level part cut).map change

theorem spent_gap (endures : Endures reader json) {gap : List Char}
    (blank : gap.all isBlank = true) {spacing : Spacing} {level : Nat} {part : List Char}
    (cut : part <+: gap ++ json.chars spacing level) : IsSpent (reader part) := by
  rcases prefix_append_cases cut with inside | ⟨rest, _, beyond, rfl⟩
  · have none := endures.skips (blank_of_head inside blank) []
    rw [List.append_nil] at none
    rw [none]
    exact endures.spent spacing level [] List.nil_prefix
  · rw [endures.skips blank]
    exact endures.spent spacing level rest beyond

/-- A value and what has to follow it are needed one after the other. -/
theorem needsAll_bind (endures : Endures reader json) {next : β × List Char → Except Fault γ}
    {gap back : List Char} (blank : gap.all isBlank = true) (ends : endsNumber back = true)
    (nonempty : back ≠ []) (needs : ∀ value, NeedsAll (fun rest => next (value, rest)) back)
    (spacing : Spacing) (level : Nat) :
    NeedsAll (fun chars => reader chars >>= next) (gap ++ (json.chars spacing level ++ back)) := by
  obtain ⟨value, recalled⟩ := endures.recalls
  rw [← List.append_assoc]
  refine .append (fun part cut => ?_) (fun rest _ cut => ?_) (needs value)
  · exact (endures.spent_gap blank cut).bind fun value =>
      needs value [] List.nil_prefix nonempty.symm
  · have taken := recalled spacing level gap rest blank (endsNumber_of_head cut ends)
    show (reader (gap ++ json.chars spacing level ++ rest) >>= next) = next (value, rest)
    rw [List.append_assoc, taken]
    rfl

end Endures

/-! ### Single values -/

theorem endures_index {value : Nat} (small : value < naturalLimit) :
    Endures Reader.index (.natural value) where
  recalls := ⟨value, recalls_index small⟩
  skips blank chars := by
    simp only [Reader.index, Reader.natural, Reader.number, skipBlanks_append blank]
  spent spacing level part cut := by
    rcases toDigits_part cut with rfl | ⟨shown, rfl, bound⟩
    · exact Or.inl rfl
    · have fits : shown < naturalLimit := by omega
      have taken := recalls_index fits spacing level [] [] rfl rfl
      rw [List.append_nil] at taken
      exact Or.inr ⟨shown, taken⟩

theorem endures_real {value : Float} (finite : value.isFinite = true) :
    Endures Reader.real (.real value) := by
  have printable := Decimal.isSome_stored? value
  rw [finite] at printable
  obtain ⟨text, printed⟩ := Option.isSome_iff_exists.mp printable
  obtain ⟨first, rest, number, written, starts, taken⟩ := exists_takeNumber_stored printed
  have shown : ∀ spacing level, (Json.real value).chars spacing level = text.toList := by
    intro spacing level
    rw [chars, realChars, printed]
  refine ⟨⟨number.toDouble, fun spacing level blanks tail blank ends => ?_⟩,
    fun blank chars => ?_, fun spacing level part cut => ?_⟩
  · have inPlace := takesHead_takeNumber.append taken ends
    rw [List.cons_append, List.nil_append] at inPlace
    rw [shown, written, List.cons_append, Reader.real, Reader.map,
      number_of_startsNumber blank starts, inPlace]
    rfl
  · simp only [Reader.real, Reader.map, Reader.number, skipBlanks_append blank]
  · rw [shown] at cut
    cases part with
    | nil => exact Or.inl rfl
    | cons char others =>
      have same : char = first := by
        rw [written] at cut
        exact (List.cons_prefix_cons.mp cut).1
      have number := number_of_startsNumber (show [].all isBlank = true from rfl)
        (same ▸ starts) others
      rw [List.nil_append] at number
      rw [Reader.real, Reader.map, number]
      exact (takeNumber_stored printed cut).map Number.toDouble

theorem endures_none {reader : Reader β} (hungry : reader [] = .error .truncated) :
    Endures reader.optional .null := by
  refine .of_needsAll ⟨none, recalls_none reader⟩ (fun blank chars => ?_) fun _ _ => ?_
  · simp only [Reader.optional, skipBlanks_append blank]
  · have none : reader.optional [] = .error .truncated := by
      show (reader [] >>= _) = _
      rw [hungry]
      rfl
    exact .cons none (fun _ => rfl) ((needsAll_takeWord ['u', 'l', 'l']).bind _)

theorem endures_some_string (value : String) :
    Endures Reader.string.optional (.string value) := by
  refine .of_needsAll ⟨some value, recalls_some_string value⟩ (fun blank chars => ?_) fun _ _ => ?_
  · simp only [Reader.optional, skipBlanks_append blank]
  · exact .cons rfl (fun _ => rfl) ((needsAll_stringBody value).bind _)

theorem endures_name {find : String → Option (Variant β)} {name : String} {result : β}
    (known : find name = some (.name result)) : Endures (Reader.variant find) (.string name) := by
  refine .of_needsAll ⟨result, recalls_name known⟩ (fun blank chars => ?_) fun _ _ => ?_
  · simp only [Reader.variant, skipBlanks_append blank]
  · exact .cons rfl (fun _ => rfl) ((needsAll_stringBody name).bind _)

end Enduring

end BlockCone.Json
