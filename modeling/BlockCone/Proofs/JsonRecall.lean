/-
This file proves which readers recall what was printed.

A reader recalls a value from a JSON value if it takes the printed text off the head of any text
and gets the value back, however the text is spaced and whatever follows that does not go on with a
number. Doubles make an exception. One that is not finite is printed as `null`, and wherever that
stands the reader reports a mismatch, so what is recalled depends on some doubles being finite:
`Recalls` carries the list of them, and `whenFinite` says what the list decides.

Readers are put together as JSON values are, and so are the proofs. Single values come first, then
arrays, records and alternatives. A record is read member by member; `Fills` follows a text of
members in any order, and `InOrder` is the case of a text that has all of them in theirs. The lists
of doubles of the parts are appended, because the first mismatch decides and any other would have
decided the same.
-/

import BlockCone.Proofs.JsonNumbers
import BlockCone.Proofs.JsonStrings

namespace BlockCone.Json

section Recalling

variable {β γ σ ι : Type}

/-! ### Finite doubles -/

/-- A result that depends on doubles being finite, and is a mismatch otherwise. -/
def whenFinite (doubles : List Float) (result : β) : Except Fault β :=
  if doubles.all Float.isFinite then .ok result else .error .mismatched

/-- A step that depends on doubles, after one that depends on others, depends on all of them. -/
theorem whenFinite_bind {doubles later : List Float} {value : β} {result : γ}
    {next : β → Except Fault γ} (continues : next value = whenFinite later result) :
    (whenFinite doubles value >>= next) = whenFinite (doubles ++ later) result := by
  rw [whenFinite, whenFinite, List.all_append]
  cases doubles.all Float.isFinite with
  | false => rfl
  | true => exact continues

/-- A step that depends on no doubles adds nothing to what the result depends on. -/
theorem whenFinite_bind_ok {doubles : List Float} {value : β} {result : γ}
    {next : β → Except Fault γ} (continues : next value = .ok result) :
    (whenFinite doubles value >>= next) = whenFinite doubles result := by
  rw [← List.append_nil doubles]
  conv_lhs => rw [List.append_nil]
  exact whenFinite_bind continues

/-- A reader takes the text of a JSON value off the head of a text and returns a value, if some
doubles are finite. -/
def Recalls (reader : Reader β) (json : Json) (doubles : List Float) (value : β) : Prop :=
  ∀ (spacing : Spacing) (level : Nat) (blanks tail : List Char), blanks.all isBlank = true →
    endsNumber tail = true →
    reader (blanks ++ (json.chars spacing level ++ tail)) = whenFinite doubles (value, tail)

theorem Recalls.map {reader : Reader β} {json : Json} {doubles : List Float} {value : β}
    (recalls : Recalls reader json doubles value) (change : β → γ) :
    Recalls (reader.map change) json doubles (change value) := by
  intro spacing level blanks tail blank ends
  rw [Reader.map, recalls spacing level blanks tail blank ends]
  exact whenFinite_bind_ok rfl

/-- A whole text is read as the value that is recalled from it. -/
theorem Recalls.run_print {reader : Reader β} {json : Json} {doubles : List Float} {value : β}
    (recalls : Recalls reader json doubles value) (spacing : Spacing) :
    reader.run (json.print spacing) =
      if doubles.all Float.isFinite then .ok value else .error (.unreadable .mismatched) := by
  have read := recalls spacing 0 [] [] rfl rfl
  rw [List.nil_append, List.append_nil] at read
  rw [Reader.run, Json.print, String.toList_ofList, read, whenFinite]
  cases doubles.all Float.isFinite <;> rfl

/-! ### Single values -/

theorem recalls_bool (value : Bool) : Recalls Reader.bool (.bool value) [] value := by
  intro spacing level blanks tail blank _
  cases value with
  | false =>
    show Reader.bool (blanks ++ 'f' :: 'a' :: 'l' :: 's' :: 'e' :: tail) = .ok (false, tail)
    rw [Reader.bool, skipBlanks_blanks blank (by decide)]
    rfl
  | true =>
    show Reader.bool (blanks ++ 't' :: 'r' :: 'u' :: 'e' :: tail) = .ok (true, tail)
    rw [Reader.bool, skipBlanks_blanks blank (by decide)]
    rfl

theorem recalls_natural {value limit : Nat} (small : value < limit)
    (printable : value < naturalLimit) :
    Recalls (Reader.natural limit) (.natural value) [] value := by
  intro spacing level blanks tail blank ends
  rw [chars, Reader.natural, number_toDigits printable blank ends]
  exact if_pos small

theorem recalls_index {value : Nat} (small : value < naturalLimit) :
    Recalls Reader.index (.natural value) [] value :=
  recalls_natural small small

theorem recalls_real {value : Float} (reads : Decimal.ReadsBack value) :
    Recalls Reader.real (.real value) [value] value := by
  intro spacing level blanks tail blank ends
  have printable := Decimal.isSome_stored? value
  rw [chars, realChars, whenFinite, List.all_cons, List.all_nil, Bool.and_true]
  cases printed : Decimal.stored? value with
  | some text =>
    rw [printed, Option.isSome_some] at printable
    rw [← printable]
    exact real_stored printed reads blank ends
  | none =>
    rw [printed, Option.isSome_none] at printable
    rw [← printable]
    show Reader.real (blanks ++ 'n' :: 'u' :: 'l' :: 'l' :: tail) = _
    rw [Reader.real, Reader.map, number_null blank]
    rfl

theorem recalls_none (reader : Reader β) : Recalls reader.optional .null [] none := by
  intro spacing level blanks tail blank _
  show reader.optional (blanks ++ 'n' :: 'u' :: 'l' :: 'l' :: tail) = .ok (none, tail)
  rw [Reader.optional, skipBlanks_blanks blank (by decide)]
  rfl

theorem recalls_some_string (value : String) :
    Recalls Reader.string.optional (.string value) [] (some value) := by
  intro spacing level blanks tail blank _
  rw [chars, stringChars, List.cons_append, List.cons_append, List.append_assoc, Reader.optional,
    skipBlanks_blanks blank (by decide)]
  show Reader.string.map some ('"' :: (value.toList.flatMap escapedChar ++ '"' :: tail)) = _
  have body : Reader.string ('"' :: (value.toList.flatMap escapedChar ++ '"' :: tail)) =
      .ok (value, tail) := stringBody_chars value tail
  rw [Reader.map, body]
  rfl

/-! ### Where parts of a text meet -/

theorem lineBreak_blank (spacing : Spacing) (level : Nat) :
    (spacing.lineBreak level).all isBlank = true := by
  cases spacing with
  | compact => rfl
  | indented =>
    rw [Spacing.lineBreak, List.all_cons, List.all_eq_true.mpr fun char member => ?_]
    · rfl
    · rw [(List.mem_replicate.mp member).2]
      rfl

theorem exists_colon_eq (spacing : Spacing) :
    ∃ gap, spacing.colon = ':' :: gap ∧ gap.all isBlank = true := by
  cases spacing with
  | compact => exact ⟨[], rfl, rfl⟩
  | indented => exact ⟨[' '], rfl, rfl⟩

theorem endsNumber_lineBreak (spacing : Spacing) (level : Nat) {tail : List Char}
    (ends : endsNumber tail = true) : endsNumber (spacing.lineBreak level ++ tail) = true := by
  cases spacing with
  | compact => exact ends
  | indented => rfl

/-- A printed value starts with a character that is neither blank nor a closing bracket. -/
theorem exists_chars_eq_cons (spacing : Spacing) (level : Nat) (json : Json) :
    ∃ first rest, json.chars spacing level = first :: rest ∧ isBlank first = false ∧
      first ≠ ']' := by
  cases json with
  | null => exact ⟨_, _, rfl, rfl, by decide⟩
  | bool value => cases value <;> exact ⟨_, _, rfl, rfl, by decide⟩
  | natural value =>
    obtain ⟨first, rest, written, digit⟩ := exists_toDigits_eq_cons value
    have starts := startsNumber_of_isDigit digit
    refine ⟨first, rest, written, isBlank_eq_false_of_startsNumber starts, ?_⟩
    rintro rfl
    exact absurd digit (by decide)
  | real value =>
    rw [chars, realChars]
    cases printed : Decimal.stored? value with
    | none => exact ⟨_, _, rfl, rfl, by decide⟩
    | some text =>
      cases written : text.toList with
      | nil => exact absurd written (Decimal.stored?_ne_nil printed)
      | cons first rest =>
        have numeral := Decimal.isNumeral_of_mem_stored? printed (written ▸ List.mem_cons_self)
        refine ⟨first, rest, written, isBlank_eq_false_of_isNumeral numeral, ?_⟩
        rintro rfl
        exact absurd numeral (by decide)
  | string value => exact ⟨_, _, rfl, rfl, by decide⟩
  | array items => cases items <;> exact ⟨_, _, rfl, rfl, by decide⟩
  | object members => cases members <;> exact ⟨_, _, rfl, rfl, by decide⟩

/-! ### Arrays -/

theorem nextItem_first_cons (spacing : Spacing) (level : Nat) {first : Char}
    (visible : isBlank first = false) (inside : first ≠ ']') (rest : List Char) :
    nextItem true (spacing.lineBreak level ++ first :: rest) = .ok (true, first :: rest) := by
  rw [nextItem, skipBlanks_blanks (lineBreak_blank spacing level) visible]
  split
  · contradiction
  · rename_i equal
    exact absurd (List.cons.inj equal).1 inside
  · rename_i equal
    rw [← equal]
    rfl

theorem nextItem_first (spacing : Spacing) (level : Nat) (json : Json) (tail : List Char) :
    nextItem true (spacing.lineBreak level ++ (json.chars spacing level ++ tail)) =
      .ok (true, json.chars spacing level ++ tail) := by
  obtain ⟨first, rest, written, visible, inside⟩ := exists_chars_eq_cons spacing level json
  rw [written, List.cons_append, nextItem_first_cons spacing level visible inside]

/-- Goes to the item that has to follow a comma. -/
def itemBehindComma : Reader Bool := fun chars =>
  match skipBlanks chars with
  | [] => .error .truncated
  | ']' :: _ => .error .malformed
  | rest => .ok (true, rest)

theorem nextItem_comma (chars : List Char) :
    nextItem false (',' :: chars) = itemBehindComma chars := by
  rw [nextItem, skipBlanks_cons (by decide)]
  rfl

theorem nextItem_later_cons (spacing : Spacing) (level : Nat) {first : Char}
    (visible : isBlank first = false) (inside : first ≠ ']') (rest : List Char) :
    nextItem false (',' :: (spacing.lineBreak level ++ first :: rest)) =
      .ok (true, first :: rest) := by
  rw [nextItem_comma, itemBehindComma, skipBlanks_blanks (lineBreak_blank spacing level) visible]
  split
  · contradiction
  · rename_i equal
    exact absurd (List.cons.inj equal).1 inside
  · rfl

theorem nextItem_later (spacing : Spacing) (level : Nat) (json : Json) (tail : List Char) :
    nextItem false (',' :: (spacing.lineBreak level ++ (json.chars spacing level ++ tail))) =
      .ok (true, json.chars spacing level ++ tail) := by
  obtain ⟨first, rest, written, visible, inside⟩ := exists_chars_eq_cons spacing level json
  rw [written, List.cons_append, nextItem_later_cons spacing level visible inside]

theorem nextItem_end (first : Bool) (spacing : Spacing) (level : Nat) (tail : List Char) :
    nextItem first (spacing.lineBreak level ++ ']' :: tail) = .ok (false, ']' :: tail) := by
  rw [nextItem, skipBlanks_blanks (lineBreak_blank spacing level) (by decide)]
  rfl

/-- Repeating a step that asks to go on takes what the step takes and then what the others do. -/
theorem repeatStep_of_step {step : σ → Reader (σ ⊕ β)} {state next : σ} {chars tail : List Char}
    {doubles later : List Float} {result : β × List Char} {turns : Nat}
    (stepped : step state chars = whenFinite doubles (.inl next, tail))
    (continues : Reader.repeatStep step turns next tail = whenFinite later result) :
    Reader.repeatStep step (turns + 1) state chars = whenFinite (doubles ++ later) result := by
  rw [Reader.repeatStep, stepped]
  exact whenFinite_bind continues

theorem itemStep_of_nextItem {reader : Reader β} {json : Json} {doubles : List Float} {value : β}
    (recalls : Recalls reader json doubles value) {spacing : Spacing} {level : Nat}
    {latest : List β} {chars tail : List Char} (ends : endsNumber tail = true)
    (announced : nextItem latest.isEmpty chars = .ok (true, json.chars spacing level ++ tail)) :
    itemStep reader latest chars = whenFinite doubles (.inl (value :: latest), tail) := by
  have taken := recalls spacing level [] tail rfl ends
  rw [List.nil_append] at taken
  rw [itemStep, announced]
  show (reader (json.chars spacing level ++ tail) >>= _) = _
  rw [taken]
  exact whenFinite_bind_ok rfl

theorem itemStep_end (reader : Reader β) (latest : List β) (spacing : Spacing) (level : Nat)
    (tail : List Char) :
    itemStep reader latest (spacing.lineBreak level ++ ']' :: tail) =
      .ok (.inr latest.reverse, tail) := by
  rw [itemStep, nextItem_end]
  rfl

theorem endsNumber_itemChars (spacing : Spacing) (level outer : Nat) (items : List Json)
    (tail : List Char) :
    endsNumber (itemChars spacing level items ++ (spacing.lineBreak outer ++ ']' :: tail)) =
      true := by
  cases items with
  | nil => exact endsNumber_lineBreak spacing outer rfl
  | cons first rest => rfl

theorem length_le_length_itemChars (spacing : Spacing) (level : Nat) (items : List Json) :
    items.length ≤ (itemChars spacing level items).length := by
  induction items with
  | nil => exact Nat.zero_le _
  | cons first rest inductionHypothesis =>
    rw [itemChars, List.cons_append, List.cons_append, List.length_cons, List.length_cons,
      List.length_append]
    omega

/-- Behind an item all others are taken, up to the closing bracket. -/
theorem repeatStep_itemStep {reader : Reader β} {json : ι → Json} {doubles : ι → List Float}
    {value : ι → β} (items : List ι)
    (each : ∀ item ∈ items, Recalls reader (json item) (doubles item) (value item))
    (spacing : Spacing) (level outer : Nat) (last : β) (latest : List β) (tail : List Char)
    {budget : Nat} (enough : items.length < budget) :
    Reader.repeatStep (itemStep reader) budget (last :: latest)
        (itemChars spacing level (items.map json) ++ (spacing.lineBreak outer ++ ']' :: tail)) =
      whenFinite (items.flatMap doubles) ((last :: latest).reverse ++ items.map value, tail) := by
  induction items generalizing last latest budget with
  | nil =>
    obtain ⟨turns, rfl⟩ := Nat.exists_eq_add_one.mpr enough
    show _ = whenFinite [] ((last :: latest).reverse ++ [], tail)
    rw [List.append_nil, Reader.repeatStep]
    show (itemStep reader (last :: latest) (spacing.lineBreak outer ++ ']' :: tail) >>= _) = _
    rw [itemStep_end]
    rfl
  | cons first rest inductionHypothesis =>
    obtain ⟨turns, rfl⟩ := Nat.exists_eq_add_one.mpr (Nat.zero_lt_of_lt enough)
    have later := inductionHypothesis (fun item member => each item (List.mem_cons_of_mem _ member))
      (value first) (last :: latest) (Nat.lt_of_succ_lt_succ enough)
    rw [List.reverse_cons, List.append_assoc] at later
    simp only [List.map_cons, itemChars, List.cons_append, List.append_assoc, List.flatMap_cons]
    exact repeatStep_of_step (itemStep_of_nextItem (each first List.mem_cons_self)
      (endsNumber_itemChars spacing level outer (rest.map json) tail)
      (nextItem_later spacing level (json first) _)) later

/-- A list of values is recalled from the array of what they are recalled from. -/
theorem recalls_array_map {reader : Reader β} {json : ι → Json} {doubles : ι → List Float}
    {value : ι → β} (items : List ι)
    (each : ∀ item ∈ items, Recalls reader (json item) (doubles item) (value item)) :
    Recalls reader.array (.array (items.map json)) (items.flatMap doubles) (items.map value) := by
  intro spacing level blanks tail blank _
  cases items with
  | nil =>
    show reader.array (blanks ++ '[' :: ']' :: tail) = .ok ([], tail)
    rw [Reader.array, skipBlanks_blanks blank (by decide)]
    rfl
  | cons first rest =>
    have long := length_le_length_itemChars spacing (level + 1) (rest.map json)
    simp only [List.map_cons, chars, List.cons_append, List.append_assoc, List.nil_append]
    rw [Reader.array, skipBlanks_blanks blank (by decide)]
    refine repeatStep_of_step (itemStep_of_nextItem (each first List.mem_cons_self)
      (endsNumber_itemChars spacing (level + 1) level (rest.map json) tail)
      (nextItem_first spacing (level + 1) (json first) _)) ?_
    refine repeatStep_itemStep rest (fun item member => each item (List.mem_cons_of_mem _ member))
      spacing (level + 1) level (value first) [] tail ?_
    simp only [List.length_append, List.length_cons, List.length_map] at long ⊢
    omega

/-- A list is recalled from the array of its items. -/
theorem recalls_array {reader : Reader β} {json : β → Json} {doubles : β → List Float}
    (items : List β) (each : ∀ item ∈ items, Recalls reader (json item) (doubles item) item) :
    Recalls reader.array (.array (items.map json)) (items.flatMap doubles) items := by
  have all : Recalls reader.array (.array (items.map json)) (items.flatMap doubles)
      (items.map id) := recalls_array_map items each
  rwa [List.map_id] at all

/-- Items without doubles make a list without doubles. -/
theorem recalls_array_plain {reader : Reader β} {json : β → Json} (items : List β)
    (each : ∀ item ∈ items, Recalls reader (json item) [] item) :
    Recalls reader.array (.array (items.map json)) [] items := by
  have all := recalls_array items each
  rwa [List.flatMap_eq_nil_iff.mpr fun _ _ => rfl] at all

/-- A pair is recalled from the array of its two parts. -/
theorem recalls_pair {left : Reader β} {right : Reader γ} {leftJson rightJson : Json}
    {leftDoubles rightDoubles : List Float} {first : β} {second : γ}
    (leftRecalls : Recalls left leftJson leftDoubles first)
    (rightRecalls : Recalls right rightJson rightDoubles second) :
    Recalls (left.pair right) (.array [leftJson, rightJson]) (leftDoubles ++ rightDoubles)
      (first, second) := by
  intro spacing level blanks tail blank _
  have closing := endsNumber_itemChars spacing (level + 1) level [] tail
  have between := endsNumber_itemChars spacing (level + 1) level [rightJson] tail
  have leftTaken := leftRecalls spacing (level + 1) [] _ rfl between
  have rightTaken := rightRecalls spacing (level + 1) [] _ rfl closing
  simp only [chars, itemChars, List.cons_append, List.append_assoc, List.nil_append] at *
  rw [Reader.pair, skipBlanks_blanks blank (by decide)]
  show (nextItem true _ >>= _) = _
  rw [nextItem_first]
  show (left _ >>= _) = _
  rw [leftTaken]
  refine whenFinite_bind ?_
  show (nextItem false _ >>= _) = _
  rw [nextItem_later]
  show (right _ >>= _) = _
  rw [rightTaken]
  refine whenFinite_bind_ok ?_
  show (closeArray _ >>= _) = _
  rw [closeArray, skipBlanks_blanks (lineBreak_blank spacing level) (by decide)]
  rfl

end Recalling

end BlockCone.Json
