/-
This file proves that records and alternatives are recalled.

A record is printed as an object. Its reader takes one member after another, looks up the field of
its key, and keeps what has been read so far together with the keys that were seen. `Fills` follows
the reader through a list of members: every key belongs to a field and is new, and every value is
recalled by the reader of its field. If the keys that were seen in the end are all that are asked
for, the record is recalled from the object of these members, in whatever order they come. A record
that is printed with all of its fields in their order, under keys that differ, is one case of this.

An alternative is a name alone, or an object whose only key is the name.
-/

import BlockCone.Proofs.JsonRecall

namespace BlockCone.Json

variable {β σ : Type}

/-! ### Keys -/

theorem nextKey_first {gap : List Char} (blank : gap.all isBlank = true) (rest : List Char) :
    nextKey true (gap ++ '"' :: rest) = .ok (true, rest) := by
  rw [nextKey, skipBlanks_blanks blank (by decide)]
  rfl

/-- Goes to the key that has to follow a comma. -/
def keyBehindComma : Reader Bool := fun chars =>
  match skipBlanks chars with
  | [] => .error .truncated
  | '"' :: rest => .ok (true, rest)
  | _ :: _ => .error .malformed

theorem nextKey_comma {gap : List Char} (blank : gap.all isBlank = true) (chars : List Char) :
    nextKey false (gap ++ ',' :: chars) = keyBehindComma chars := by
  rw [nextKey, skipBlanks_blanks blank (by decide)]
  rfl

theorem nextKey_later {after before : List Char} (blankAfter : after.all isBlank = true)
    (blankBefore : before.all isBlank = true) (rest : List Char) :
    nextKey false (after ++ ',' :: (before ++ '"' :: rest)) = .ok (true, rest) := by
  rw [nextKey_comma blankAfter, keyBehindComma, skipBlanks_blanks blankBefore (by decide)]
  rfl

theorem nextKey_end (first : Bool) {gap : List Char} (blank : gap.all isBlank = true)
    (tail : List Char) :
    nextKey first (gap ++ '\x7d' :: tail) = .ok (false, '\x7d' :: tail) := by
  rw [nextKey, skipBlanks_blanks blank (by decide)]
  rfl

theorem takeColon_append {gap : List Char} (blank : gap.all isBlank = true) (rest : List Char) :
    takeColon (gap ++ ':' :: rest) = .ok rest := by
  rw [takeColon, skipBlanks_blanks blank (by decide)]
  rfl

/-- Taking the colon leaves at most blanks before the value. -/
theorem exists_takeColon_eq (spacing : Spacing) (rest : List Char) :
    ∃ gap, takeColon (spacing.colon ++ rest) = .ok (gap ++ rest) ∧ gap.all isBlank = true := by
  obtain ⟨gap, written, blank⟩ := exists_colon_eq spacing
  refine ⟨gap, ?_, blank⟩
  rw [written]
  exact takeColon_append (show ([] : List Char).all isBlank = true from rfl) _

/-- The text of a member behind the opening quote of its key. -/
def memberTail (spacing : Spacing) (level : Nat) (key : String) (json : Json)
    (tail : List Char) : List Char :=
  key.toList.flatMap escapedChar ++ '"' :: (spacing.colon ++ (json.chars spacing level ++ tail))

theorem memberChars_cons (spacing : Spacing) (level : Nat) (key : String) (json : Json)
    (members : List (String × Json)) (tail : List Char) :
    memberChars spacing level ((key, json) :: members) ++ tail =
      ',' :: (spacing.lineBreak level ++
        '"' :: memberTail spacing level key json (memberChars spacing level members ++ tail)) := by
  simp only [memberChars, stringChars, memberTail, List.cons_append, List.append_assoc,
    List.nil_append]

theorem chars_object_cons (spacing : Spacing) (level : Nat) (key : String) (json : Json)
    (members : List (String × Json)) (tail : List Char) :
    chars spacing level (.object ((key, json) :: members)) ++ tail =
      '\x7b' :: (spacing.lineBreak (level + 1) ++
        '"' :: memberTail spacing (level + 1) key json
          (memberChars spacing (level + 1) members ++
            (spacing.lineBreak level ++ '\x7d' :: tail))) := by
  simp only [chars, stringChars, memberTail, List.cons_append, List.append_assoc, List.nil_append]

theorem endsNumber_memberChars (spacing : Spacing) (level outer : Nat)
    (members : List (String × Json)) (tail : List Char) :
    endsNumber (memberChars spacing level members ++ (spacing.lineBreak outer ++ '\x7d' :: tail)) =
      true := by
  cases members with
  | nil => exact endsNumber_lineBreak spacing outer rfl
  | cons first rest => rfl

theorem length_le_length_memberChars (spacing : Spacing) (level : Nat)
    (members : List (String × Json)) :
    members.length ≤ (memberChars spacing level members).length := by
  induction members with
  | nil => exact Nat.zero_le _
  | cons first rest inductionHypothesis =>
    obtain ⟨key, json⟩ := first
    have text := congrArg List.length (memberChars_cons spacing level key json rest [])
    simp only [memberTail, List.append_nil, List.length_cons, List.length_append] at text ⊢
    omega

/-! ### Members -/

/-- A record takes in the values of members one by one. Before there are some keys seen and a
record, and so there are behind. -/
inductive Layout.Fills (layout : Layout σ) :
    List String → σ → List (String × Json) → List Float → List String → σ → Prop where
  | done (seen : List String) (record : σ) : layout.Fills seen record [] [] seen record
  | member {seen seenLast : List String} {record next last : σ} {key : String} {json : Json}
      {field : Field σ} {members : List (String × Json)} {doubles later : List Float}
      (found : (layout.fields.find? fun field => field.key == key) = some field)
      (fresh : key ∉ seen) (recalls : Recalls (field.read record) json doubles next)
      (others : layout.Fills (key :: seen) next members later seenLast last) :
      layout.Fills seen record ((key, json) :: members) (doubles ++ later) seenLast last

/-- Every field that an object has to have was seen. -/
def Layout.isComplete (layout : Layout σ) (seen : List String) : Bool :=
  layout.fields.all fun field => !field.required || seen.contains field.key

namespace Layout

variable {layout : Layout σ}

theorem memberStep_of_nextKey {state : Partial σ} {key : String} {json : Json} {field : Field σ}
    {doubles : List Float} {next : σ} {spacing : Spacing} {level : Nat} {chars tail : List Char}
    (announced : nextKey state.first chars = .ok (true, memberTail spacing level key json tail))
    (found : (layout.fields.find? fun field => field.key == key) = some field)
    (fresh : key ∉ state.seen) (recalls : Recalls (field.read state.record) json doubles next)
    (ends : endsNumber tail = true) :
    layout.memberStep state chars =
      whenFinite doubles (.inl ⟨false, key :: state.seen, next⟩, tail) := by
  have unseen : state.seen.contains key = false := by simpa using fresh
  obtain ⟨gap, colon, blank⟩ := exists_takeColon_eq spacing (json.chars spacing level ++ tail)
  have step : layout.memberStep state chars =
      (field.read state.record (gap ++ (json.chars spacing level ++ tail)) >>= fun read =>
        pure (.inl ⟨false, key :: state.seen, read.1⟩, read.2)) := by
    rw [memberStep, announced]
    show (stringBody (memberTail spacing level key json tail) >>= _) = _
    rw [memberTail, stringBody_chars]
    simp only [bind, Except.bind, found, unseen, colon]
    rfl
  rw [step, recalls spacing level gap tail blank ends]
  exact whenFinite_bind_ok rfl

theorem memberStep_end {seen : List String} (complete : layout.isComplete seen = true)
    (first : Bool) (record : σ) {gap : List Char} (blank : gap.all isBlank = true)
    (tail : List Char) :
    layout.memberStep ⟨first, seen, record⟩ (gap ++ '\x7d' :: tail) = .ok (.inr record, tail) := by
  rw [isComplete] at complete
  rw [memberStep, nextKey_end first blank]
  show (if layout.fields.all fun field => !field.required || seen.contains field.key then _
    else _) = _
  rw [if_pos complete]
  rfl

/-- Behind a member all others are taken, up to the closing brace. -/
theorem Fills.repeatStep {seen seenLast : List String} {record last : σ}
    {members : List (String × Json)} {doubles : List Float}
    (fills : layout.Fills seen record members doubles seenLast last)
    (complete : layout.isComplete seenLast = true) (spacing : Spacing) (level outer : Nat)
    (tail : List Char) {budget : Nat} (enough : members.length < budget) :
    Reader.repeatStep layout.memberStep budget ⟨false, seen, record⟩
        (memberChars spacing level members ++ (spacing.lineBreak outer ++ '\x7d' :: tail)) =
      whenFinite doubles (last, tail) := by
  induction fills generalizing budget with
  | done seen record =>
    obtain ⟨turns, rfl⟩ := Nat.exists_eq_add_one.mpr enough
    rw [Reader.repeatStep]
    show (layout.memberStep ⟨false, seen, record⟩ (spacing.lineBreak outer ++ '\x7d' :: tail) >>=
      _) = _
    rw [memberStep_end complete _ _ (lineBreak_blank spacing outer)]
    rfl
  | member found fresh recalls others inductionHypothesis =>
    obtain ⟨turns, rfl⟩ := Nat.exists_eq_add_one.mpr (Nat.zero_lt_of_lt enough)
    rw [memberChars_cons]
    exact repeatStep_of_step
      (memberStep_of_nextKey (nextKey_later (show ([] : List Char).all isBlank = true from rfl)
        (lineBreak_blank spacing level) _) found fresh recalls
        (endsNumber_memberChars spacing level outer _ tail))
      (inductionHypothesis complete (Nat.lt_of_succ_lt_succ enough))

/-- A record is recalled from the object of members that fill it. -/
theorem Fills.recalls {seen : List String} {record : σ} {members : List (String × Json)}
    {doubles : List Float} (fills : layout.Fills [] layout.blank members doubles seen record)
    (complete : layout.isComplete seen = true) :
    Recalls layout.reader (.object members) doubles record := by
  intro spacing level blanks tail blank _
  cases fills with
  | done =>
    show layout.reader (blanks ++ '\x7b' :: '\x7d' :: tail) = .ok (layout.blank, tail)
    rw [reader, skipBlanks_blanks blank (by decide)]
    show (layout.memberStep ⟨true, [], layout.blank⟩ ([] ++ '\x7d' :: tail) >>= _) = _
    rw [memberStep_end complete true layout.blank rfl]
    rfl
  | @member _ _ _ next _ key json field members first later found fresh recalls others =>
    have long := length_le_length_memberChars spacing (level + 1) members
    rw [chars_object_cons, reader, skipBlanks_blanks blank (by decide)]
    refine repeatStep_of_step
      (memberStep_of_nextKey (nextKey_first (lineBreak_blank spacing (level + 1)) _) found fresh
        recalls
        (endsNumber_memberChars spacing (level + 1) level members tail))
      (others.repeatStep complete spacing (level + 1) level tail ?_)
    simp only [memberTail, List.length_append, List.length_cons]
    omega

end Layout

/-! ### Records with all fields in order -/

/-- A record takes in the values of its fields one by one, in their order. -/
inductive InOrder : List (Field σ) → σ → List (String × Json) → List Float → σ → Prop where
  | done (record : σ) : InOrder [] record [] [] record
  | field {field : Field σ} {fields : List (Field σ)} {record next last : σ} {json : Json}
      {members : List (String × Json)} {doubles later : List Float}
      (recalls : Recalls (field.read record) json doubles next)
      (others : InOrder fields next members later last) :
      InOrder (field :: fields) record ((field.key, json) :: members) (doubles ++ later) last

theorem InOrder.of {fields : List (Field σ)} {record last : σ} {key : String} {required : Bool}
    {reader : Reader β} {store : σ → β → σ} {value : β} {json : Json}
    {members : List (String × Json)} {doubles later : List Float}
    (recalls : Recalls reader json doubles value)
    (others : InOrder fields (store record value) members later last) :
    InOrder (.of key required reader store :: fields) record ((key, json) :: members)
      (doubles ++ later) last := by
  have whole : InOrder (Field.of key required reader store :: fields) record
      (((Field.of key required reader store).key, json) :: members) (doubles ++ later) last :=
    .field (recalls.map (store record)) others
  exact whole

/-- A field without doubles adds none. -/
theorem InOrder.plain {fields : List (Field σ)} {record last : σ} {key : String}
    {required : Bool} {reader : Reader β} {store : σ → β → σ} {value : β} {json : Json}
    {members : List (String × Json)} {later : List Float}
    (recalls : Recalls reader json [] value)
    (others : InOrder fields (store record value) members later last) :
    InOrder (.of key required reader store :: fields) record ((key, json) :: members) later last :=
  .of recalls others

/-- If the keys differ, a field is found under its key, and no field before it has the same. -/
theorem Layout.find?_of_split {layout : Layout σ} (distinct : (layout.fields.map Field.key).Nodup)
    {before after : List (Field σ)} {field : Field σ}
    (split : layout.fields = before ++ field :: after) :
    (layout.fields.find? fun other => other.key == field.key) = some field ∧
      field.key ∉ (before.map Field.key).reverse := by
  have fresh : field.key ∉ before.map Field.key := by
    rw [split, List.map_append, List.nodup_append] at distinct
    exact fun member => distinct.2.2 _ member _ List.mem_cons_self rfl
  have none : (before.find? fun other => other.key == field.key) = none :=
    List.find?_eq_none.mpr fun other member same =>
      fresh (List.mem_map.mpr ⟨other, member, beq_iff_eq.mp same⟩)
  refine ⟨?_, fun member => fresh (List.mem_reverse.mp member)⟩
  rw [split, List.find?_append, none, Option.none_or]
  exact List.find?_cons_of_pos (beq_self_eq_true field.key)

theorem InOrder.fills {layout : Layout σ} (distinct : (layout.fields.map Field.key).Nodup)
    {fields : List (Field σ)} {record last : σ} {members : List (String × Json)}
    {doubles : List Float} (inOrder : InOrder fields record members doubles last)
    (before : List (Field σ)) (split : layout.fields = before ++ fields) :
    layout.Fills (before.map Field.key).reverse record members doubles
      (layout.fields.map Field.key).reverse last := by
  induction inOrder generalizing before with
  | done record =>
    rw [split, List.append_nil]
    exact .done _ _
  | @field field fields record next last json members doubles later recalls others
      inductionHypothesis =>
    obtain ⟨found, fresh⟩ := Layout.find?_of_split distinct split
    have rest := inductionHypothesis (before ++ [field]) (by rw [split, List.append_assoc]; rfl)
    rw [List.map_append, List.reverse_append] at rest
    exact .member found fresh recalls rest

/-- A record is recalled from the object of all its fields, if their keys differ. -/
theorem InOrder.recalls {layout : Layout σ} (distinct : (layout.fields.map Field.key).Nodup)
    {record : σ} {members : List (String × Json)} {doubles : List Float}
    (inOrder : InOrder layout.fields layout.blank members doubles record) :
    Recalls layout.reader (.object members) doubles record := by
  refine (inOrder.fills distinct [] rfl).recalls (List.all_eq_true.mpr fun field member => ?_)
  rw [Bool.or_eq_true, List.contains_iff_mem, List.mem_reverse]
  exact Or.inr (List.mem_map_of_mem member)

/-! ### Alternatives -/

theorem recalls_name {find : String → Option (Variant β)} {name : String} {result : β}
    (known : find name = some (.name result)) :
    Recalls (Reader.variant find) (.string name) [] result := by
  intro spacing level blanks tail blank _
  rw [chars, stringChars, List.cons_append, List.cons_append, List.append_assoc, Reader.variant,
    skipBlanks_blanks blank (by decide)]
  show (stringBody (name.toList.flatMap escapedChar ++ '"' :: tail) >>= _) = _
  rw [stringBody_chars]
  simp only [bind, Except.bind, known]
  rfl

theorem recalls_holding {find : String → Option (Variant β)} {name : String}
    {reader : Reader β} {json : Json} {doubles : List Float} {value : β}
    (known : find name = some (.holding reader)) (recalls : Recalls reader json doubles value) :
    Recalls (Reader.variant find) (.object [(name, json)]) doubles value := by
  intro spacing level blanks tail blank _
  have ends := endsNumber_memberChars spacing (level + 1) level [] tail
  obtain ⟨gap, colon, gapBlank⟩ := exists_takeColon_eq spacing (json.chars spacing (level + 1) ++
    (memberChars spacing (level + 1) [] ++ (spacing.lineBreak level ++ '\x7d' :: tail)))
  rw [chars_object_cons, Reader.variant, skipBlanks_blanks blank (by decide)]
  show (Reader.key (spacing.lineBreak (level + 1) ++ '"' :: memberTail spacing (level + 1) name json
    _) >>= _) = _
  rw [Reader.key, skipBlanks_blanks (lineBreak_blank spacing (level + 1)) (by decide)]
  show (stringBody (memberTail spacing (level + 1) name json _) >>= _) = _
  rw [memberTail, stringBody_chars]
  simp only [bind, Except.bind, known, colon]
  show (reader _ >>= _) = _
  rw [recalls spacing (level + 1) gap _ gapBlank ends]
  refine whenFinite_bind_ok ?_
  show (closeObject (spacing.lineBreak level ++ '\x7d' :: tail) >>= _) = _
  rw [closeObject, skipBlanks_blanks (lineBreak_blank spacing level) (by decide)]
  rfl

end BlockCone.Json
