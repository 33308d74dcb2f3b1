/-
This file proves that readers of arrays, records and alternatives notice when a text stops early.

All of these texts are closed by a bracket, a brace or a quote at their very end, so they are needed
to the end, whatever the readers of their parts are spent on. What stands before an item or a key is
a line break, behind a comma or not, and as long as nothing visible follows, the reader asks for
more; `BringsItem` and `BringsKey` say this of both cases at once. From there an item is followed by
other items or the closing bracket, and a member by other members or the closing brace, and the
loops are proved by induction on what is still to be printed.

A record is printed with all its fields in their order. The keys that were seen are then known at
every point, and a key is never the second of its kind. So a text that stops early is not refused
for a field that is missing or repeated before its end is noticed.
-/

import Mathlib.Data.List.Forall2
import BlockCone.Proofs.CutTexts

namespace BlockCone.Json

variable {β γ σ : Type}

/-! ### Items -/

/-- What stands before an item is too little for anything, and behind it the item is announced. -/
structure BringsItem (first : Bool) (gap : List Char) : Prop where
  short : ∀ part, part <+: gap → nextItem first part = .error .truncated
  announces : ∀ {char : Char}, isBlank char = false → char ≠ ']' → ∀ rest,
    nextItem first (gap ++ char :: rest) = .ok (true, char :: rest)

theorem skipBlanks_of_blank {blanks : List Char} (blank : blanks.all isBlank = true) :
    skipBlanks blanks = [] := by
  have none := skipBlanks_append blank []
  rwa [List.append_nil] at none

theorem nextItem_of_blank (first : Bool) {blanks : List Char} (blank : blanks.all isBlank = true) :
    nextItem first blanks = .error .truncated := by
  rw [nextItem, skipBlanks_of_blank blank]

theorem bringsItem_first (spacing : Spacing) (level : Nat) :
    BringsItem true (spacing.lineBreak level) where
  short _ cut := nextItem_of_blank true (blank_of_head cut (lineBreak_blank spacing level))
  announces visible inside rest := nextItem_first_cons spacing level visible inside rest

theorem bringsItem_later (spacing : Spacing) (level : Nat) :
    BringsItem false (',' :: spacing.lineBreak level) where
  short part cut := by
    cases part with
    | nil => rfl
    | cons comma blanks =>
      obtain ⟨rfl, inside⟩ := List.cons_prefix_cons.mp cut
      rw [nextItem_comma, itemBehindComma,
        skipBlanks_of_blank (blank_of_head inside (lineBreak_blank spacing level))]
  announces visible inside rest := nextItem_later_cons spacing level visible inside rest

/-- An item is announced as soon as its first character is there. -/
theorem BringsItem.nextItem_append {first : Bool} {gap : List Char} (brings : BringsItem first gap)
    {spacing : Spacing} {level : Nat} {json : Json} {rest back : List Char} (nonempty : rest ≠ [])
    (cut : rest <+: json.chars spacing level ++ back) :
    nextItem first (gap ++ rest) = .ok (true, rest) := by
  obtain ⟨char, others, written, visible, inside⟩ := exists_chars_eq_cons spacing level json
  obtain ⟨begins, shown, rfl⟩ := List.exists_cons_of_ne_nil nonempty
  rw [written, List.cons_append] at cut
  obtain ⟨rfl, _⟩ := List.cons_prefix_cons.mp cut
  exact brings.announces visible inside shown

/-- A scanner that looks for an item and then for what follows needs all of both. -/
theorem BringsItem.needsAll {first : Bool} {gap : List Char} (brings : BringsItem first gap)
    {next : Bool × List Char → Except Fault γ} {spacing : Spacing} {level : Nat} {json : Json}
    {back : List Char}
    (needs : NeedsAll (fun rest => next (true, rest)) (json.chars spacing level ++ back)) :
    NeedsAll (fun chars => nextItem first chars >>= next)
      (gap ++ (json.chars spacing level ++ back)) := by
  refine .append (fun part cut => ?_) (fun rest nonempty cut => ?_) needs
  · show (nextItem first part >>= next) = _
    rw [brings.short part cut]
    rfl
  · show (nextItem first (gap ++ rest) >>= next) = next (true, rest)
    rw [brings.nextItem_append nonempty cut]
    rfl

theorem needsAll_closeArray (spacing : Spacing) (level : Nat) :
    NeedsAll closeArray (spacing.lineBreak level ++ [']']) := by
  refine .behind (fun part cut => ?_) (fun rest => ?_) (.nil Except.ok)
  · rw [closeArray, skipBlanks_of_blank (blank_of_head cut (lineBreak_blank spacing level))]
  · rw [closeArray, skipBlanks_blanks (lineBreak_blank spacing level) (by decide)]
    rfl

/-! ### Arrays -/

section Arrays

variable {reader : Reader β}

theorem itemStep_part {json : Json} (endures : Endures reader json) {latest : List β}
    {gap : List Char} (brings : BringsItem latest.isEmpty gap) {spacing : Spacing} {level : Nat}
    {part : List Char} (cut : part <+: gap ++ json.chars spacing level) :
    IsPending (itemStep reader latest part) := by
  rcases prefix_append_cases cut with inside | ⟨rest, nonempty, beyond, rfl⟩
  · rw [itemStep, brings.short part inside]
    exact Or.inl rfl
  · have announced : nextItem latest.isEmpty (gap ++ rest) = .ok (true, rest) :=
      brings.nextItem_append nonempty (beyond.trans (List.prefix_append _ []))
    rw [itemStep, announced]
    exact (endures.spent spacing level rest beyond).pending (· :: latest)

/-- An item and what follows it are needed one after the other. -/
theorem needsAll_item {json : Json} (endures : Endures reader json) {first : Bool}
    {gap : List Char} (brings : BringsItem first gap) {latest : List β}
    (isFirst : latest.isEmpty = first) (spacing : Spacing) (level : Nat) {back : List Char}
    (ends : endsNumber back = true)
    (others : ∀ item budget,
      NeedsAll (Reader.repeatStep (itemStep reader) budget (item :: latest)) back)
    (budget : Nat) :
    NeedsAll (Reader.repeatStep (itemStep reader) budget latest)
      (gap ++ (json.chars spacing level ++ back)) := by
  subst isFirst
  obtain ⟨value, recalled⟩ := endures.recalls
  rw [← List.append_assoc]
  refine .repeatStep (fun _ => rfl) (fun part cut => itemStep_part endures brings cut)
    (fun rest nonempty cut => ?_) (others value) budget
  have announced : nextItem latest.isEmpty (gap ++ (json.chars spacing level ++ rest)) =
      .ok (true, json.chars spacing level ++ rest) :=
    brings.nextItem_append (List.append_ne_nil_of_right_ne_nil _ nonempty) List.prefix_rfl
  rw [List.append_assoc]
  exact itemStep_of_nextItem recalled (endsNumber_of_head cut ends) announced

theorem needsAll_itemStep_end (reader : Reader β) (latest : List β) (spacing : Spacing)
    (level : Nat) : NeedsAll (itemStep reader latest) (spacing.lineBreak level ++ [']']) := by
  refine .behind (fun part cut => ?_) (itemStep_end reader latest spacing level) (.nil _)
  rw [itemStep, nextItem_of_blank _ (blank_of_head cut (lineBreak_blank spacing level))]
  rfl

/-- Behind an item everything up to the closing bracket is needed. -/
theorem needsAll_items {items : List Json} (each : ∀ item ∈ items, Endures reader item)
    (spacing : Spacing) (level outer : Nat) (last : β) (latest : List β) (budget : Nat) :
    NeedsAll (Reader.repeatStep (itemStep reader) budget (last :: latest))
      (itemChars spacing level items ++ (spacing.lineBreak outer ++ [']'])) := by
  induction items generalizing last latest budget with
  | nil =>
    rw [itemChars, List.nil_append]
    exact (needsAll_itemStep_end reader _ spacing outer).repeatStep_last budget
  | cons first rest inductionHypothesis =>
    obtain ⟨endures, others⟩ := List.forall_mem_cons.mp each
    rw [itemChars, List.append_assoc, List.append_assoc]
    exact needsAll_item endures (bringsItem_later spacing level) rfl spacing level
      (endsNumber_itemChars spacing level outer rest [])
      (fun item => inductionHypothesis others item (last :: latest)) budget

theorem Endures.array {items : List Json} (each : ∀ item ∈ items, Endures reader item) :
    Endures reader.array (.array items) := by
  refine .of_needsAll ?_ (fun blank chars => ?_) fun spacing level => ?_
  · choose value recalled using fun item : {item // item ∈ items} =>
      (each item.1 item.2).recalls
    have all := recalls_array_map items.attach fun item _ => recalled item
    rw [List.attach_map_subtype_val, List.flatMap_eq_nil_iff.mpr fun _ _ => rfl] at all
    exact ⟨_, all⟩
  · simp only [Reader.array, skipBlanks_append blank]
  · cases items with
    | nil => exact .cons rfl (fun _ => rfl) (.singleton rfl ']')
    | cons first rest =>
      obtain ⟨endures, others⟩ := List.forall_mem_cons.mp each
      rw [chars]
      simp only [List.cons_append, List.append_assoc]
      refine .cons rfl (fun _ => rfl) (.iterate fun budget => ?_)
      exact needsAll_item endures (bringsItem_first spacing (level + 1)) rfl spacing (level + 1)
        (endsNumber_itemChars spacing (level + 1) level rest [])
        (fun item => needsAll_items others spacing (level + 1) level item []) budget

end Arrays

/-! ### Pairs -/

/-- Reads the second item of a pair behind the first. -/
def secondItem (right : Reader γ) (first : β) : Reader (β × γ) := fun chars => do
  let (more, rest) ← nextItem false chars
  if !more then throw .mismatched
  let (second, rest) ← right rest
  let rest ← closeArray rest
  pure ((first, second), rest)

theorem needsAll_secondItem {right : Reader γ} {json : Json} (endures : Endures right json)
    (first : β) (spacing : Spacing) (level outer : Nat) :
    NeedsAll (secondItem right first)
      (itemChars spacing level [json] ++ (spacing.lineBreak outer ++ [']'])) := by
  have closing : ∀ second : γ, NeedsAll (fun rest => closeArray rest >>= fun rest =>
      (pure ((first, second), rest) : Except Fault ((β × γ) × List Char)))
      (spacing.lineBreak outer ++ [']']) :=
    fun second => (needsAll_closeArray spacing outer).bind _
  have item : NeedsAll (fun chars => right chars >>= fun (second, rest) => closeArray rest >>=
      fun rest => (pure ((first, second), rest) : Except Fault ((β × γ) × List Char)))
      (json.chars spacing level ++ (spacing.lineBreak outer ++ [']'])) :=
    endures.needsAll_bind (show [].all isBlank = true from rfl)
      (endsNumber_lineBreak spacing outer rfl)
      (List.append_ne_nil_of_right_ne_nil _ (List.cons_ne_nil _ _)) closing spacing level
  rw [itemChars, itemChars, List.append_nil, List.append_assoc]
  exact (bringsItem_later spacing level).needsAll item

theorem Endures.pair {left : Reader β} {right : Reader γ} {leftJson rightJson : Json}
    (leftEndures : Endures left leftJson) (rightEndures : Endures right rightJson) :
    Endures (left.pair right) (.array [leftJson, rightJson]) := by
  refine .of_needsAll ?_ (fun blank chars => ?_) fun spacing level => ?_
  · obtain ⟨first, leftRecalled⟩ := leftEndures.recalls
    obtain ⟨second, rightRecalled⟩ := rightEndures.recalls
    exact ⟨(first, second), recalls_pair leftRecalled rightRecalled⟩
  · simp only [Reader.pair, skipBlanks_append blank]
  · have item : NeedsAll
        (fun chars => left chars >>= fun (first, rest) => secondItem right first rest)
        (leftJson.chars spacing (level + 1) ++
          (itemChars spacing (level + 1) [rightJson] ++ (spacing.lineBreak level ++ [']']))) :=
      leftEndures.needsAll_bind (show [].all isBlank = true from rfl)
        (endsNumber_itemChars spacing (level + 1) level [rightJson] [])
        (List.append_ne_nil_of_left_ne_nil (by simp [itemChars]) _)
        (fun first => needsAll_secondItem rightEndures first spacing (level + 1) level)
        spacing (level + 1)
    rw [chars]
    simp only [List.cons_append, List.append_assoc]
    exact .cons rfl (fun _ => rfl) ((bringsItem_first spacing (level + 1)).needsAll item)

/-! ### Keys -/

theorem nextKey_of_blank (first : Bool) {blanks : List Char} (blank : blanks.all isBlank = true) :
    nextKey first blanks = .error .truncated := by
  rw [nextKey, skipBlanks_of_blank blank]

/-- What stands before a key is too little for anything, and behind it the key is announced. -/
structure BringsKey (first : Bool) (gap : List Char) : Prop where
  short : ∀ part, part <+: gap → nextKey first part = .error .truncated
  announces : ∀ rest, nextKey first (gap ++ '"' :: rest) = .ok (true, rest)

theorem bringsKey_first (spacing : Spacing) (level : Nat) :
    BringsKey true (spacing.lineBreak level) where
  short _ cut := nextKey_of_blank true (blank_of_head cut (lineBreak_blank spacing level))
  announces rest := nextKey_first (lineBreak_blank spacing level) rest

theorem bringsKey_later (spacing : Spacing) (level : Nat) :
    BringsKey false (',' :: spacing.lineBreak level) where
  short part cut := by
    cases part with
    | nil => rfl
    | cons comma blanks =>
      obtain ⟨rfl, inside⟩ := List.cons_prefix_cons.mp cut
      have comma := nextKey_comma (show [].all isBlank = true from rfl) blanks
      rw [List.nil_append] at comma
      rw [comma, keyBehindComma,
        skipBlanks_of_blank (blank_of_head inside (lineBreak_blank spacing level))]
  announces rest :=
    nextKey_later (show [].all isBlank = true from rfl) (lineBreak_blank spacing level) rest

theorem needsAll_closeObject (spacing : Spacing) (level : Nat) :
    NeedsAll closeObject (spacing.lineBreak level ++ ['\x7d']) := by
  refine .behind (fun part cut => ?_) (fun rest => ?_) (.nil Except.ok)
  · rw [closeObject, skipBlanks_of_blank (blank_of_head cut (lineBreak_blank spacing level))]
  · rw [closeObject, skipBlanks_blanks (lineBreak_blank spacing level) (by decide)]
    rfl

/-! ### Members -/

/-- Reads the value of a field behind its key. -/
def Field.take (field : Field σ) (state : Partial σ) : Reader (Partial σ ⊕ σ) := fun chars => do
  let rest ← takeColon chars
  let (record, rest) ← field.read state.record rest
  pure (.inl ⟨false, field.key :: state.seen, record⟩, rest)

/-- Reads a member behind the opening quote of its key. -/
def Layout.memberBody (layout : Layout σ) (state : Partial σ) : Reader (Partial σ ⊕ σ) :=
  fun chars => do
    let (key, rest) ← stringBody chars
    match layout.fields.find? fun field => field.key == key with
    | none =>
        let rest ← takeColon rest
        let (_, rest) ← Reader.anything rest
        pure (.inl { state with first := false }, rest)
    | some field =>
        if state.seen.contains key then throw .mismatched
        let rest ← takeColon rest
        let (record, rest) ← field.read state.record rest
        pure (.inl ⟨false, key :: state.seen, record⟩, rest)

/-- The text of a member before its colon. -/
def keyChars (gap : List Char) (key : String) : List Char :=
  gap ++ '"' :: (key.toList.flatMap escapedChar ++ ['"'])

section Members

variable {layout : Layout σ} {state : Partial σ} {gap : List Char} {field : Field σ}

theorem needsAll_keyChars (brings : BringsKey state.first gap) (key : String) :
    NeedsAll (layout.memberStep state) (keyChars gap key) := by
  have opened : ∀ rest, layout.memberStep state (gap ++ '"' :: rest) =
      layout.memberBody state rest := by
    intro rest
    rw [Layout.memberStep, brings.announces]
    rfl
  refine .behind (fun part cut => ?_) opened ((needsAll_stringBody key).bind _)
  rw [Layout.memberStep, brings.short part cut]
  rfl

theorem memberStep_keyChars (brings : BringsKey state.first gap)
    (found : (layout.fields.find? fun other => other.key == field.key) = some field)
    (fresh : field.key ∉ state.seen) (rest : List Char) :
    layout.memberStep state (keyChars gap field.key ++ rest) = field.take state rest := by
  have unseen : state.seen.contains field.key = false := by simpa using fresh
  rw [keyChars, List.append_assoc, List.cons_append, List.append_assoc, Layout.memberStep,
    brings.announces]
  show (stringBody (field.key.toList.flatMap escapedChar ++ '"' :: rest) >>= _) = _
  rw [stringBody_chars]
  simp only [bind, Except.bind, found, unseen]
  rfl

theorem Field.take_part {json : Json} (endures : Endures (field.read state.record) json)
    {spacing : Spacing} {level : Nat} {part : List Char}
    (cut : part <+: spacing.colon ++ json.chars spacing level) :
    IsPending (field.take state part) := by
  obtain ⟨blanks, written, blank⟩ := exists_colon_eq spacing
  rw [written, List.cons_append] at cut
  cases part with
  | nil => exact Or.inl rfl
  | cons colon rest =>
    obtain ⟨rfl, inside⟩ := List.cons_prefix_cons.mp cut
    exact (endures.spent_gap blank inside).pending
      fun record => (⟨false, field.key :: state.seen, record⟩ : Partial σ)

theorem memberStep_part (brings : BringsKey state.first gap)
    (found : (layout.fields.find? fun other => other.key == field.key) = some field)
    (fresh : field.key ∉ state.seen) {json : Json}
    (endures : Endures (field.read state.record) json) {spacing : Spacing} {level : Nat}
    {part : List Char}
    (cut : part <+: keyChars gap field.key ++ (spacing.colon ++ json.chars spacing level)) :
    IsPending (layout.memberStep state part) := by
  have taken := memberStep_keyChars brings found fresh
  rcases prefix_append_cases cut with inside | ⟨rest, _, beyond, rfl⟩
  · by_cases whole : part = keyChars gap field.key
    · rw [whole, ← List.append_nil (keyChars gap field.key), taken]
      exact Or.inl rfl
    · exact Or.inl (needsAll_keyChars brings field.key part inside whole)
  · rw [taken]
    exact Field.take_part endures beyond

/-- A member and what follows it are needed one after the other. -/
theorem needsAll_member (state : Partial σ) (brings : BringsKey state.first gap)
    (found : (layout.fields.find? fun other => other.key == field.key) = some field)
    (fresh : field.key ∉ state.seen) {json : Json}
    (endures : Endures (field.read state.record) json) (spacing : Spacing) (level : Nat)
    {back : List Char} (ends : endsNumber back = true)
    (others : ∀ record budget, NeedsAll (Reader.repeatStep layout.memberStep budget
      ⟨false, field.key :: state.seen, record⟩) back)
    (budget : Nat) :
    NeedsAll (Reader.repeatStep layout.memberStep budget state)
      (gap ++ '"' :: memberTail spacing level field.key json back) := by
  obtain ⟨next, recalled⟩ := endures.recalls
  have split : ∀ rest, gap ++ '"' :: memberTail spacing level field.key json rest =
      keyChars gap field.key ++ (spacing.colon ++ json.chars spacing level) ++ rest := by
    intro rest
    simp only [memberTail, keyChars, List.append_assoc, List.cons_append, List.nil_append]
  rw [split]
  refine .repeatStep (fun _ => rfl) (fun part cut => memberStep_part brings found fresh endures cut)
    (fun rest _ cut => ?_) (others next) budget
  rw [← split]
  exact Layout.memberStep_of_nextKey (brings.announces _) found fresh recalled
    (endsNumber_of_head cut ends)

end Members

/-! ### Records -/

/-- A member has the key of a field and a value that the reader of the field endures. -/
def MemberEndures (field : Field σ) (member : String × Json) : Prop :=
  member.1 = field.key ∧ ∀ record, Endures (field.read record) member.2

theorem MemberEndures.of {key : String} {required : Bool} {reader : Reader β} {store : σ → β → σ}
    {json : Json} (endures : Endures reader json) :
    MemberEndures (.of key required reader store) (key, json) :=
  ⟨rfl, fun record => endures.map (store record)⟩

/-- Members with values that are endured are read into a record. -/
theorem exists_inOrder {fields : List (Field σ)} {members : List (String × Json)}
    (each : List.Forall₂ MemberEndures fields members) (record : σ) :
    ∃ last, InOrder fields record members [] last := by
  induction each generalizing record with
  | nil => exact ⟨record, .done record⟩
  | @cons field member fields members endures _ inductionHypothesis =>
    obtain ⟨key, json⟩ := member
    obtain ⟨rfl, reads⟩ := endures
    obtain ⟨next, recalled⟩ := (reads record).recalls
    obtain ⟨last, others⟩ := inductionHypothesis next
    exact ⟨last, .field recalled others⟩

section Records

variable {layout : Layout σ}

theorem needsAll_memberStep_end (layout : Layout σ) (state : Partial σ) (spacing : Spacing)
    (level : Nat) : NeedsAll (layout.memberStep state) (spacing.lineBreak level ++ ['\x7d']) := by
  refine .behind (fun part cut => ?_) (fun _ => rfl) (.nil _)
  rw [Layout.memberStep, nextKey_of_blank _ (blank_of_head cut (lineBreak_blank spacing level))]
  rfl

/-- Behind a member everything up to the closing brace is needed. -/
theorem needsAll_members (distinct : (layout.fields.map Field.key).Nodup)
    {fields : List (Field σ)} {members : List (String × Json)}
    (each : List.Forall₂ MemberEndures fields members) (before : List (Field σ))
    (split : layout.fields = before ++ fields) (spacing : Spacing) (level outer : Nat) (record : σ)
    (budget : Nat) :
    NeedsAll (Reader.repeatStep layout.memberStep budget
        ⟨false, (before.map Field.key).reverse, record⟩)
      (memberChars spacing level members ++ (spacing.lineBreak outer ++ ['\x7d'])) := by
  induction each generalizing before record budget with
  | nil =>
    rw [memberChars, List.nil_append]
    exact (needsAll_memberStep_end layout _ spacing outer).repeatStep_last budget
  | @cons field member fields members endures _ inductionHypothesis =>
    obtain ⟨key, json⟩ := member
    obtain ⟨rfl, reads⟩ := endures
    obtain ⟨found, fresh⟩ := Layout.find?_of_split distinct split
    rw [memberChars_cons]
    refine needsAll_member ⟨false, _, record⟩ (bringsKey_later spacing level) found fresh
      (reads record) spacing level
      (endsNumber_memberChars spacing level outer members []) (fun next turns => ?_) budget
    have others := inductionHypothesis (before ++ [field])
      (by rw [split, List.append_assoc]; rfl) next turns
    rwa [List.map_append, List.reverse_append] at others

/-- The text of a record with all its fields in their order is needed to the end. -/
theorem needsAll_record (distinct : (layout.fields.map Field.key).Nodup)
    {members : List (String × Json)}
    (each : List.Forall₂ MemberEndures layout.fields members) (spacing : Spacing) (level : Nat) :
    NeedsAll layout.reader ((Json.object members).chars spacing level) := by
  cases members with
  | nil => exact .cons rfl (fun _ => rfl) (.singleton rfl '\x7d')
  | cons member members =>
    obtain ⟨key, json⟩ := member
    obtain ⟨field, fields, endures, others, split⟩ := List.forall₂_cons_right_iff.mp each
    obtain ⟨rfl, reads⟩ := endures
    have isFirst : layout.fields = [] ++ field :: fields := split
    obtain ⟨found, fresh⟩ := Layout.find?_of_split distinct isFirst
    rw [← List.append_nil (chars _ _ _), chars_object_cons]
    refine .cons rfl (fun _ => rfl) (.iterate fun budget => ?_)
    exact needsAll_member ⟨true, [], layout.blank⟩ (bringsKey_first spacing (level + 1)) found
      fresh (reads _) spacing (level + 1)
      (endsNumber_memberChars spacing (level + 1) level members [])
      (fun next turns => needsAll_members distinct others [field] split spacing (level + 1) level
        next turns) budget

theorem Endures.record (distinct : (layout.fields.map Field.key).Nodup)
    {members : List (String × Json)}
    (each : List.Forall₂ MemberEndures layout.fields members) :
    Endures layout.reader (.object members) := by
  refine .of_needsAll ?_ (fun blank chars => ?_) (needsAll_record distinct each)
  · obtain ⟨record, inOrder⟩ := exists_inOrder each layout.blank
    exact ⟨record, InOrder.recalls distinct inOrder⟩
  · simp only [Layout.reader, skipBlanks_append blank]

end Records

/-! ### Alternatives -/

theorem needsAll_key (spacing : Spacing) (level : Nat) (key : String) :
    NeedsAll Reader.key (keyChars (spacing.lineBreak level) key) := by
  refine .behind (fun part cut => ?_) (fun rest => ?_) (needsAll_stringBody key)
  · rw [Reader.key, skipBlanks_of_blank (blank_of_head cut (lineBreak_blank spacing level))]
  · rw [Reader.key, skipBlanks_blanks (lineBreak_blank spacing level) (by decide)]
    rfl

theorem key_keyChars (spacing : Spacing) (level : Nat) (key : String) (rest : List Char) :
    Reader.key (keyChars (spacing.lineBreak level) key ++ rest) = .ok (key, rest) := by
  rw [keyChars, List.append_assoc, List.cons_append, List.append_assoc, Reader.key,
    skipBlanks_blanks (lineBreak_blank spacing level) (by decide)]
  exact stringBody_chars key rest

theorem endures_holding {find : String → Option (Variant β)} {name : String} {reader : Reader β}
    {json : Json} (known : find name = some (.holding reader)) (endures : Endures reader json) :
    Endures (Reader.variant find) (.object [(name, json)]) := by
  refine .of_needsAll ?_ (fun blank chars => ?_) fun spacing level => ?_
  · obtain ⟨value, recalled⟩ := endures.recalls
    exact ⟨value, recalls_holding known recalled⟩
  · simp only [Reader.variant, skipBlanks_append blank]
  · obtain ⟨blanks, written, blank⟩ := exists_colon_eq spacing
    have closing : ∀ value : β, NeedsAll (fun rest => closeObject rest >>= fun rest =>
        (pure (value, rest) : Except Fault (β × List Char)))
        (spacing.lineBreak level ++ ['\x7d']) :=
      fun value => (needsAll_closeObject spacing level).bind _
    have held : NeedsAll (fun chars => reader chars >>= fun (value, rest) => closeObject rest >>=
        fun rest => (pure (value, rest) : Except Fault (β × List Char)))
        (blanks ++ (json.chars spacing (level + 1) ++ (spacing.lineBreak level ++ ['\x7d']))) :=
      endures.needsAll_bind blank (endsNumber_lineBreak spacing level rfl)
        (List.append_ne_nil_of_right_ne_nil _ (List.cons_ne_nil _ _)) closing spacing (level + 1)
    have behindKey : NeedsAll (fun chars => takeColon chars >>= fun rest => reader rest >>=
        fun (value, rest) => closeObject rest >>= fun rest =>
          (pure (value, rest) : Except Fault (β × List Char)))
        (':' :: (blanks ++
          (json.chars spacing (level + 1) ++ (spacing.lineBreak level ++ ['\x7d'])))) :=
      .cons rfl (fun _ => rfl) held
    have text : chars spacing level (.object [(name, json)]) =
        '\x7b' :: (keyChars (spacing.lineBreak (level + 1)) name ++ ':' :: (blanks ++
          (json.chars spacing (level + 1) ++ (spacing.lineBreak level ++ ['\x7d'])))) := by
      simp only [chars, memberChars, stringChars, keyChars, written, List.cons_append,
        List.append_assoc, List.nil_append]
    rw [text]
    refine .cons rfl (fun _ => rfl) (.andThen ((needsAll_key spacing (level + 1) name).bind _)
      (fun rest _ => ?_) behindKey (List.cons_ne_nil _ _))
    show (Reader.key (keyChars (spacing.lineBreak (level + 1)) name ++ rest) >>= _) = _
    rw [key_keyChars]
    simp only [bind, Except.bind, known]
    rfl

/-! ### Whole texts -/

/-- A proper head of a printed value is read as a truncated text. -/
theorem NeedsAll.run_print {reader : Reader β} {json : Json} {spacing : Spacing}
    (needs : NeedsAll reader (json.chars spacing 0)) {part : String}
    (cut : part.toList <+: (json.print spacing).toList) (proper : part ≠ json.print spacing) :
    reader.run part = .error (.unreadable .truncated) := by
  rw [Json.print, String.toList_ofList] at cut
  have short : part.toList ≠ json.chars spacing 0 := by
    intro whole
    rw [Json.print, ← whole, String.ofList_toList] at proper
    exact proper rfl
  rw [Reader.run, needs part.toList cut short]

end BlockCone.Json
