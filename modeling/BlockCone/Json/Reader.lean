/-
This file reads JSON in one pass, from left to right, up to the first fault.

A `Reader` takes a value off the head of a text and returns the rest. Readers know what they look
for: a text that is well formed but holds something else is `mismatched`, and it is found out at
the first character that tells. So a value of the wrong kind is read to its end if it is a word, a
number or a string, and not looked into if it is an array or an object. A text that stops early is
`truncated`, and everything else is `malformed`.

An object is read key by key, and what stands in the place of a key and is no string is malformed
whatever it is. A key that is read twice is refused as soon as it is seen again, a key that nobody
asked for has its value passed over, and what is missing shows at the closing brace. An object may
also be written as the array of its values in the order of its fields.

Repetition is bounded by the length of the text. Every turn takes at least one character, so the
bound is never reached.
-/

import BlockCone.Json.Number

namespace BlockCone.Json

/-- Takes a value off the head of a text, and returns it with the rest. -/
def Reader (β : Type) : Type :=
  List Char → Except Fault (β × List Char)

namespace Reader

variable {β γ σ : Type}

/-- Takes nothing and returns a value. -/
def value (result : β) : Reader β :=
  fun chars => .ok (result, chars)

/-- Changes the value that is read. -/
def map (change : β → γ) (reader : Reader β) : Reader γ :=
  fun chars => do
    let (result, rest) ← reader chars
    pure (change result, rest)

/-- Repeats a step while it asks to go on with a new state. -/
def repeatStep (step : σ → Reader (σ ⊕ β)) : Nat → σ → Reader β
  | 0, _, _ => .error .truncated
  | budget + 1, state, chars => do
      let (outcome, rest) ← step state chars
      match outcome with
      | .inl next => repeatStep step budget next rest
      | .inr result => pure (result, rest)

/-- Repeats a step until it has a result. -/
def iterate (step : σ → Reader (σ ⊕ β)) (state : σ) : Reader β :=
  fun chars => repeatStep step (chars.length + 1) state chars

end Reader

/-! ### Blanks and words -/

/-- Whether a character may stand between the parts of a text. -/
def isBlank (char : Char) : Bool :=
  char == ' ' || char == '\n' || char == '\t' || char == '\r'

/-- Drops the blanks at the head of a text. -/
def skipBlanks (chars : List Char) : List Char :=
  chars.dropWhile isBlank

/-- Takes the characters of a word. -/
def takeWord : List Char → List Char → Except Fault (List Char)
  | [], chars => .ok chars
  | _ :: _, [] => .error .truncated
  | expected :: word, char :: chars =>
      if char == expected then takeWord word chars else .error .malformed

/-! ### Strings -/

/-- The value of a hexadecimal digit. -/
def hexValue? (char : Char) : Option Nat :=
  if char.isDigit then some (char.toNat - '0'.toNat)
  else if 'a' ≤ char && char ≤ 'f' then some (char.toNat - 'a'.toNat + 10)
  else if 'A' ≤ char && char ≤ 'F' then some (char.toNat - 'A'.toNat + 10)
  else none

/-- The value of four hexadecimal digits at the head of a text. Fewer than four bytes are too few,
whatever they are. -/
def takeHex (chars : List Char) : Except Fault (Nat × List Char) :=
  if (chars.take 4).foldr (fun char bytes => char.utf8Size + bytes) 0 < 4 then .error .truncated
  else match chars with
    | first :: second :: third :: fourth :: rest =>
        match hexValue? first, hexValue? second, hexValue? third, hexValue? fourth with
        | some first, some second, some third, some fourth =>
            .ok (((first * 16 + second) * 16 + third) * 16 + fourth, rest)
        | _, _, _, _ => .error .malformed
    | _ => .error .malformed

/-- The character behind `\u`. A character above the first plane is written as two halves, and no
half stands alone. -/
def takeCodePoint (chars : List Char) : Except Fault (Char × List Char) := do
  let (first, rest) ← takeHex chars
  if 0xDC00 ≤ first && first ≤ 0xDFFF then .error .malformed
  else if 0xD800 ≤ first && first ≤ 0xDBFF then do
    let rest ← takeWord ['\\', 'u'] rest
    let (second, rest) ← takeHex rest
    if 0xDC00 ≤ second && second ≤ 0xDFFF then
      pure (Char.ofNat (0x10000 + (first - 0xD800) * 0x400 + (second - 0xDC00)), rest)
    else .error .malformed
  else pure (Char.ofNat first, rest)

/-- The character that a letter behind a backslash stands for. -/
def simpleEscape? (char : Char) : Option Char :=
  match char with
  | '"' => some '"'
  | '\\' => some '\\'
  | '/' => some '/'
  | 'b' => some '\x08'
  | 'f' => some '\x0c'
  | 'n' => some '\n'
  | 'r' => some '\r'
  | 't' => some '\t'
  | _ => none

/-- The character that an escape stands for, behind its backslash. -/
def takeEscape : List Char → Except Fault (Char × List Char)
  | [] => .error .truncated
  | 'u' :: rest => takeCodePoint rest
  | char :: rest =>
      match simpleEscape? char with
      | some meant => .ok (meant, rest)
      | none => .error .malformed

/-- Takes one character of a string, or the quote that ends it. The characters taken before are
given with the latest first. -/
def stringStep (latest : List Char) : Reader (List Char ⊕ String)
  | [] => .error .truncated
  | '"' :: rest => .ok (.inr (String.ofList latest.reverse), rest)
  | '\\' :: rest => do
      let (char, rest) ← takeEscape rest
      pure (.inl (char :: latest), rest)
  | char :: rest =>
      if char.toNat < 32 then .error .malformed else .ok (.inl (char :: latest), rest)

/-- Reads a string behind its opening quote. -/
def stringBody : Reader String :=
  Reader.iterate stringStep []

/-! ### Values of another kind -/

/-- Reads the number at the head of a text. -/
def takeNumber (chars : List Char) : Except Fault (Number × List Char) := do
  let (numeral, rest) ← scanNumeral .truncated chars
  let number ← numeral.toNumber
  pure (number, rest)

/-- Whether a character starts a number. -/
def startsNumber (char : Char) : Bool :=
  char == '-' || char.isDigit

/-- The fault of a text without blanks at its head that holds none of what is looked for. A value
of another kind is a mismatch, once it is known to be one. -/
def mismatch (chars : List Char) : Fault :=
  let whether {δ : Type} (attempt : Except Fault δ) : Fault :=
    match attempt with
    | .ok _ => .mismatched
    | .error fault => fault
  match chars with
  | [] => .truncated
  | 'n' :: rest => whether (takeWord ['u', 'l', 'l'] rest)
  | 't' :: rest => whether (takeWord ['r', 'u', 'e'] rest)
  | 'f' :: rest => whether (takeWord ['a', 'l', 's', 'e'] rest)
  | '"' :: rest => whether (stringBody rest)
  | '[' :: _ => .mismatched
  | '\x7b' :: _ => .mismatched
  | char :: rest => if startsNumber char then whether (takeNumber (char :: rest)) else .malformed

namespace Reader

/-! ### Single values -/

/-- Reads `null`. -/
def null : Reader Unit := fun chars =>
  match skipBlanks chars with
  | 'n' :: rest => do
      let rest ← takeWord ['u', 'l', 'l'] rest
      pure ((), rest)
  | chars => .error (mismatch chars)

/-- Reads a truth value. -/
def bool : Reader Bool := fun chars =>
  match skipBlanks chars with
  | 't' :: rest => do
      let rest ← takeWord ['r', 'u', 'e'] rest
      pure (true, rest)
  | 'f' :: rest => do
      let rest ← takeWord ['a', 'l', 's', 'e'] rest
      pure (false, rest)
  | chars => .error (mismatch chars)

/-- Reads a number. -/
def number : Reader Number := fun chars =>
  match skipBlanks chars with
  | [] => .error .truncated
  | char :: rest =>
      if startsNumber char then takeNumber (char :: rest)
      else .error (mismatch (char :: rest))

/-- Reads a natural number below a limit. -/
def natural (limit : Nat) : Reader Nat := fun chars => do
  let (result, rest) ← number chars
  match result with
  | .natural result => if result < limit then pure (result, rest) else .error .mismatched
  | .real _ => .error .mismatched

/-- Reads a natural number that fits into 64 bits. -/
def index : Reader Nat := natural naturalLimit

/-- Reads a double, which may be written as a whole number. -/
def real : Reader Float := number.map Number.toDouble

/-- Reads a string. -/
def string : Reader String := fun chars =>
  match skipBlanks chars with
  | '"' :: rest => stringBody rest
  | chars => .error (mismatch chars)

/-- Reads a value or `null`. -/
def optional (reader : Reader β) : Reader (Option β) := fun chars =>
  match skipBlanks chars with
  | 'n' :: rest => do
      let rest ← takeWord ['u', 'l', 'l'] rest
      pure (none, rest)
  | chars => reader.map some chars

end Reader

/-! ### Values that are passed over -/

/-- A bracket that is still open. -/
inductive Bracket where
  | array
  | object
deriving DecidableEq, Repr

/-- Passes over one character of a string, or the quote that ends it. -/
def skipStringStep (_ : Unit) : Reader (Unit ⊕ Unit)
  | [] => .error .truncated
  | '"' :: rest => .ok (.inr (), rest)
  | '\\' :: 'u' :: rest => do
      let (_, rest) ← takeHex rest
      pure (.inl (), rest)
  | ['\\'] => .error .truncated
  | '\\' :: char :: rest =>
      match simpleEscape? char with
      | some _ => .ok (.inl (), rest)
      | none => .error .malformed
  | char :: rest => if char.toNat < 32 then .error .malformed else .ok (.inl (), rest)

/-- Passes over a string behind its opening quote. -/
def skipString : Reader Unit :=
  Reader.iterate skipStringStep ()

/-- Passes over a key and the colon behind it. -/
def skipKey (chars : List Char) : Except Fault (List Char) :=
  match skipBlanks chars with
  | [] => .error .truncated
  | '"' :: rest => do
      let (_, rest) ← skipString rest
      match skipBlanks rest with
      | [] => .error .truncated
      | ':' :: rest => .ok rest
      | _ :: _ => .error .malformed
  | _ :: _ => .error .malformed

/-- Closes brackets behind a finished value, until another value follows or none is left open. -/
def closeBrackets : List Bracket → Reader (List Bracket ⊕ Unit)
  | [], chars => .ok (.inr (), chars)
  | bracket :: outer, chars =>
      match bracket, skipBlanks chars with
      | _, [] => .error .truncated
      | .array, ',' :: rest => .ok (.inl (.array :: outer), rest)
      | .object, ',' :: rest => do
          let rest ← skipKey rest
          pure (.inl (.object :: outer), rest)
      | .array, ']' :: rest => closeBrackets outer rest
      | .object, '\x7d' :: rest => closeBrackets outer rest
      | _, _ :: _ => .error .malformed

/-- Passes over the head of a value, up to the next value inside or behind it. -/
def skipStep (opened : List Bracket) : Reader (List Bracket ⊕ Unit) := fun chars =>
  match skipBlanks chars with
  | [] => .error .truncated
  | 'n' :: rest => do closeBrackets opened (← takeWord ['u', 'l', 'l'] rest)
  | 't' :: rest => do closeBrackets opened (← takeWord ['r', 'u', 'e'] rest)
  | 'f' :: rest => do closeBrackets opened (← takeWord ['a', 'l', 's', 'e'] rest)
  | '"' :: rest => do
      let (_, rest) ← skipString rest
      closeBrackets opened rest
  | '[' :: rest =>
      match skipBlanks rest with
      | [] => .error .truncated
      | ']' :: rest => closeBrackets opened rest
      | rest => .ok (.inl (.array :: opened), rest)
  | '\x7b' :: rest =>
      match skipBlanks rest with
      | [] => .error .truncated
      | '\x7d' :: rest => closeBrackets opened rest
      | rest => do
          let rest ← skipKey rest
          pure (.inl (.object :: opened), rest)
  | char :: rest =>
      if startsNumber char then do
        let (_, rest) ← scanNumeral .malformed (char :: rest)
        closeBrackets opened rest
      else .error .malformed

/-- Passes over a value of any kind and depth. -/
def Reader.anything : Reader Unit :=
  Reader.iterate skipStep []

/-! ### Arrays -/

/-- Goes to the next item of an array, and says whether there is one. The closing bracket is left
in the text. -/
def nextItem (first : Bool) : Reader Bool := fun chars =>
  match skipBlanks chars with
  | [] => .error .truncated
  | ']' :: rest => .ok (false, ']' :: rest)
  | char :: rest =>
      if first then .ok (true, char :: rest)
      else if char == ',' then
        match skipBlanks rest with
        | [] => .error .truncated
        | ']' :: _ => .error .malformed
        | rest => .ok (true, rest)
      else .error .malformed

/-- Takes the bracket that closes an array with all its items read. -/
def closeArray (chars : List Char) : Except Fault (List Char) :=
  match skipBlanks chars with
  | [] => .error .truncated
  | ']' :: rest => .ok rest
  | _ :: _ => .error .malformed

/-- Reads one item of an array, or the bracket that closes it. -/
def itemStep {β : Type} (reader : Reader β) (latest : List β) :
    Reader (List β ⊕ List β) := fun chars => do
  let (more, rest) ← nextItem latest.isEmpty chars
  if more then
    let (item, rest) ← reader rest
    pure (.inl (item :: latest), rest)
  else
    let rest ← closeArray rest
    pure (.inr latest.reverse, rest)

namespace Reader

/-- Reads an array of any number of items. -/
def array (reader : Reader β) : Reader (List β) := fun chars =>
  match skipBlanks chars with
  | '[' :: rest => iterate (itemStep reader) [] rest
  | chars => .error (mismatch chars)

/-- Reads an array of two items. -/
def pair (left : Reader β) (right : Reader γ) : Reader (β × γ) := fun chars =>
  match skipBlanks chars with
  | '[' :: rest => do
      let (more, rest) ← nextItem true rest
      if !more then throw .mismatched
      let (first, rest) ← left rest
      let (more, rest) ← nextItem false rest
      if !more then throw .mismatched
      let (second, rest) ← right rest
      let rest ← closeArray rest
      pure ((first, second), rest)
  | chars => .error (mismatch chars)

end Reader

/-! ### Objects -/

/-- One field of a record: its key, whether an object has to have it, and how its value is read into
the record. -/
structure Field (σ : Type) where
  key : String
  required : Bool
  read : σ → Reader σ

/-- The field with a key whose value is stored by a function. -/
def Field.of {σ β : Type} (key : String) (required : Bool) (reader : Reader β)
    (store : σ → β → σ) : Field σ :=
  ⟨key, required, fun record => reader.map (store record)⟩

/-- How a record is written: its fields in order, the record before any field is read, and whether
the array of its values may stop early. -/
structure Layout (σ : Type) where
  fields : List (Field σ)
  blank : σ
  mayStop : Bool

/-- Takes the colon between a key and its value. -/
def takeColon (chars : List Char) : Except Fault (List Char) :=
  match skipBlanks chars with
  | [] => .error .truncated
  | ':' :: rest => .ok rest
  | _ :: _ => .error .malformed

/-- Goes to the next key of an object, and says whether there is one. Its opening quote is taken,
the closing brace is left in the text. -/
def nextKey (first : Bool) : Reader Bool := fun chars =>
  match skipBlanks chars with
  | [] => .error .truncated
  | '\x7d' :: rest => .ok (false, '\x7d' :: rest)
  | char :: rest =>
      if first then
        if char == '"' then .ok (true, rest) else .error .malformed
      else if char == ',' then
        match skipBlanks rest with
        | [] => .error .truncated
        | '"' :: rest => .ok (true, rest)
        | _ :: _ => .error .malformed
      else .error .malformed

/-- Takes the brace that closes an object. -/
def closeObject (chars : List Char) : Except Fault (List Char) :=
  match skipBlanks chars with
  | [] => .error .truncated
  | '\x7d' :: rest => .ok rest
  | _ :: _ => .error .malformed

/-- A record that is being read: whether no key was read yet, the known keys that were, and the
record so far. -/
structure Partial (σ : Type) where
  first : Bool
  seen : List String
  record : σ

namespace Layout

variable {σ : Type}

/-- Reads one member of an object, or the brace that closes it. -/
def memberStep (layout : Layout σ) (state : Partial σ) : Reader (Partial σ ⊕ σ) := fun chars => do
  let (more, rest) ← nextKey state.first chars
  if more then
    let (key, rest) ← stringBody rest
    match layout.fields.find? fun field => field.key == key with
    | none =>
        let rest ← takeColon rest
        let (_, rest) ← Reader.anything rest
        pure (.inl { state with first := false }, rest)
    | some field =>
        if state.seen.contains key then throw .mismatched
        let rest ← takeColon rest
        let (record, rest) ← field.read state.record rest
        pure (.inl ⟨false, key :: state.seen, record⟩, rest)
  else if layout.fields.all fun field => !field.required || state.seen.contains field.key then
    let rest ← closeObject rest
    pure (.inr state.record, rest)
  else throw .mismatched

/-- Reads the values of fields in order, as items of an array. -/
def readItems (mayStop : Bool) : List (Field σ) → Bool → σ → Reader σ
  | [], _, record, chars => do
      let rest ← closeArray chars
      pure (record, rest)
  | field :: fields, first, record, chars => do
      let (more, rest) ← nextItem first chars
      if more then
        let (record, rest) ← field.read record rest
        readItems mayStop fields false record rest
      else if mayStop then
        let rest ← closeArray rest
        pure (record, rest)
      else throw .mismatched

/-- Reads a record, written as an object or as an array. -/
def reader (layout : Layout σ) : Reader σ := fun chars =>
  match skipBlanks chars with
  | '\x7b' :: rest => Reader.iterate layout.memberStep ⟨true, [], layout.blank⟩ rest
  | '[' :: rest => readItems layout.mayStop layout.fields true layout.blank rest
  | chars => .error (mismatch chars)

end Layout

/-! ### Alternatives -/

/-- One of several alternatives: a name alone, or a name with a value. -/
inductive Variant (β : Type) where
  | name (result : β)
  | holding (reader : Reader β)

/-- Reads the value of an alternative behind its name. A name alone may hold `null`. -/
def Variant.read {β : Type} : Variant β → Reader β
  | .name result => Reader.null.map fun _ => result
  | .holding reader => reader

/-- Reads a key. A value of another kind in its place is malformed, and no mismatch. -/
def Reader.key : Reader String := fun chars =>
  match skipBlanks chars with
  | [] => .error .truncated
  | '"' :: rest => stringBody rest
  | _ :: _ => .error .malformed

/-- Reads one of several alternatives: the name, or an object with the name as its only key. -/
def Reader.variant {β : Type} (find : String → Option (Variant β)) : Reader β := fun chars =>
  match skipBlanks chars with
  | [] => .error .truncated
  | '"' :: rest => do
      let (name, rest) ← stringBody rest
      match find name with
      | some (.name result) => pure (result, rest)
      | _ => throw .mismatched
  | '\x7b' :: rest => do
      let (name, rest) ← Reader.key rest
      match find name with
      | none => throw .mismatched
      | some chosen =>
          let rest ← takeColon rest
          let (result, rest) ← chosen.read rest
          let rest ← closeObject rest
          pure (result, rest)
  | _ :: _ => .error .malformed

/-! ### Whole texts -/

/-- Reads a text that holds a value and nothing else but blanks. -/
def Reader.run {β : Type} (reader : Reader β) (text : String) : Except Error β :=
  match reader text.toList with
  | .error fault => .error (.unreadable fault)
  | .ok (result, rest) =>
      if (skipBlanks rest).isEmpty then .ok result else .error (.unreadable .malformed)

end BlockCone.Json
