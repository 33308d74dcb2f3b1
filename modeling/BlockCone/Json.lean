/-
This file prints JSON.

A `Json` value distinguishes natural numbers from doubles, because a double is always printed with
a fraction or an exponent and a natural number never is. A double that is not finite has no text
in JSON and is printed as `null`. Values are printed either without any blanks or with every
member and item on a line of its own.
-/

import BlockCone.Decimal.Layout

namespace BlockCone

/-- A JSON value to be printed. -/
inductive Json where
  | null
  | bool (value : Bool)
  | natural (value : Nat)
  | real (value : Float)
  | string (value : String)
  | array (items : List Json)
  | object (members : List (String × Json))

namespace Json

/-- Where blanks go. -/
inductive Spacing where
  /-- Nowhere. -/
  | compact
  /-- Before every member and item a new line, two spaces further in for every level. -/
  | indented
deriving DecidableEq, Repr

/-- What goes before a member or an item at a level, or before the bracket that closes it. -/
def Spacing.lineBreak (spacing : Spacing) (level : Nat) : List Char :=
  match spacing with
  | .compact => []
  | .indented => '\n' :: List.replicate (2 * level) ' '

/-- What goes between a key and its value. -/
def Spacing.colon : Spacing → List Char
  | .compact => [':']
  | .indented => [':', ' ']

/-! ### Strings -/

/-- A hexadecimal digit. -/
def hexDigit (value : Nat) : Char :=
  Nat.digitChar value

/-- The characters that stand for one character of a string. -/
def escapedChar (char : Char) : List Char :=
  match char with
  | '"' => ['\\', '"']
  | '\\' => ['\\', '\\']
  | '\x08' => ['\\', 'b']
  | '\x0c' => ['\\', 'f']
  | '\n' => ['\\', 'n']
  | '\r' => ['\\', 'r']
  | '\t' => ['\\', 't']
  | other =>
      if other.toNat < 32 then
        ['\\', 'u', '0', '0', hexDigit (other.toNat / 16), hexDigit (other.toNat % 16)]
      else [other]

/-- A string between quotes. -/
def stringChars (value : String) : List Char :=
  '"' :: value.toList.flatMap escapedChar ++ ['"']

/-! ### Values -/

/-- The text of a double, `null` for one that is not finite. -/
def realChars (value : Float) : List Char :=
  match Decimal.stored? value with
  | some text => text.toList
  | none => ['n', 'u', 'l', 'l']

mutual

/-- The text of a value that stands at a level. -/
def chars (spacing : Spacing) (level : Nat) : Json → List Char
  | .null => ['n', 'u', 'l', 'l']
  | .bool true => ['t', 'r', 'u', 'e']
  | .bool false => ['f', 'a', 'l', 's', 'e']
  | .natural value => Nat.toDigits 10 value
  | .real value => realChars value
  | .string value => stringChars value
  | .array [] => ['[', ']']
  | .array (first :: rest) =>
      '[' :: spacing.lineBreak (level + 1) ++ chars spacing (level + 1) first ++
        itemChars spacing (level + 1) rest ++ spacing.lineBreak level ++ [']']
  | .object [] => ['\x7b', '\x7d']
  | .object ((key, value) :: rest) =>
      '\x7b' :: spacing.lineBreak (level + 1) ++ stringChars key ++ spacing.colon ++
        chars spacing (level + 1) value ++ memberChars spacing (level + 1) rest ++
        spacing.lineBreak level ++ ['\x7d']

/-- The text of the items of an array after the first. -/
def itemChars (spacing : Spacing) (level : Nat) : List Json → List Char
  | [] => []
  | first :: rest =>
      ',' :: spacing.lineBreak level ++ chars spacing level first ++ itemChars spacing level rest

/-- The text of the members of an object after the first. -/
def memberChars (spacing : Spacing) (level : Nat) : List (String × Json) → List Char
  | [] => []
  | (key, value) :: rest =>
      ',' :: spacing.lineBreak level ++ stringChars key ++ spacing.colon ++
        chars spacing level value ++ memberChars spacing level rest

end

/-- The text of a value. -/
def print (spacing : Spacing) (value : Json) : String :=
  String.ofList (value.chars spacing 0)

end Json

end BlockCone
