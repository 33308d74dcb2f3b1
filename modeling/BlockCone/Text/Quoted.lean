/-
This file writes a text between quotes, so that every character of it can be seen.

Quotes, backslashes, tabs and line ends have escapes of their own; other characters without a
shape are shown by their number in hexadecimal digits, between braces.
-/

import BlockCone.Text.Unprintable

namespace BlockCone.Text

/-- The characters that stand for one character of a quoted text. -/
def quotedChar (char : Char) : List Char :=
  match char with
  | '"' => ['\\', '"']
  | '\\' => ['\\', '\\']
  | '\n' => ['\\', 'n']
  | '\r' => ['\\', 'r']
  | '\t' => ['\\', 't']
  | '\x00' => ['\\', '0']
  | other =>
      if isUnprintable other then
        ['\\', 'u', '\x7b'] ++ Nat.toDigits 16 other.toNat ++ ['\x7d']
      else [other]

/-- A text between quotes. -/
def quoted (text : String) : String :=
  String.ofList ('"' :: text.toList.flatMap quotedChar ++ ['"'])

end BlockCone.Text
