import Variation.Text.Visible

/-!
# Quoted texts

How an error message shows a text it was given: between double quotes, so that a reader sees where
it starts and ends, with every character that would not show written as an escape.

`quote` is the whole text, `escape` one character of it. An apostrophe needs no escape: the quotes
are double.
-/

namespace Variation.Text

/-- The digits of a number in base sixteen, most significant first, lower case. -/
def hexDigits (n : Nat) : List Char :=
  Nat.toDigits 16 n

/-- A character inside a quoted text. Five characters have a short escape; any other that does not
show is written by its code point. -/
def escape (c : Char) : List Char :=
  match c with
  | '"' => ['\\', '"']
  | '\\' => ['\\', '\\']
  | '\n' => ['\\', 'n']
  | '\r' => ['\\', 'r']
  | '\t' => ['\\', 't']
  | '\x00' => ['\\', '0']
  | c => if isVisible c then [c] else ['\\', 'u', '\x7b'] ++ hexDigits c.toNat ++ ['\x7d']

/-- A text as an error message shows it. -/
def quote (s : String) : String :=
  String.ofList ('"' :: s.toList.flatMap escape ++ ['"'])

end Variation.Text
