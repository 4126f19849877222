import BranchSelector.Text.Visible

/-!
# Quoted text

A string is quoted by putting it between double quotes and writing some of its
characters as escapes: the double quote, the backslash, the four control
characters that have a letter of their own, and every character that is not
visible, which is written by its code point in hexadecimal. A single quote needs
no escape between double quotes.
-/

namespace BranchSelector.Text

/-- A character by its code point: a backslash, `u`, and the hexadecimal number in braces. -/
def codePointEscape (c : Char) : List Char :=
  ['\\', 'u', '\x7b'] ++ Nat.toDigits 16 c.toNat ++ ['\x7d']

/-- The written form of one character between double quotes. -/
def quoteChar (c : Char) : List Char :=
  match c with
  | '\x00' => ['\\', '0']
  | '\t' => ['\\', 't']
  | '\n' => ['\\', 'n']
  | '\r' => ['\\', 'r']
  | '"' => ['\\', '"']
  | '\\' => ['\\', '\\']
  | c => if isVisible c then [c] else codePointEscape c

def quote (text : String) : String :=
  String.ofList ('"' :: text.toList.flatMap quoteChar ++ ['"'])

end BranchSelector.Text
