import BranchSelector.Json.Reader

/-!
# String literals

The characters of a string literal after its opening quote. A raw control character
is refused, and an escape stands for the character it names. An escape of four
hexadecimal digits names a UTF-16 unit; a leading surrogate must be followed by the
escape of a trailing one, and together they name one character.

A literal whose value is not needed is skipped with weaker checks: its escapes need
the right letters and digits, but may name surrogates that have no partner.
-/

namespace BranchSelector.Json

def hexDigit? (c : Char) : Option Nat :=
  if '0' ≤ c ∧ c ≤ '9' then some (c.toNat - '0'.toNat)
  else if 'a' ≤ c ∧ c ≤ 'f' then some (c.toNat - 'a'.toNat + 10)
  else if 'A' ≤ c ∧ c ≤ 'F' then some (c.toNat - 'A'.toNat + 10)
  else none

/-- The UTF-16 unit that the next four characters write in hexadecimal. The text ends too
early if fewer than four bytes are left of it. -/
def hexUnit (text : List Char) : Except Fault Nat :=
  match (text.take 4).mapM hexDigit? with
  | some [a, b, c, d] => .ok (((a * 16 + b) * 16 + c) * 16 + d)
  | _ =>
    if (String.ofList (text.take 4)).utf8ByteSize < 4 then .error (.ended .string)
    else .error (.malformed .invalidEscape)

/-- Whether a UTF-16 unit is the first of a pair. -/
def isLeading (unit : Nat) : Bool :=
  decide (0xD800 ≤ unit ∧ unit ≤ 0xDBFF)

/-- Whether a UTF-16 unit is the second of a pair. -/
def isTrailing (unit : Nat) : Bool :=
  decide (0xDC00 ≤ unit ∧ unit ≤ 0xDFFF)

/-- The trailing unit that has to follow a leading one, as an escape. -/
def trailingUnit (text : List Char) : Except Fault Nat :=
  match text with
  | [] | ['\\'] => .error (.ended .string)
  | '\\' :: 'u' :: rest => do
    let unit ← hexUnit rest
    if isTrailing unit then return unit
    throw (.malformed .loneSurrogate)
  | _ => .error (.malformed .unfinishedSurrogatePair)

/-- The character of an escape, and how many characters the escape takes after its
backslash. -/
def escape (text : List Char) : Except Fault (Char × Nat) :=
  match text with
  | [] => .error (.ended .string)
  | '"' :: _ => .ok ('"', 1)
  | '\\' :: _ => .ok ('\\', 1)
  | '/' :: _ => .ok ('/', 1)
  | 'b' :: _ => .ok ('\x08', 1)
  | 'f' :: _ => .ok ('\x0c', 1)
  | 'n' :: _ => .ok ('\n', 1)
  | 'r' :: _ => .ok ('\r', 1)
  | 't' :: _ => .ok ('\t', 1)
  | 'u' :: rest => do
    let unit ← hexUnit rest
    if isTrailing unit then throw (.malformed .loneSurrogate)
    if isLeading unit then
      let second ← trailingUnit (rest.drop 4)
      return (Char.ofNat ((unit - 0xD800) * 0x400 + (second - 0xDC00) + 0x10000), 11)
    return (Char.ofNat unit, 5)
  | _ => .error (.malformed .invalidEscape)

/-- The characters of a literal up to its closing quote, and the text after that. The first
`passed` characters belong to an escape that is read already. -/
def literalChars : (passed : Nat) → List Char → Except Fault (List Char × List Char)
  | _, [] => .error (.ended .string)
  | passed + 1, _ :: rest => literalChars passed rest
  | 0, '"' :: rest => .ok ([], rest)
  | 0, '\\' :: rest => do
    let (c, size) ← escape rest
    let (cs, rest) ← literalChars size rest
    return (c :: cs, rest)
  | 0, c :: rest => do
    if c < ' ' then throw (.malformed .controlCharacter)
    let (cs, rest) ← literalChars 0 rest
    return (c :: cs, rest)

/-- How many characters an escape takes after its backslash, if its character is not
needed. -/
def escapeSize (text : List Char) : Except Fault Nat :=
  match text with
  | [] => .error (.ended .string)
  | 'u' :: rest => do
    let _ ← hexUnit rest
    return 5
  | c :: _ =>
    if c ∈ ['"', '\\', '/', 'b', 'f', 'n', 'r', 't'] then .ok 1
    else .error (.malformed .invalidEscape)

/-- The text after the closing quote of a literal. The first `passed` characters belong to
an escape that is checked already. -/
def afterLiteral : (passed : Nat) → List Char → Except Fault (List Char)
  | _, [] => .error (.ended .string)
  | passed + 1, _ :: rest => afterLiteral passed rest
  | 0, '"' :: rest => .ok rest
  | 0, '\\' :: rest => do
    let size ← escapeSize rest
    afterLiteral size rest
  | 0, c :: rest => if c < ' ' then .error (.malformed .controlCharacter) else afterLiteral 0 rest

namespace Reader

/-- Reads a string literal of which the opening quote is next. -/
def literal : Reader String := fun text => do
  let (cs, rest) ← literalChars 0 text.tail
  return (String.ofList cs, rest)

/-- Skips a string literal of which the opening quote is next. -/
def skipLiteral : Reader Unit := fun text => do
  let rest ← afterLiteral 0 text.tail
  return ((), rest)

end Reader

end BranchSelector.Json
