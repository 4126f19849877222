import BranchSelector.Decimal.Shortest
import BranchSelector.Text.Quoted

/-!
# Faults of a JSON document

A document is read as a stream for a value of an expected shape, and the first
problem met decides. `Fault` sorts the problems into three: the text ends early,
the text is not JSON at this point, or the text is JSON so far but has the wrong
shape. `Fault.message` is the wording of each.
-/

namespace BranchSelector.Json

/-- A number as JSON writes it: whole if it has neither fraction nor exponent and
fits 64 bits, and a double otherwise. -/
inductive Number where
  | natural (n : Nat)
  | negative (n : Int)
  /-- Any other number. -/
  | float (x : Float)

/-- A double in the fewest digits that read back: with a point, and at least one
digit after it, if its first digit stands between the fifth place after the point
and the sixteenth before it; otherwise with an exponent, which always has a sign. -/
def floatText (x : Float) : String :=
  match Decimal.Binary.ofFloat? x with
  | none => if x.isNaN then "NaN" else if x < 0 then "-inf" else "inf"
  | some b =>
    let shortest := Decimal.Shortest.ofBinary b
    let digits := Nat.toDigits 10 shortest.digits
    let leading := shortest.exponent + digits.length - 1
    let body :=
      if -5 ≤ leading ∧ leading ≤ 15 then
        if 0 ≤ shortest.exponent then
          digits ++ List.replicate shortest.exponent.toNat '0' ++ ['.', '0']
        else if 0 ≤ leading then
          digits.take (leading + 1).toNat ++ '.' :: digits.drop (leading + 1).toNat
        else ['0', '.'] ++ List.replicate (-leading - 1).toNat '0' ++ digits
      else
        let fraction := if digits.length = 1 then [] else '.' :: digits.drop 1
        digits.take 1 ++ fraction ++ ['e', if leading < 0 then '-' else '+'] ++
          Nat.toDigits 10 leading.natAbs
    String.ofList (if b.negative then '-' :: body else body)

/-- What a document holds in place of the expected value. -/
inductive Found where
  | null
  | boolean (b : Bool)
  | number (n : Number)
  | string (s : String)
  /-- A list, of which no element is read. -/
  | sequence
  /-- An object, of which no member is read. -/
  | map

def Found.text : Found → String
  | null => "null"
  | boolean b => s!"boolean `{b}`"
  | number (.natural n) => s!"integer `{n}`"
  | number (.negative n) => s!"integer `{n}`"
  | number (.float x) => s!"floating point `{floatText x}`"
  | string s => "string " ++ Text.quote s
  | sequence => "sequence"
  | map => "map"

/-- A part of a document in which its text can end. -/
inductive Part where
  | list
  | object
  | string
  /-- Where a value has to begin or go on. -/
  | value
  deriving DecidableEq, Repr

def Part.text : Part → String
  | list => "a list"
  | object => "an object"
  | string => "a string"
  | value => "a value"

/-- A way in which a text is not JSON. -/
inductive Malformation where
  | expectedValue
  /-- A word that begins as a literal name does and goes on otherwise. -/
  | expectedIdent
  | expectedColon
  | expectedCommaOrBracket
  | expectedCommaOrBrace
  | keyNotString
  | trailingComma
  /-- Something after the end of the document, or a surplus element. -/
  | trailingCharacters
  /-- A number that lacks digits, or has a needless leading zero. -/
  | invalidNumber
  | numberOutOfRange
  | invalidEscape
  | controlCharacter
  /-- Half of a surrogate pair where a whole one is needed. -/
  | loneSurrogate
  /-- A leading surrogate that no escape follows. -/
  | unfinishedSurrogatePair
  deriving DecidableEq, Repr

def Malformation.message : Malformation → String
  | expectedValue => "expected value"
  | expectedIdent => "expected ident"
  | expectedColon => "expected `:`"
  | expectedCommaOrBracket => "expected `,` or `]`"
  | expectedCommaOrBrace => "expected `,` or `\x7d`"
  | keyNotString => "key must be a string"
  | trailingComma => "trailing comma"
  | trailingCharacters => "trailing characters"
  | invalidNumber => "invalid number"
  | numberOutOfRange => "number out of range"
  | invalidEscape => "invalid escape"
  | controlCharacter => "control character (\\u0000-\\u001F) found while parsing a string"
  | loneSurrogate => "lone leading surrogate in hex escape"
  | unfinishedSurrogatePair => "unexpected end of hex escape"

/-- A way in which JSON has the wrong shape. -/
inductive Mismatch where
  | invalidType (found : Found) (expected : String)
  /-- A value of the expected kind that is out of range. -/
  | invalidValue (found : Found) (expected : String)
  | invalidLength (length : Nat) (expected : String)
  | missingField (name : String)
  | duplicateField (name : String)
  | unknownVariant (name : String) (expected : List String)

/-- The names to choose from: two joined by `or`, more of them in a list. -/
def choiceText : List String → String
  | [a, b] => s!"`{a}` or `{b}`"
  | names => "one of " ++ String.intercalate ", " (names.map fun name => s!"`{name}`")

def Mismatch.message : Mismatch → String
  | invalidType found expected => s!"invalid type: {found.text}, expected {expected}"
  | invalidValue found expected => s!"invalid value: {found.text}, expected {expected}"
  | invalidLength length expected => s!"invalid length {length}, expected {expected}"
  | missingField name => s!"missing field `{name}`"
  | duplicateField name => s!"duplicate field `{name}`"
  | unknownVariant name expected => s!"unknown variant `{name}`, expected {choiceText expected}"

/-- The first problem met in a document. -/
inductive Fault where
  | ended (part : Part)
  | malformed (problem : Malformation)
  /-- The text is JSON so far, but not of the expected shape. -/
  | mismatch (problem : Mismatch)

def Fault.message : Fault → String
  | ended part => s!"EOF while parsing {part.text}"
  | malformed problem => problem.message
  | mismatch problem => problem.message

end BranchSelector.Json
