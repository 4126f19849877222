import BranchSelector.Json.Fault

/-!
# Reading a document as a stream

A `Reader` takes characters off the front of a text and stops at the first fault.
Here are its primitives: looking at the next character, with the white space of JSON
before it skipped or not, taking it, and taking the rest of a word.
-/

namespace BranchSelector.Json

/-- A reader of values from the front of a text. -/
abbrev Reader := StateT (List Char) (Except Fault)

namespace Reader

variable {α : Type}

/-- Stops because the text ends within some part. -/
def ended (part : Part) : Reader α := throw (.ended part)

/-- Stops because the text is not JSON here. -/
def malformed (problem : Malformation) : Reader α := throw (.malformed problem)

/-- Stops because the document has the wrong shape. -/
def mismatch (problem : Mismatch) : Reader α := throw (.mismatch problem)

def isSpace (c : Char) : Bool :=
  c == ' ' || c == '\t' || c == '\n' || c == '\r'

/-- The next character, which stays in the text. -/
def peek : Reader (Option Char) := do
  return (← get).head?

/-- The next character that is not white space, which stays in the text. -/
def peekToken : Reader (Option Char) := do
  modify (·.dropWhile isSpace)
  peek

/-- Takes the next character away. -/
def advance : Reader Unit :=
  modify List.tail

/-- Takes the characters of a word, which must come next. -/
def word : List Char → Reader Unit
  | [] => return
  | c :: cs => do
    match ← peek with
    | none => ended .value
    | some d => if d = c then do advance; word cs else malformed .expectedIdent

def digits : Reader (List Char) := do
  let text ← get
  set (text.dropWhile Char.isDigit)
  return text.takeWhile Char.isDigit

/-- Takes the colon between the name of a member and its value. -/
def colon : Reader Unit := do
  match ← peekToken with
  | some ':' => advance
  | some _ => malformed .expectedColon
  | none => ended .object

/-- Reads a whole text, of which nothing but white space may be left. -/
def decode (reader : Reader α) (text : String) : Except Fault α := do
  let (value, rest) ← reader.run text.toList
  if (rest.dropWhile isSpace).isEmpty then return value
  throw (.malformed .trailingCharacters)

end Reader

end BranchSelector.Json
