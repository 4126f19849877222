import BranchSelector.Json.Skip

/-!
# Reading values of a known shape

A `Reader` for each kind of value that a document may hold: bounded natural numbers,
booleans, lists, one name out of several, and records.

A record is written as an object whose members come in any order, or as a list of
its fields in their own order. `Shape` describes it: the fields, which of them have
to be there, and the value that the fields are written into. A member of an unknown
name is skipped, one of a known name may come once.
-/

namespace BranchSelector.Json

namespace Reader

variable {α : Type}

/-- Refuses the value that comes next, whose first character is given: it is well
formed as far as it is read, but something else was expected. -/
def unexpected (first : Char) (expected : String) : Reader α := do
  let refuse (found : Found) : Reader α := mismatch (.invalidType found expected)
  match first with
  | 'n' => do
    word ['n', 'u', 'l', 'l']
    refuse .null
  | 't' => do
    word ['t', 'r', 'u', 'e']
    refuse (.boolean true)
  | 'f' => do
    word ['f', 'a', 'l', 's', 'e']
    refuse (.boolean false)
  | '"' => do refuse (.string (← literal))
  | '[' => refuse .sequence
  | '\x7b' => refuse .map
  | c =>
    if c = '-' ∨ c.isDigit then do refuse (.number (← number))
    else malformed .expectedValue

/-- Reads a natural number below some bound. -/
def natural (bound : Nat) (expected : String) : Reader Nat := do
  match ← peekToken with
  | none => ended .value
  | some c =>
    if c = '-' ∨ c.isDigit then
      match ← number with
      | .natural n =>
        if n < bound then return n else mismatch (.invalidValue (.number (.natural n)) expected)
      | .negative n => mismatch (.invalidValue (.number (.negative n)) expected)
      | .float x => mismatch (.invalidType (.number (.float x)) expected)
    else unexpected c expected

def byte : Reader UInt8 := return UInt8.ofNat (← natural UInt8.size "u8")

def natural32 : Reader Nat := natural UInt32.size "u32"

def natural64 : Reader Nat := natural UInt64.size "u64"

/-- Reads a size, a natural number that fits 64 bits. -/
def size : Reader Nat := natural UInt64.size "usize"

def word64 : Reader UInt64 := return UInt64.ofNat (← natural64)

def boolean : Reader Bool := do
  match ← peekToken with
  | none => ended .value
  | some 't' => do
    word ['t', 'r', 'u', 'e']
    return true
  | some 'f' => do
    word ['f', 'a', 'l', 's', 'e']
    return false
  | some c => unexpected c "a boolean"

/-- Whether another element of a list comes next; the comma before it is taken. -/
def moreElements (atStart : Bool) : Reader Bool := do
  match ← peekToken with
  | none => ended .list
  | some ']' => return false
  | some c => do
    if atStart then return true
    if c ≠ ',' then malformed .expectedCommaOrBracket
    advance
    match ← peekToken with
    | none => ended .value
    | some ']' => malformed .trailingComma
    | some _ => return true

/-- Whether another member of an object comes next; the comma before it is taken. -/
def moreMembers (atStart : Bool) : Reader Bool := do
  match ← peekToken with
  | none => ended .object
  | some '\x7d' => return false
  | some c => do
    if atStart then
      if c ≠ '"' then malformed .keyNotString
      return true
    if c ≠ ',' then malformed .expectedCommaOrBrace
    advance
    match ← peekToken with
    | none => ended .value
    | some '"' => return true
    | some '\x7d' => malformed .trailingComma
    | some _ => malformed .keyNotString

/-- Takes the bracket that ends a list, of which no element may be left. -/
def endList : Reader Unit := do
  match ← peekToken with
  | none => ended .list
  | some ']' => advance
  | some ',' => do
    advance
    if (← peekToken) = some ']' then malformed .trailingComma else malformed .trailingCharacters
  | some _ => malformed .trailingCharacters

/-- Reads the elements that are left of a list, with at most `fuel` steps. -/
def elements (item : Reader α) : Nat → Bool → Reader (List α)
  | 0, _ => ended .list
  | fuel + 1, atStart => do
    if ← moreElements atStart then
      let x ← item
      let xs ← elements item fuel false
      return x :: xs
    return []

def list (item : Reader α) : Reader (List α) := do
  match ← peekToken with
  | none => ended .value
  | some '[' => do
    advance
    let xs ← elements item ((← get).length + 1) true
    endList
    return xs
  | some c => unexpected c "a sequence"

/-- The value that a name stands for. -/
def choose (options : List (String × α)) (name : String) : Reader α :=
  match options.lookup name with
  | some x => return x
  | none => mismatch (.unknownVariant name (options.map (·.1)))

/-- Reads one name out of several, alone or as the only member of an object, with no
value. -/
def choice (options : List (String × α)) : Reader α := do
  match ← peekToken with
  | none => ended .value
  | some '"' => do choose options (← literal)
  | some '\x7b' => do
    advance
    let x ← match ← peekToken with
      | none => ended .object
      | some '"' => do choose options (← literal)
      | some '\x7d' => malformed .expectedValue
      | some _ => malformed .keyNotString
    colon
    match ← peekToken with
    | none => ended .value
    | some 'n' => word ['n', 'u', 'l', 'l']
    | some c => unexpected c "unit"
    match ← peekToken with
    | none => ended .object
    | some '\x7d' => advance
    | some _ => malformed .expectedValue
    return x
  | some _ => malformed .expectedValue

end Reader

/-- One field of a record. -/
structure Field (α : Type) where
  name : String
  required : Bool
  /-- Reads a value and answers how it is written into the record. -/
  read : Reader (α → α)

/-- A field that has to be there. -/
def Field.mandatory {α β : Type} (name : String) (reader : Reader β) (write : β → α → α) :
    Field α :=
  ⟨name, true, write <$> reader⟩

/-- A field that keeps its initial value when it is absent. -/
def Field.optional {α β : Type} (name : String) (reader : Reader β) (write : β → α → α) :
    Field α :=
  ⟨name, false, write <$> reader⟩

/-- A record: its name, the value that its fields are written into, and its fields. -/
structure Shape (α : Type) where
  name : String
  /-- The record before any field is read. -/
  initial : α
  fields : List (Field α)

namespace Shape

open Reader

variable {α : Type}

/-- Reads the members that are left of an object, with at most `fuel` steps. Answers
the record and the names of the fields that were there. -/
def members (shape : Shape α) : Nat → Bool → List String → α → Reader (α × List String)
  | 0, _, _, _ => ended .object
  | fuel + 1, atStart, seen, record => do
    if ← moreMembers atStart then
      let name ← literal
      match shape.fields.find? (·.name == name) with
      | some field => do
        if name ∈ seen then mismatch (.duplicateField name)
        colon
        let write ← field.read
        members shape fuel false (name :: seen) (write record)
      | none => do
        colon
        skipValue
        members shape fuel false seen record
    else return (record, seen)

/-- Reads the record as an object, of which the opening brace is gone. -/
def object (shape : Shape α) : Reader α := do
  let (record, seen) ← shape.members ((← get).length + 1) true [] shape.initial
  match shape.fields.find? fun field => field.required && !seen.contains field.name with
  | some field => mismatch (.missingField field.name)
  | none => do
    advance
    return record

/-- What a list of too few elements should have been. -/
def listText (shape : Shape α) : String :=
  let n := shape.fields.length
  let noun := if n = 1 then "element" else "elements"
  s!"struct {shape.name} with {n} {noun}"

/-- Reads fields off a list in their own order, the first of them being number `i`. -/
def positional (shape : Shape α) : Nat → Bool → List (Field α) → α → Reader α
  | _, _, [], record => return record
  | i, atStart, field :: fields, record => do
    if ← moreElements atStart then
      let write ← field.read
      positional shape (i + 1) false fields (write record)
    else if field.required then mismatch (.invalidLength i shape.listText)
    else positional shape (i + 1) atStart fields record

/-- Reads a record. -/
def reader (shape : Shape α) : Reader α := do
  match ← peekToken with
  | none => ended .value
  | some '[' => do
    advance
    let record ← shape.positional 0 true shape.fields shape.initial
    endList
    return record
  | some '\x7b' => do
    advance
    shape.object
  | some c => unexpected c s!"struct {shape.name}"

end Shape

end BranchSelector.Json
