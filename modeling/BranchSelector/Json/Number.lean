import BranchSelector.Json.Reader

/-!
# Numbers

A number without fraction and exponent that fits 64 bits is whole. Any other is a
double: its digits are gathered into a significand for as long as that fits 64 bits,
the decimal point and the digits left over move the exponent, and the significand is
then multiplied or divided by a power of ten. Both steps round, so the double is not
always the nearest one to the decimal.
-/

namespace BranchSelector.Json

def digitValue (c : Char) : Nat :=
  c.toNat - '0'.toNat

/-- The number that a list of decimal digits writes. -/
def digitsValue (ds : List Char) : Nat :=
  ds.foldl (fun n d => 10 * n + digitValue d) 0

/-- Appends digits to a significand until one of them would take it out of 64 bits.
Answers the significand and how many digits it took. -/
def absorb (significand : Nat) : List Char → Nat × Nat
  | [] => (significand, 0)
  | d :: ds =>
    let longer := 10 * significand + digitValue d
    if longer < UInt64.size then
      let (final, count) := absorb longer ds
      (final, count + 1)
    else (significand, 0)

def tenPow (n : Nat) : Float :=
  Float.ofScientific 1 false n

/-- A double times `10 ^ e`, unless that is out of range. Powers beyond the largest
that a double holds are divided out in steps. -/
def scaled? (x : Float) (e : Int) : Option Float :=
  if 0 ≤ e then
    if e ≤ 308 then
      let product := x * tenPow e.toNat
      if product.isInf then none else some product
    else if x == 0 then some x else none
  else if -308 ≤ e then some (x / tenPow (-e).toNat)
  else if x == 0 then some x
  else scaled? (x / tenPow 308) (e + 308)
  termination_by (-e).toNat
  decreasing_by omega

namespace Reader

/-- The double `± significand · 10 ^ e`. -/
def float (negative : Bool) (significand : Nat) (e : Int) : Reader Number := do
  match scaled? (UInt64.ofNat significand).toFloat e with
  | some x => return .float (if negative then -x else x)
  | none => malformed .numberOutOfRange

/-- The digits that have to come next. -/
def someDigits : Reader (List Char) := do
  let ds ← digits
  if ds.isEmpty then
    match ← peek with
    | some _ => malformed .invalidNumber
    | none => ended .value
  return ds

/-- Reads an exponent, of which the letter is gone, and finishes the number. -/
def exponentPart (negative : Bool) (significand : Nat) (start : Int) : Reader Number := do
  let sign ← peek
  if sign = some '+' ∨ sign = some '-' then advance
  let size := digitsValue (← someDigits)
  if 1 <<< 31 ≤ size then
    if significand ≠ 0 ∧ sign ≠ some '-' then malformed .numberOutOfRange
    float negative 0 0
  else float negative significand (if sign = some '-' then start - size else start + size)

/-- Reads an exponent if there is one, and finishes the number. -/
def exponent (negative : Bool) (significand : Nat) (start : Int) : Reader Number := do
  match ← peek with
  | some 'e' | some 'E' => do
    advance
    exponentPart negative significand start
  | _ => float negative significand start

/-- The whole number of a significand that fits 64 bits. Below zero it has to fit 63
bits, and zero with a sign is a double. -/
def whole (negative : Bool) (significand : Nat) : Reader Number :=
  if !negative then return .natural significand
  else if 0 < significand ∧ significand ≤ 1 <<< 63 then return .negative (-significand)
  else float negative significand 0

/-- Reads the number after its sign. -/
def unsigned (negative : Bool) : Reader Number := do
  let ds ← someDigits
  if ds.head? = some '0' ∧ 1 < ds.length then malformed .invalidNumber
  let (significand, taken) := absorb 0 ds
  let left : Int := ds.length - taken
  match ← peek with
  | some '.' => do
    advance
    let fraction ← someDigits
    let (significand, taken) := absorb significand fraction
    exponent negative significand (left - taken)
  | some 'e' | some 'E' => exponent negative significand left
  | _ => if left = 0 then whole negative significand else float negative significand left

/-- Reads a number, of which the sign or the first digit is next. -/
def number : Reader Number := do
  if (← peek) = some '-' then
    advance
    unsigned true
  else unsigned false

def skipSomeDigits : Reader Unit := do
  if (← digits).isEmpty then malformed .invalidNumber

def skipExponent : Reader Unit := do
  match ← peek with
  | some 'e' | some 'E' => do
    advance
    let sign ← peek
    if sign = some '+' ∨ sign = some '-' then advance
    skipSomeDigits
  | _ => return

/-- Skips a number, of which the sign or the first digit is next. Its range is not
checked, and a number cut short is malformed. -/
def skipNumber : Reader Unit := do
  if (← peek) = some '-' then advance
  let ds ← digits
  if ds.isEmpty ∨ ds.head? = some '0' ∧ 1 < ds.length then malformed .invalidNumber
  if (← peek) = some '.' then
    advance
    skipSomeDigits
  skipExponent

end Reader

end BranchSelector.Json
