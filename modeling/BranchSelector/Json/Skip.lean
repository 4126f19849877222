import BranchSelector.Json.Literal
import BranchSelector.Json.Number

/-!
# Skipping a value

The value of an unknown member is read over: it has to be JSON, to any depth, and
nothing is kept of it.
-/

namespace BranchSelector.Json.Reader

mutual

/-- Skips a value, with at most `fuel` steps. -/
def skipValueWithin : Nat → Reader Unit
  | 0 => ended .value
  | fuel + 1 => do
    match ← peekToken with
    | none => ended .value
    | some 'n' => word ['n', 'u', 'l', 'l']
    | some 't' => word ['t', 'r', 'u', 'e']
    | some 'f' => word ['f', 'a', 'l', 's', 'e']
    | some '"' => skipLiteral
    | some '[' => do
      advance
      skipElements fuel true
    | some '\x7b' => do
      advance
      skipMembers fuel true
    | some c => if c = '-' ∨ c.isDigit then skipNumber else malformed .expectedValue

/-- Skips what is left of a list; `atStart` before its first element. -/
def skipElements : Nat → Bool → Reader Unit
  | 0, _ => ended .list
  | fuel + 1, atStart => do
    match ← peekToken with
    | none => ended .list
    | some ']' => advance
    | some c => do
      if !atStart then
        if c = ',' then advance else malformed .expectedCommaOrBracket
      skipValueWithin fuel
      skipElements fuel false

/-- Skips what is left of an object; `atStart` before its first member. -/
def skipMembers : Nat → Bool → Reader Unit
  | 0, _ => ended .object
  | fuel + 1, atStart => do
    match ← peekToken with
    | none => ended .object
    | some '\x7d' => advance
    | some c => do
      if !atStart then
        if c = ',' then advance else malformed .expectedCommaOrBrace
      match ← peekToken with
      | none => ended .object
      | some '"' => do
        skipLiteral
        colon
        skipValueWithin fuel
        skipMembers fuel false
      | some _ => malformed .keyNotString

end

/-- Skips a value. A step into a list or an object and one into its first element take
a character together, so twice the number of characters bounds the steps. -/
def skipValue : Reader Unit := do
  skipValueWithin (2 * (← get).length + 2)

end BranchSelector.Json.Reader
