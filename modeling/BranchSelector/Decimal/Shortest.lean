import BranchSelector.Decimal.Binary

/-!
# The shortest decimal of a double

Of all decimals that a reader rounds to a given double, the shortest has the
largest unit; of those with that unit, it is the one nearest to the double.

The reals that round to a double form an interval about its exact value, up to
half the distance to the next double on either side. The two ends belong to it
exactly if the mantissa is even, as a tie goes to the even neighbour. A unit
`10 ^ e` has a multiple in the interval exactly if one of the value's two
neighbours among the multiples lies in it, so `Shortest.ofBinary` walks down the
units and takes the first at which a neighbour fits.
-/

namespace BranchSelector.Decimal

/-- The decimal `digits · 10 ^ exponent`. -/
structure Shortest where
  digits : Nat
  exponent : Int
  deriving DecidableEq, Repr

namespace Shortest

/-- Whether a double is the least of its exponent, so that the doubles below it lie
at half the distance of those above. -/
def atBinadeStart (x : Binary) : Bool :=
  x.mantissa == 1 <<< 52 && decide (-1074 < x.exponent)

/-- Whether `digits · 10 ^ e` rounds to the double. The comparison is made in quarters
of the double's unit. -/
def fits (x : Binary) (e : Int) (digits : Nat) : Bool :=
  let (num, den) := Binary.ratio { x with mantissa := 1, exponent := x.exponent - 2 } (-e)
  let low := (4 * x.mantissa - if atBinadeStart x then 1 else 2) * num
  let high := (4 * x.mantissa + 2) * num
  let value := digits * den
  if x.mantissa % 2 = 0 then decide (low ≤ value ∧ value ≤ high)
  else decide (low < value ∧ value < high)

/-- The multiple of `10 ^ e` that is nearest to the double among those that round to it. -/
def atUnit? (x : Binary) (e : Int) : Option Shortest :=
  let (num, den) := x.ratio (-e)
  let below := num / den
  let rest := num % den
  match fits x e below, fits x e (below + 1) with
  | true, true =>
    if 2 * rest < den ∨ 2 * rest = den ∧ below % 2 = 0 then some ⟨below, e⟩
    else some ⟨below + 1, e⟩
  | true, false => some ⟨below, e⟩
  | false, true => some ⟨below + 1, e⟩
  | false, false => none

/-- The units that a double can need, from the largest down. -/
def units : List Int :=
  (List.range 634).map fun (i : Nat) => 309 - i

/-- The shortest decimal that rounds to the double; zero is its own. -/
def ofBinary (x : Binary) : Shortest :=
  if x.mantissa = 0 then ⟨0, 0⟩
  else (units.findSome? (atUnit? x)).getD ⟨0, 0⟩

end Shortest

end BranchSelector.Decimal
