/-!
# The exact value of a double

A finite double is a whole number of powers of two. `Binary` holds that number and
the exponent, `Binary.ofFloat?` reads them off the 64 bits of a double. The texts of
doubles are worked out from this value in exact arithmetic.
-/

namespace BranchSelector.Decimal

/-- The number `± mantissa · 2 ^ exponent`. -/
structure Binary where
  /-- Whether the number is below zero, or the zero that has a sign. -/
  negative : Bool
  mantissa : Nat
  exponent : Int
  deriving DecidableEq, Repr

namespace Binary

/-- The value that 64 bits encode, unless they encode an infinity or no number.

The top bit is the sign and the next eleven are the biased exponent; the other 52
follow a leading one, which is absent when the biased exponent is zero. -/
def ofBits? (bits : UInt64) : Option Binary :=
  let biased := (bits.toNat >>> 52) % 2048
  let fraction := bits.toNat % (1 <<< 52)
  let negative := decide (1 <<< 63 ≤ bits.toNat)
  if biased = 2047 then none
  else if biased = 0 then some ⟨negative, fraction, -1074⟩
  else some ⟨negative, (1 <<< 52) + fraction, biased - 1075⟩

def ofFloat? (x : Float) : Option Binary :=
  ofBits? x.toBits

/-- Numerator and denominator of the magnitude times `10 ^ shift`. -/
def ratio (x : Binary) (shift : Int) : Nat × Nat :=
  ((x.mantissa <<< x.exponent.toNat) * Nat.pow 10 shift.toNat,
    (1 <<< (-x.exponent).toNat) * Nat.pow 10 (-shift).toNat)

end Binary

end BranchSelector.Decimal
