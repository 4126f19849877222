import BranchSelector.Decimal.Binary

/-!
# Decimals with a fixed number of places

A double is written with a given number of places after the point by rounding its
exact value to the nearest multiple of the last place, a value halfway between two
going to the even one.
-/

namespace BranchSelector.Decimal

/-- The whole number nearest to a quotient; of two equally near, the even one. -/
def roundHalfEven (num den : Nat) : Nat :=
  let quotient := num / den
  let rest := num % den
  if 2 * rest < den then quotient
  else if den < 2 * rest then quotient + 1
  else if quotient % 2 = 0 then quotient
  else quotient + 1

/-- The digits of `units`, with a point before the last `places` of them. -/
def pointBefore (places units : Nat) : String :=
  let digits := (Nat.toDigits 10 units).leftpad (places + 1) '0'
  let whole := digits.take (digits.length - places)
  let fraction := digits.drop (digits.length - places)
  if places = 0 then String.ofList whole else String.ofList (whole ++ '.' :: fraction)

/-- A double with `places` digits after the point. -/
def fixed (places : Nat) (x : Float) : String :=
  match Binary.ofFloat? x with
  | some b =>
    let (num, den) := b.ratio places
    (if b.negative then "-" else "") ++ pointBefore places (roundHalfEven num den)
  | none => if x.isNaN then "NaN" else if x < 0 then "-inf" else "inf"

end BranchSelector.Decimal
