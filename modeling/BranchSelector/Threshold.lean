/-!
# The adaptive threshold

The confidence threshold theta follows a training counter. Every wrong vote moves the
counter up by one, and every correct vote that is no stronger than theta moves it down
by one. At either end the counter goes back to its midpoint and theta moves by one: up
at the upper end, and down at the lower end as long as it is above zero.
-/

namespace BranchSelector

/-- The way in which theta moved. -/
inductive ThetaChange where
  | raised
  | lowered
  deriving DecidableEq, Repr

/-- The threshold and its training counter. -/
structure Threshold where
  /-- The threshold after a reset. -/
  initialTheta : Int
  bits : Nat
  theta : Int
  counter : Nat
  deriving DecidableEq, Repr

namespace Threshold

/-- The greatest value of the threshold and of a vote's magnitude. -/
def wordMax : Int := 0x7FFFFFFFFFFFFFFF

/-- The magnitude of a vote, which stops at the greatest value of its word. -/
def magnitude (sum : Int) : Int :=
  min sum.natAbs wordMax

def midpoint (bits : Nat) : Nat :=
  (1 <<< (bits - 1)) - 1

/-- The upper end of a training counter of some width. -/
def limit (bits : Nat) : Nat :=
  (1 <<< bits) - 1

/-- A threshold whose training counter stands at its midpoint. -/
def start (theta : Int) (bits : Nat) : Threshold :=
  ⟨theta, bits, theta, midpoint bits⟩

def reset (threshold : Threshold) : Threshold :=
  start threshold.initialTheta threshold.bits

/-- A wrong vote. -/
def onWrong (threshold : Threshold) : Threshold × Option ThetaChange :=
  if limit threshold.bits ≤ threshold.counter + 1 then
    ({ threshold with
        counter := midpoint threshold.bits
        theta := min (threshold.theta + 1) wordMax },
      some .raised)
  else ({ threshold with counter := threshold.counter + 1 }, none)

/-- A correct vote that is no stronger than theta. -/
def onWeak (threshold : Threshold) : Threshold × Option ThetaChange :=
  if threshold.counter - 1 = 0 then
    if 0 < threshold.theta then
      ({ threshold with
          counter := midpoint threshold.bits
          theta := threshold.theta - 1 },
        some .lowered)
    else ({ threshold with counter := midpoint threshold.bits }, none)
  else ({ threshold with counter := threshold.counter - 1 }, none)

/-- Takes in one vote and whether it was correct. Answers how theta moved, if it did. -/
def update (threshold : Threshold) (correct : Bool) (sum : Int) :
    Threshold × Option ThetaChange :=
  if !correct then threshold.onWrong
  else if magnitude sum ≤ threshold.theta then threshold.onWeak
  else (threshold, none)

@[simp]
theorem update_wrong (threshold : Threshold) (sum : Int) :
    threshold.update false sum = threshold.onWrong := rfl

theorem update_weak {threshold : Threshold} {sum : Int} (h : magnitude sum ≤ threshold.theta) :
    threshold.update true sum = threshold.onWeak := by
  simp [update, h]

theorem update_strong {threshold : Threshold} {sum : Int} (h : threshold.theta < magnitude sum) :
    threshold.update true sum = (threshold, none) := by
  simp [update, Int.not_le.2 h]

end Threshold

end BranchSelector
