import BranchSelector.Violation

/-!
# Saturating counters

A saturating counter moves by one and stops at its bounds instead of wrapping.
Feature weights, the hysteresis on the correlator's use and the two-bit counters
of gshare are all counters of this kind.

`CounterRange.step` is the move. A value inside the range stays inside
(`CounterRange.contains_step`); a value outside is pulled to a bound.
-/

namespace BranchSelector

/-- The inclusive bounds of a counter. -/
structure CounterRange where
  min : Int
  max : Int
  deriving DecidableEq, Repr

namespace CounterRange

/-- The range of a two's-complement counter of some width. -/
def signed (bits : Nat) : CounterRange :=
  let half : Nat := 1 <<< (bits - 1)
  ⟨-half, half - 1⟩

/-- The range between two bounds, of which the first must not exceed the second. -/
def between (min max : Int) : Except Violation CounterRange :=
  if min ≤ max then .ok ⟨min, max⟩ else .error .emptyRange

def contains (range : CounterRange) (value : Int) : Bool :=
  decide (range.min ≤ value ∧ value ≤ range.max)

/-- Moves a value by one toward the upper bound (`up`) or the lower bound. -/
def step (range : CounterRange) (value : Int) (up : Bool) : Int :=
  if up then
    if value < range.max then value + 1 else range.max
  else
    if range.min < value then value - 1 else range.min

theorem contains_iff {range : CounterRange} {value : Int} :
    range.contains value = true ↔ range.min ≤ value ∧ value ≤ range.max := by
  simp [contains]

theorem contains_step {range : CounterRange} {value : Int} (up : Bool)
    (h : range.contains value = true) : range.contains (range.step value up) = true := by
  rw [contains_iff] at h ⊢
  grind [step]

/-- The value of the range nearest to a given one. -/
def clamp (range : CounterRange) (value : Int) : Int :=
  if value < range.min then range.min
  else if range.max < value then range.max
  else value

end CounterRange

/-- A value together with the bounds it saturates at. -/
structure Counter where
  range : CounterRange
  value : Int
  deriving DecidableEq, Repr

namespace Counter

/-- A counter that starts at the value of its range nearest to `initial`. -/
def ofRange (range : CounterRange) (initial : Int) : Counter :=
  ⟨range, range.clamp initial⟩

def update (counter : Counter) (up : Bool) : Counter :=
  { counter with value := counter.range.step counter.value up }

@[simp]
theorem range_update (counter : Counter) (up : Bool) :
    (counter.update up).range = counter.range := rfl

@[simp]
theorem value_update (counter : Counter) (up : Bool) :
    (counter.update up).value = counter.range.step counter.value up := rfl

end Counter

end BranchSelector
