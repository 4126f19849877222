import BranchSelector.Threshold
import Mathlib.Algebra.Group.Nat.Defs

/-!
# What one vote does to the threshold

`Threshold.Move` lists what a vote can do, and `Threshold.move_update` says that an update is one of
these moves. A wrong vote counts up (`up`), and at the upper end of the counter it raises theta
(`raise`). A weak vote counts down (`down`); once it has drained the counter it lowers theta
(`lower`), unless theta is at its floor (`rest`). A strong vote changes nothing (`strong`).

What every update keeps follows move by move: the threshold that a reset goes back to
(`reset_update`), the width of the counter (`bits_update`), its range (`InRange.update`) and that
theta is not negative (`theta_update_nonneg`).
-/

namespace BranchSelector

namespace Threshold

theorem magnitude_nonneg (sum : Int) : 0 ≤ magnitude sum := by
  have hmax : 0 ≤ wordMax := by decide
  unfold magnitude
  omega

/-! ## The ends of the training counter -/

theorem midpoint_add_one (bits : Nat) : midpoint bits + 1 = 2 ^ (bits - 1) := by
  have hpos : 0 < 2 ^ (bits - 1) := Nat.two_pow_pos _
  rw [midpoint, Nat.one_shiftLeft]
  omega

/-- The midpoint is as far from the upper end as from the lower one, but for one step. -/
theorem limit_eq {bits : Nat} (h : 1 ≤ bits) : limit bits = 2 * midpoint bits + 1 := by
  have hmid := midpoint_add_one bits
  have hpow := Nat.two_pow_pred_add_two_pow_pred h
  rw [limit, Nat.one_shiftLeft]
  omega

theorem one_le_midpoint {bits : Nat} (h : 2 ≤ bits) : 1 ≤ midpoint bits := by
  have hmid := midpoint_add_one bits
  have hpow : 2 ^ 1 ≤ 2 ^ (bits - 1) := Nat.pow_le_pow_right (by decide) (by omega)
  omega

/-! ## Moves -/

/-- What a vote can do to a threshold, with the answer. -/
inductive Move (t : Threshold) : Bool → Int → Threshold × Option ThetaChange → Prop
  /-- A wrong vote below the upper end. -/
  | up {sum : Int} (room : t.counter + 1 < limit t.bits) :
    Move t false sum ({ t with counter := t.counter + 1 }, none)
  /-- A wrong vote that reaches the upper end. -/
  | raise {sum : Int} (full : limit t.bits ≤ t.counter + 1) :
    Move t false sum
      ({ t with counter := midpoint t.bits, theta := min (t.theta + 1) wordMax }, some .raised)
  /-- A weak vote above the lower end. -/
  | down {sum : Int} (weak : magnitude sum ≤ t.theta) (room : 1 < t.counter) :
    Move t true sum ({ t with counter := t.counter - 1 }, none)
  /-- A weak vote that drains the counter. -/
  | lower {sum : Int} (weak : magnitude sum ≤ t.theta) (drained : t.counter ≤ 1)
    (above : 0 < t.theta) :
    Move t true sum
      ({ t with counter := midpoint t.bits, theta := t.theta - 1 }, some .lowered)
  /-- A weak vote that drains the counter when theta cannot go down. -/
  | rest {sum : Int} (weak : magnitude sum ≤ t.theta) (drained : t.counter ≤ 1)
    (floor : t.theta ≤ 0) :
    Move t true sum ({ t with counter := midpoint t.bits }, none)
  /-- A strong vote. -/
  | strong {sum : Int} (strong : t.theta < magnitude sum) : Move t true sum (t, none)

theorem move_onWrong (t : Threshold) (sum : Int) : t.Move false sum t.onWrong := by
  unfold onWrong
  by_cases hfull : limit t.bits ≤ t.counter + 1
  · rw [if_pos hfull]
    exact .raise hfull
  · rw [if_neg hfull]
    exact .up (by omega)

theorem move_onWeak {t : Threshold} {sum : Int} (weak : magnitude sum ≤ t.theta) :
    t.Move true sum t.onWeak := by
  unfold onWeak
  by_cases hdrained : t.counter - 1 = 0
  · rw [if_pos hdrained]
    by_cases habove : 0 < t.theta
    · rw [if_pos habove]
      exact .lower weak (by omega) habove
    · rw [if_neg habove]
      exact .rest weak (by omega) (by omega)
  · rw [if_neg hdrained]
    exact .down weak (by omega)

/-- Every update is one of the moves. -/
theorem move_update (t : Threshold) (correct : Bool) (sum : Int) :
    t.Move correct sum (t.update correct sum) := by
  cases correct with
  | false => exact move_onWrong t sum
  | true =>
    by_cases hweak : magnitude sum ≤ t.theta
    · rw [update_weak hweak]
      exact move_onWeak hweak
    · have hstrong : t.theta < magnitude sum := Int.not_le.1 hweak
      rw [update_strong hstrong]
      exact .strong hstrong

/-- An update keeps what a reset goes back to. -/
theorem reset_update (t : Threshold) (correct : Bool) (sum : Int) :
    (t.update correct sum).1.reset = t.reset := by
  have hmove := t.move_update correct sum
  generalize t.update correct sum = after at hmove ⊢
  cases hmove <;> rfl

theorem bits_update (t : Threshold) (correct : Bool) (sum : Int) :
    (t.update correct sum).1.bits = t.bits := by
  show (t.update correct sum).1.reset.bits = t.reset.bits
  rw [reset_update]

/-- Theta is lowered only from above zero. -/
theorem theta_update_nonneg {t : Threshold} (h : 0 ≤ t.theta) (correct : Bool) (sum : Int) :
    0 ≤ (t.update correct sum).1.theta := by
  have hmove := t.move_update correct sum
  generalize t.update correct sum = after at hmove ⊢
  have hmax : 0 ≤ wordMax := by decide
  cases hmove with
  | up _ => exact h
  | raise _ =>
    show 0 ≤ min (t.theta + 1) wordMax
    omega
  | down _ _ => exact h
  | lower _ _ above => exact Int.le_sub_one_of_lt above
  | rest _ _ _ => exact h
  | strong _ => exact h

/-! ## The range of the training counter -/

/-- The training counter lies strictly between its two ends. -/
def InRange (t : Threshold) : Prop :=
  1 ≤ t.counter ∧ t.counter < limit t.bits

theorem inRange_midpoint {bits : Nat} (h : 2 ≤ bits) :
    1 ≤ midpoint bits ∧ midpoint bits < limit bits := by
  have hmid := one_le_midpoint h
  have hlimit := limit_eq (Nat.le_of_succ_le h)
  omega

/-- An update leaves the training counter between its ends: where it would reach one, it goes
back to the midpoint. -/
theorem InRange.update {t : Threshold} (h : t.InRange) (hbits : 2 ≤ t.bits) (correct : Bool)
    (sum : Int) : (t.update correct sum).1.InRange := by
  have hmid := inRange_midpoint hbits
  obtain ⟨hlow, hhigh⟩ := h
  have hmove := t.move_update correct sum
  generalize t.update correct sum = after at hmove ⊢
  cases hmove with
  | up room => exact ⟨Nat.le_add_left 1 _, room⟩
  | raise _ => exact hmid
  | down _ room =>
    constructor
    · exact Nat.le_sub_of_add_le room
    · exact Nat.lt_of_le_of_lt (Nat.sub_le _ _) hhigh
  | lower _ _ _ => exact hmid
  | rest _ _ _ => exact hmid
  | strong _ => exact ⟨hlow, hhigh⟩

end Threshold

end BranchSelector
