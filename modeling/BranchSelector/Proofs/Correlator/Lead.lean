import BranchSelector.Proofs.Correlator.Range

/-!
# Votes from the side of a direction

A branch that goes one way draws the weights of its tags to one end of their range. Read from the
side of its direction (`toward`), each weight that is trained goes up by one until it is at its end
(`toward_step`), so the vote goes up by one or more until all the weights that vote are there
(`le_toward_weigh_trainedAll`). How far it still has to go is its `Correlator.gap`, which an update
that trains makes smaller (`InRange.gap_learned_le`).
-/

namespace BranchSelector

/-- A value as it counts for a direction: upwards for taken, downwards for not taken. -/
def toward (taken : Bool) (value : Int) : Int :=
  if taken then value else -value

theorem toward_zero (taken : Bool) : toward taken 0 = 0 := by
  cases taken <;> rfl

theorem toward_add (taken : Bool) (a b : Int) :
    toward taken (a + b) = toward taken a + toward taken b := by
  cases taken with
  | true => rfl
  | false => exact Int.neg_add

/-- The greatest weight for a direction. -/
def peak (bits : Nat) (taken : Bool) : Nat :=
  if taken then 2 ^ (bits - 1) - 1 else 2 ^ (bits - 1)

theorem toward_le_peak {bits : Nat} {weight : Int}
    (h : (CounterRange.signed bits).contains weight = true) (taken : Bool) :
    toward taken weight ≤ peak bits taken := by
  have hpos : 0 < 2 ^ (bits - 1) := Nat.two_pow_pos _
  rw [CounterRange.contains_signed_iff] at h
  cases taken with
  | true =>
    show weight ≤ ((2 ^ (bits - 1) - 1 : Nat) : Int)
    omega
  | false =>
    show -weight ≤ ((2 ^ (bits - 1) : Nat) : Int)
    omega

/-- Training moves a weight by one for its direction, unless it is at its end. -/
theorem toward_step {bits : Nat} {weight : Int}
    (h : (CounterRange.signed bits).contains weight = true) (taken : Bool) :
    toward taken ((CounterRange.signed bits).step weight taken) =
      min (toward taken weight + 1) (peak bits taken) := by
  have hpos : 0 < 2 ^ (bits - 1) := Nat.two_pow_pos _
  rw [CounterRange.contains_signed_iff] at h
  rw [CounterRange.step, CounterRange.signed, Nat.one_shiftLeft]
  cases taken with
  | true =>
    simp only [toward, peak, if_true]
    omega
  | false =>
    simp only [toward, peak, Bool.false_eq_true, if_false]
    omega

theorem WeightTable.weight_trained (table : WeightTable) (tag : UInt64) (taken : Bool) :
    (table.trained tag taken).weight tag = table.range.step (table.weight tag) taken :=
  Std.ExtTreeMap.getD_insert_self

theorem toward_weigh_le {tables : List WeightTable} {bits : Nat}
    (h : ∀ table ∈ tables, table.InRange ∧ table.counterBits = bits) (taken : Bool)
    (mask : List Bool) (tags : List UInt64) :
    toward taken (weigh tables mask tags) ≤ (mask.count true * peak bits taken : Nat) := by
  have hweights : ∀ table ∈ tables, ∀ tag, -((2 ^ (bits - 1) : Nat) : Int) ≤ table.weight tag ∧
      table.weight tag ≤ (2 ^ (bits - 1) - 1 : Nat) := by
    intro table ht tag
    obtain ⟨hrange, rfl⟩ := h table ht
    exact hrange.weight_bounds tag
  have hbounds := weigh_bounds hweights mask tags
  cases taken with
  | true => exact hbounds.2
  | false =>
    show -(weigh tables mask tags) ≤ ((mask.count true * 2 ^ (bits - 1) : Nat) : Int)
    omega

/-- Training moves a vote by one or more for its direction, unless every weight that votes is at
its end. -/
theorem le_toward_weigh_trainedAll {tables : List WeightTable} {bits : Nat}
    (h : ∀ table ∈ tables, table.InRange ∧ table.counterBits = bits) (taken : Bool)
    {mask : List Bool} (hmask : mask.length = tables.length) {tags : List UInt64}
    (htags : tags.length = tables.length) :
    min (toward taken (weigh tables mask tags) + 1) (mask.count true * peak bits taken : Nat) ≤
      toward taken (weigh (trainedAll taken tables tags) mask tags) := by
  induction tables generalizing mask tags with
  | nil =>
    rw [List.length_eq_zero_iff.1 hmask]
    show min (toward taken 0 + 1) ((0 * peak bits taken : Nat) : Int) ≤ toward taken 0
    rw [toward_zero, Nat.zero_mul]
    decide
  | cons table tables ih =>
    cases mask with
    | nil => cases hmask
    | cons on mask =>
      cases tags with
      | nil => cases htags
      | cons tag tags =>
        obtain ⟨hrange, hbits⟩ := h table List.mem_cons_self
        have hothers := fun t ht => h t (List.mem_cons_of_mem table ht)
        have hrest := ih hothers (Nat.succ.inj hmask) (Nat.succ.inj htags)
        have hends := toward_weigh_le hothers taken mask tags
        rw [trainedAll, List.zipWith_cons_cons, weigh, weigh, toward_add, toward_add]
        cases on with
        | false =>
          -- A table that does not vote adds nothing before and after.
          simp only [Bool.false_eq_true, if_false, toward_zero, Int.zero_add]
          rw [List.count_cons_of_ne Bool.false_ne_true]
          exact hrest
        | true =>
          -- Either this weight moves, or it is at its end and one of the others has to.
          have hweight := hrange.weight tag
          rw [WeightTable.range, hbits] at hweight
          have hpeak := toward_le_peak hweight taken
          have hstep := toward_step hweight taken
          rw [if_pos rfl, if_pos rfl, table.weight_trained, WeightTable.range, hbits, hstep,
            List.count_cons_self, Nat.succ_mul]
          rw [trainedAll] at hrest
          omega

namespace Correlator

/-! ## The vote of a correlator -/

/-- The vote on some tags from the side of a direction. -/
def lead (c : Correlator) (taken : Bool) (tags : List UInt64) : Int :=
  toward taken (c.vote tags)

/-- The greatest vote for a direction. -/
def reach (config : CorrelatorConfig) (taken : Bool) : Nat :=
  config.enabledFeatures * peak config.counterBits taken

/-- How far the vote is from the greatest one. -/
def gap (config : CorrelatorConfig) (c : Correlator) (taken : Bool) (tags : List UInt64) : Nat :=
  (reach config taken - c.lead taken tags).toNat

section Lead

variable {config : CorrelatorConfig} {c : Correlator} {taken : Bool} {tags : List UInt64}

theorem reach_pos (hvoters : 0 < config.enabledFeatures) (hcounter : 2 ≤ config.counterBits)
    (taken : Bool) : 0 < reach config taken := by
  have hpow : 2 ^ 1 ≤ 2 ^ (config.counterBits - 1) :=
    Nat.pow_le_pow_right (by decide) (by omega)
  have hpeak : 0 < peak config.counterBits taken := by
    cases taken with
    | true => exact Nat.sub_pos_of_lt hpow
    | false => exact Nat.two_pow_pos _
  exact Nat.mul_pos hvoters hpeak

/-- A wrong vote is not for the direction. -/
theorem lead_of_wrong (h : (c.training taken tags).correct = false) : c.lead taken tags ≤ 0 := by
  have hcorrect : (taken == favours (c.vote tags)) = false := h
  cases taken with
  | true =>
    have hvote : c.vote tags < 0 := by simpa [favours] using hcorrect
    show c.vote tags ≤ 0
    omega
  | false =>
    have hvote : 0 ≤ c.vote tags := by simpa [favours] using hcorrect
    show -c.vote tags ≤ 0
    omega

theorem lead_of_zero (h : Threshold.magnitude (c.vote tags) ≤ 0) : c.lead taken tags = 0 := by
  have hzero : c.vote tags = 0 := by
    rw [Threshold.magnitude, Threshold.wordMax] at h
    omega
  rw [lead, hzero, toward_zero]

/-- An update brings the vote nearer to the greatest one if it trains, and leaves it as it is
otherwise. -/
theorem InRange.gap_learned_le (h : c.InRange) (sound : c.Sound config)
    (hmask : config.featureMask.length = Knob.count) (count : tags.length = Knob.count)
    (taken : Bool) :
    (c.learned taken tags).gap config taken tags ≤
      c.gap config taken tags - if (c.training taken tags).trained then 1 else 0 := by
  have htables : ∀ table ∈ c.tables, table.InRange ∧ table.counterBits = config.counterBits :=
    fun table ht => ⟨h.weights table ht, sound.counterBits ht⟩
  have hmoves := le_toward_weigh_trainedAll htables taken
    (hmask.trans sound.length.symm) (count.trans sound.length.symm)
  have hvote : (c.learned taken tags).vote tags =
      weigh (if (c.training taken tags).trained then trainedAll taken c.tables tags else c.tables)
        config.featureMask tags := by
    rw [vote, ← sound.mask]
    rfl
  rw [gap, gap, lead, lead, hvote, reach, CorrelatorConfig.enabledFeatures]
  rw [vote, sound.mask]
  split
  · omega
  · exact Nat.le_refl _

end Lead

end Correlator

end BranchSelector
