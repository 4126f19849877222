import BranchSelector.Proofs.Correlator.Checkpoint

/-!
# Ranges of the correlator

Weights are saturating counters and stay in the range of their table; the training counter
never reaches either of its ends, at which it is set back (`Correlator.InRange`). So a vote,
the sum of at most one weight per table, is no greater than the number of tables times the
greatest magnitude of a weight (`Correlator.InRange.natAbs_vote_le`).
-/

namespace BranchSelector

theorem CounterRange.contains_signed_iff {bits : Nat} {value : Int} :
    (CounterRange.signed bits).contains value = true ↔
      -((2 ^ (bits - 1) : Nat) : Int) ≤ value ∧ value ≤ ((2 ^ (bits - 1) : Nat) : Int) - 1 := by
  rw [contains_iff, signed, Nat.one_shiftLeft]

theorem CounterRange.contains_signed_zero (bits : Nat) :
    (CounterRange.signed bits).contains 0 = true := by
  have hpos : 0 < 2 ^ (bits - 1) := Nat.two_pow_pos _
  rw [contains_signed_iff]
  omega

namespace WeightTable

/-- Every weight lies in the range of the table. -/
def InRange (table : WeightTable) : Prop :=
  ∀ (i : Nat) (weight : Int), table.weights[i]? = some weight → table.range.contains weight = true

theorem InRange.weight {table : WeightTable} (h : table.InRange) (tag : UInt64) :
    table.range.contains (table.weight tag) = true := by
  rw [WeightTable.weight, Std.ExtTreeMap.getD_eq_getD_getElem?]
  cases hw : table.weights[table.index tag]? with
  | none => exact CounterRange.contains_signed_zero table.counterBits
  | some weight => exact h _ _ hw

theorem inRange_clear (table : WeightTable) : table.clear.InRange := by
  intro i weight hw
  rw [show table.clear.weights = ∅ from rfl, Std.ExtTreeMap.getElem?_empty] at hw
  cases hw

theorem InRange.touch {table : WeightTable} (h : table.InRange) (tag : UInt64) :
    (table.touch tag).InRange := by
  intro i weight hw
  have hlookup : (table.weights.insertIfNew (table.index tag) 0)[i]? = some weight := hw
  rw [Std.ExtTreeMap.getElem?_insertIfNew] at hlookup
  split at hlookup
  · obtain rfl := Option.some.inj hlookup
    exact CounterRange.contains_signed_zero table.counterBits
  · exact h i weight hlookup

theorem InRange.trained {table : WeightTable} (h : table.InRange) (tag : UInt64) (taken : Bool) :
    (table.trained tag taken).InRange := by
  intro i weight hw
  have hlookup : (table.weights.insert (table.index tag)
      (table.range.step (table.weight tag) taken))[i]? = some weight := hw
  rw [Std.ExtTreeMap.getElem?_insert] at hlookup
  split at hlookup
  · obtain rfl := Option.some.inj hlookup
    exact CounterRange.contains_step taken (h.weight tag)
  · exact h i weight hlookup

theorem InRange.weight_bounds {table : WeightTable} (h : table.InRange) (tag : UInt64) :
    -((2 ^ (table.counterBits - 1) : Nat) : Int) ≤ table.weight tag ∧
      table.weight tag ≤ (2 ^ (table.counterBits - 1) - 1 : Nat) := by
  have hpos : 0 < 2 ^ (table.counterBits - 1) := Nat.two_pow_pos _
  have hrange := CounterRange.contains_signed_iff.1 (h.weight tag)
  omega

/-- A weight is no greater in magnitude than the lower bound of its range. -/
theorem InRange.natAbs_weight_le {table : WeightTable} (h : table.InRange) (tag : UInt64) :
    (table.weight tag).natAbs ≤ 2 ^ (table.counterBits - 1) := by
  have hbounds := h.weight_bounds tag
  omega

end WeightTable

/-- The weights of some tables on their tags sum up to at most one greatest weight each,
whatever the mask. -/
theorem natAbs_weigh_le {tables : List WeightTable} {bound : Nat}
    (h : ∀ table ∈ tables, ∀ tag, (table.weight tag).natAbs ≤ bound) (mask : List Bool)
    (tags : List UInt64) : (weigh tables mask tags).natAbs ≤ tables.length * bound := by
  induction tables generalizing mask tags with
  | nil => simp [weigh]
  | cons table tables ih =>
    cases mask with
    | nil => simp [weigh]
    | cons on mask =>
      cases tags with
      | nil => simp [weigh]
      | cons tag tags =>
        -- A table that does not vote adds nothing, which is within the bound as well.
        have hhead := h table List.mem_cons_self tag
        have htail := ih (fun t ht => h t (List.mem_cons_of_mem _ ht)) mask tags
        have hvoter : (if on then table.weight tag else 0).natAbs ≤ bound := by
          split
          · exact hhead
          · exact Nat.zero_le _
        have hadd := Int.natAbs_add_le (if on then table.weight tag else 0)
          (weigh tables mask tags)
        rw [weigh, List.length_cons, Nat.succ_mul]
        omega

/-- The weights of some tables on their tags sum up to at most one greatest weight for each knob
that votes, and to at least one least weight. -/
theorem weigh_bounds {tables : List WeightTable} {low high : Nat}
    (h : ∀ table ∈ tables, ∀ tag, -(low : Int) ≤ table.weight tag ∧ table.weight tag ≤ high)
    (mask : List Bool) (tags : List UInt64) :
    -((mask.count true * low : Nat) : Int) ≤ weigh tables mask tags ∧
      weigh tables mask tags ≤ (mask.count true * high : Nat) := by
  induction tables generalizing mask tags with
  | nil =>
    simp only [weigh]
    omega
  | cons table tables ih =>
    cases mask with
    | nil => simp [weigh]
    | cons on mask =>
      cases tags with
      | nil =>
        simp only [weigh]
        omega
      | cons tag tags =>
        have hhead := h table List.mem_cons_self tag
        have htail := ih (fun t ht => h t (List.mem_cons_of_mem _ ht)) mask tags
        rw [weigh]
        cases on with
        | false =>
          -- A table that does not vote is not counted, and adds nothing.
          rw [List.count_cons_of_ne Bool.false_ne_true, if_neg Bool.false_ne_true, Int.zero_add]
          exact htail
        | true =>
          rw [List.count_cons_self, Nat.succ_mul, Nat.succ_mul, if_pos rfl]
          omega

namespace Correlator

/-- The weights and the training counter lie in their ranges. -/
structure InRange (c : Correlator) : Prop where
  counter : c.threshold.InRange
  weights : ∀ table ∈ c.tables, table.InRange

variable {config : CorrelatorConfig} {c : Correlator}

theorem inRange_ofConfig (h : 2 ≤ config.trainingCounterBits) : (ofConfig config).InRange where
  counter := Threshold.inRange_midpoint h
  weights table ht := by
    obtain ⟨knob, -, rfl⟩ := List.mem_map.1 ht
    exact WeightTable.inRange_clear
      { name := knob.name, foldedBits := config.foldedTagBits, counterBits := config.counterBits }

theorem Sound.bits (h : c.Sound config) : c.threshold.bits = config.trainingCounterBits :=
  congrArg (·.threshold.bits) h.frame

theorem InRange.touch (h : c.InRange) (tags : List UInt64) : (c.touch tags).InRange where
  counter := h.counter
  weights := forall_touchAll (fun tag range => range.touch tag) h.weights tags

theorem InRange.checkpointed (h : c.InRange) (tags : List UInt64) (key : BranchKey) :
    (c.checkpointed tags key).InRange where
  counter := h.counter
  weights := (h.touch tags).weights

theorem InRange.forget (h : c.InRange) (key : BranchKey) : (c.forget key).InRange where
  counter := h.counter
  weights := h.weights

theorem InRange.learned (h : c.InRange) (hbits : 2 ≤ c.threshold.bits) (taken : Bool)
    (tags : List UInt64) : (c.learned taken tags).InRange where
  counter := h.counter.update hbits _ _
  weights := by
    show ∀ table ∈ (if (c.training taken tags).trained then trainedAll taken c.tables tags
      else c.tables), table.InRange
    split
    · exact forall_trainedAll (fun tag range => range.trained tag taken) h.weights tags
    · exact h.weights

/-- A vote is no greater in magnitude than six weights of the greatest magnitude. Tags that
are fewer than the tables give the partial sums of a vote. -/
theorem InRange.natAbs_vote_le (h : c.InRange) (sound : c.Sound config) (tags : List UInt64) :
    (c.vote tags).natAbs ≤ Knob.count * 2 ^ (config.counterBits - 1) := by
  rw [← sound.length]
  refine natAbs_weigh_le (fun table ht tag => ?_) c.mask tags
  exact sound.counterBits ht ▸ (h.weights table ht).natAbs_weight_le tag

/-- A vote lies between one least weight and one greatest weight for each knob that votes. -/
theorem InRange.vote_bounds (h : c.InRange) (sound : c.Sound config) (tags : List UInt64) :
    -((config.enabledFeatures * 2 ^ (config.counterBits - 1) : Nat) : Int) ≤ c.vote tags ∧
      c.vote tags ≤ (config.enabledFeatures * (2 ^ (config.counterBits - 1) - 1) : Nat) := by
  rw [vote, sound.mask, CorrelatorConfig.enabledFeatures]
  refine weigh_bounds (fun table ht tag => ?_) config.featureMask tags
  rw [← sound.counterBits ht]
  exact (h.weights table ht).weight_bounds tag

/-- Votes, and the sums on the way to them, fit into words of 64 bits, and the training counter
can go up or down by one in a word of 32 bits. -/
structure Fits (c : Correlator) : Prop where
  votes : ∀ tags, (c.vote tags).natAbs < 2 ^ 63
  counter : 0 < c.threshold.counter ∧ c.threshold.counter + 1 < 2 ^ 32

theorem InRange.fits (h : c.InRange) (sound : c.Sound config) (hcounter : config.counterBits ≤ 32)
    (htraining : config.trainingCounterBits ≤ 16) : c.Fits where
  votes tags := by
    have hvote := h.natAbs_vote_le sound tags
    have hbits : 2 ^ (config.counterBits - 1) ≤ 2 ^ 31 :=
      Nat.pow_le_pow_right (by decide) (by omega)
    have hcount : Knob.count = 6 := rfl
    rw [hcount] at hvote
    omega
  counter := by
    obtain ⟨hpos, hlimit⟩ := h.counter
    have hbits : 2 ^ c.threshold.bits ≤ 2 ^ 16 := by
      rw [sound.bits]
      exact Nat.pow_le_pow_right (by decide) htraining
    rw [Threshold.limit, Nat.one_shiftLeft] at hlimit
    omega

end Correlator

end BranchSelector
