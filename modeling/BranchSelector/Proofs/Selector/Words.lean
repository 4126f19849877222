import BranchSelector.Proofs.Correlator.Words
import BranchSelector.Proofs.Selector.History

/-!
# No arithmetic of a selector leaves its word

A valid configuration bounds the widths, and the hooks keep the weights, the entries and the
training counter in the ranges that these give. So whatever is computed in a word from a state
that hooks have reached is the exact result (`Selector.words_of_run`): nothing wraps, with the
widest tables and the narrowest training counter that are valid as with any others.
-/

namespace BranchSelector

namespace Selector

variable {β : Type} [Baseline β] {C : Baseline.Contract β} {config : Config} {s s' : Selector β}
  {hook : Hook} {outcome : Outcome}

/-- A step enters folded tags only. -/
theorem Step.folded (hstep : s.Step hook outcome s') (h : s.Coherent C)
    (folded : s.correlator.Folded) : s'.correlator.Folded := by
  cases hstep with
  | setup =>
    show s.correlator.reset.Folded
    rw [h.correlator.frame]
    exact Correlator.folded_ofConfig _
  | predict => exact folded.checkpointed _ _
  | resolve => exact (folded.learned _ _).forget _
  | squash => exact folded.forget _
  | fetch | decode | decodeUntold | execute | executeUntold | advanceEpoch | clearFilter =>
    exact folded

/-- What is computed in words of a selector is exact. -/
structure Exact (config : Config) (s : Selector β) : Prop where
  /-- Every weight lies in the range of a signed counter, at a folded tag. -/
  weights : ∀ table ∈ s.correlator.tables, ∀ (entry : Nat) (weight : Int),
    table.weights[entry]? = some weight →
      entry < 2 ^ config.correlator.foldedTagBits ∧
      -((2 ^ (config.correlator.counterBits - 1) : Nat) : Int) ≤ weight ∧
      weight ≤ ((2 ^ (config.correlator.counterBits - 1) : Nat) : Int) - 1
  /-- Votes, and the sums over the first tags on the way to them. -/
  votes : ∀ (tags : List UInt64) (n : Nat),
    (s.correlator.wordVote (tags.take n)).toInt = s.correlator.vote (tags.take n) ∧
    (s.correlator.vote (tags.take n)).natAbs ≤ 6 * 2 ^ 31
  /-- The strength that a vote needs. -/
  useThreshold : config.wordUseThreshold.toNat = config.useThreshold ∧
    config.useThreshold = 5 * (2 ^ (config.correlator.counterBits - 1) - 1)
  /-- The training counter may go down as well as up: it does not stand at its lower end, nor at
  its upper one. -/
  counter : 1 ≤ s.correlator.threshold.counter ∧
    s.correlator.threshold.counter <
      (Threshold.wordLimit config.correlator.trainingCounterBits).toNat ∧
    (UInt32.ofNat s.correlator.threshold.counter - 1).toNat = s.correlator.threshold.counter - 1 ∧
    (UInt32.ofNat s.correlator.threshold.counter + 1).toNat = s.correlator.threshold.counter + 1
  /-- The storage of the tables. -/
  storage : s.correlator.wordStorageBits.toNat = s.correlator.storageBits ∧
    s.correlator.storageBits = config.correlator.enabledFeatures *
      2 ^ config.correlator.foldedTagBits * config.correlator.counterBits

theorem Coherent.exact (h : s.Coherent C) (valid : config.Valid) (hconfig : s.config = config)
    (range : s.correlator.InRange) (folded : s.correlator.Folded) : s.Exact config := by
  have sound : s.correlator.Sound config.correlator := hconfig ▸ h.correlator
  have fits := range.fits sound valid.counterBits.2 valid.trainingCounterBits.2
  constructor
  · intro table ht entry weight hweight
    have hentry : entry ∈ table.weights := by
      rw [Std.ExtTreeMap.mem_iff_isSome_getElem?, hweight]
      rfl
    have hrange := CounterRange.contains_signed_iff.1 (range.weights table ht entry weight hweight)
    rw [sound.counterBits ht] at hrange
    exact ⟨sound.foldedBits ht ▸ folded table ht entry hentry, hrange⟩
  · exact fun tags n => ⟨range.toInt_wordVote sound valid.counterBits.2 (tags.take n),
      range.natAbs_vote_le_word sound valid.counterBits.2 (tags.take n)⟩
  · refine ⟨Config.toNat_wordUseThreshold valid, ?_⟩
    rw [Config.useThreshold, CorrelatorConfig.counterMax, Nat.one_shiftLeft, Nat.mul_comm]
    rfl
  · obtain ⟨hpos, hlimit⟩ := range.counter
    rw [Threshold.toNat_wordLimit valid.trainingCounterBits.2, ← sound.bits]
    exact ⟨hpos, hlimit, fits.toNat_wordCounter.2, fits.toNat_wordCounter.1⟩
  · rw [sound.toNat_wordStorageBits valid.featureMask valid.foldedTagBits.2 valid.counterBits.2,
      sound.storageBits_eq valid.featureMask, Nat.mul_assoc]
    exact ⟨rfl, rfl⟩

/-- Whatever hooks were called on a selector with a valid configuration, and whatever its baseline
does: every weight lies in its range at a folded tag, and votes with all their partial sums, the
strength that a vote needs, the steps of the training counter and the storage of the tables are
computed in words without loss. -/
theorem words_of_run {baseline : β} {s₀ : Selector β} {hooks : List Hook}
    {outcomes : List Outcome} (created : create config baseline = .ok s₀)
    (run : s₀.applyAll hooks = .ok (outcomes, s)) : s.Exact config := by
  obtain ⟨h, healthy⟩ :=
    Healthy.of_applyAll (C := Baseline.anyContract β) created trivial run
  have folded := (created_induction (C := Baseline.anyContract β)
    (P := fun _ t => t.correlator.Folded) created trivial
    (fun h hstep folded => hstep.folded h folded) run
    (Correlator.folded_ofConfig config.correlator)).2
  exact h.exact (create_eq_ok created).1 healthy.config healthy.correlator folded

/-- The widest tables and the narrowest training counter. -/
def widestConfig : Config :=
  { correlator := { foldedTagBits := 63, counterBits := 32, trainingCounterBits := 2 } }

theorem words_of_run_overlapping :
    ∃ s₀ outcomes s, create widestConfig (Gshare.fresh 4) = .ok s₀ ∧
      s₀.applyAll overlappingHooks = .ok (outcomes, s) ∧
      widestConfig.wordUseThreshold.toNat = 5 * (2 ^ 31 - 1) ∧
      s.correlator.wordStorageBits.toNat = 6 * 2 ^ 63 * 32 ∧
      ∀ tags : List UInt64,
        (s.correlator.wordVote (tags.take 6)).toInt = s.correlator.vote (tags.take 6) := by
  have hcreated : create widestConfig (Gshare.fresh 4) =
      .ok (ofConfig widestConfig (Gshare.fresh 4)) := rfl
  obtain ⟨⟨outcomes, s⟩, hrun⟩ := exists_eq_ok_of_isOk
    (show ((ofConfig widestConfig (Gshare.fresh 4)).applyAll overlappingHooks).isOk = true by
      decide +kernel)
  have hexact := words_of_run hcreated hrun
  have huse := hexact.useThreshold
  obtain ⟨hword, hbits⟩ := hexact.storage
  exact ⟨_, outcomes, s, hcreated, hrun, huse.1.trans huse.2, hword.trans hbits,
    fun tags => (hexact.votes tags 6).1⟩

end Selector

end BranchSelector
