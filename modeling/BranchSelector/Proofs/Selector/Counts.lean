import BranchSelector.Proofs.Selector.Step
import BranchSelector.Proofs.Window.Order

/-!
# How far the counts go

A selector counts events in natural numbers. `Selector.CountsLe` bounds all of its counts at
once: the statistics, the number of the filter's epoch and the addresses that entered in it,
the knobs and the lengths of the windows. A hook raises none of them by more than one
(`Step.countsLe`), so that words are wide enough for histories that are not too long.
-/

namespace BranchSelector

namespace Stats

/-- All statistics. -/
def counts (stats : Stats) : List Nat :=
  [stats.fromCorrelator, stats.fromBaseline, stats.correlatorRight, stats.correlatorWrong,
    stats.baselineRight, stats.baselineWrong, stats.filterInsertions, stats.thresholdSkips]

/-- The predictions that followed a provider. -/
def predictionsOf (stats : Stats) : Provider → Nat
  | .correlator => stats.fromCorrelator
  | .baseline => stats.fromBaseline

/-- The predictions that followed a provider and have resolved. -/
def resolutionsOf (stats : Stats) : Provider → Nat
  | .correlator => stats.correlatorRight + stats.correlatorWrong
  | .baseline => stats.baselineRight + stats.baselineWrong

/-- The predictions that followed a provider and have turned out right, or wrong. -/
def outcomesOf (stats : Stats) : Provider → Bool → Nat
  | .correlator, true => stats.correlatorRight
  | .correlator, false => stats.correlatorWrong
  | .baseline, true => stats.baselineRight
  | .baseline, false => stats.baselineWrong

theorem predictionsOf_recordPrediction (stats : Stats) (provider other : Provider) :
    (stats.recordPrediction provider).predictionsOf other =
      stats.predictionsOf other + if provider = other then 1 else 0 := by
  cases provider <;> cases other <;> rfl

theorem resolutionsOf_recordPrediction (stats : Stats) (provider other : Provider) :
    (stats.recordPrediction provider).resolutionsOf other = stats.resolutionsOf other := by
  cases provider <;> rfl

theorem outcomesOf_recordPrediction (stats : Stats) (provider other : Provider) (right : Bool) :
    (stats.recordPrediction provider).outcomesOf other right = stats.outcomesOf other right := by
  cases provider <;> rfl

theorem predictionsOf_recordResolution (stats : Stats) (provider other : Provider)
    (right : Bool) :
    (stats.recordResolution provider right).predictionsOf other = stats.predictionsOf other := by
  cases provider <;> cases right <;> rfl

theorem resolutionsOf_recordResolution (stats : Stats) (provider other : Provider)
    (right : Bool) :
    (stats.recordResolution provider right).resolutionsOf other =
      stats.resolutionsOf other + if provider = other then 1 else 0 := by
  cases provider <;> cases right <;> cases other <;> simp only [recordResolution, resolutionsOf] <;>
    grind

theorem outcomesOf_recordResolution (stats : Stats) (provider other : Provider)
    (right right' : Bool) :
    (stats.recordResolution provider right).outcomesOf other right' =
      stats.outcomesOf other right' + if provider = other ∧ right = right' then 1 else 0 := by
  cases provider <;> cases right <;> cases other <;> cases right' <;> rfl

end Stats

/-- No knob but those that the windows set rises at a fetch by more than one. -/
theorem Selector.get_fetchKnobs_le (knobs : Knobs) (kind : BranchClass) (taken : Bool)
    (knob : Knob) : (fetchKnobs knobs kind taken).get knob ≤ knobs.get knob + 1 := by
  cases kind with
  | condBranch =>
    show (knobs.onConditional taken).get knob ≤ _
    unfold Knobs.onConditional
    repeat' split
    all_goals
      cases knob <;> simp only [Knobs.get] <;> omega
  | callDirect | callIndirect => cases knob <;> simp [fetchKnobs, Knobs.onCall, Knobs.get]
  | callReturn => cases knob <;> simp only [fetchKnobs, Knobs.onReturn, Knobs.get] <;> omega
  | uncondDirect | uncondIndirect => exact Nat.le_succ _

namespace Selector

/-- A bound on the knobs and on the lengths of the windows. -/
structure FrontLe (bound : Nat) (knobs : Knobs) (windows : Windows) : Prop where
  knobs : ∀ knob, knobs.get knob ≤ bound
  windows : ∀ kind span, windows.count kind span ≤ bound

namespace FrontLe

variable {bound more : Nat} {knobs : Knobs} {windows : Windows}

theorem mono (h : FrontLe bound knobs windows) (hle : bound ≤ more) :
    FrontLe more knobs windows :=
  ⟨fun knob => Nat.le_trans (h.knobs knob) hle,
    fun kind span => Nat.le_trans (h.windows kind span) hle⟩

/-- Windows without entries bound nothing, and neither do knobs at zero. -/
theorem of_entries_eq_nil (h : ∀ kind span, windows.entries kind span = []) :
    FrontLe 0 {} windows where
  knobs knob := by cases knob <;> exact Nat.le_refl 0
  windows kind span := Nat.le_of_eq (congrArg List.length (h kind span))

/-- The knobs that a prediction refreshes are lengths of windows. -/
theorem refresh (h : FrontLe bound knobs windows) :
    FrontLe bound (knobs.refresh windows.counts) windows where
  knobs knob := by
    cases knob with
    | callDepth => exact h.knobs .callDepth
    | globalBias => exact h.knobs .globalBias
    | indirectShort => exact h.windows .indirect .short
    | indirectLong => exact h.windows .indirect .long
    | longBranchShort => exact h.windows .longBranch .short
    | longBranchLong => exact h.windows .longBranch .long
  windows := h.windows

theorem fetch (h : FrontLe bound knobs windows) (branch : Branch) :
    FrontLe (bound + 1) (fetchKnobs knobs branch.kind branch.taken)
      (fetchWindows windows branch) where
  knobs knob := Nat.le_trans (get_fetchKnobs_le knobs branch.kind branch.taken knob)
    (Nat.succ_le_succ (h.knobs knob))
  windows kind span := Nat.le_trans (count_fetchWindows_le windows branch kind span)
    (Nat.succ_le_succ (h.windows kind span))

end FrontLe

variable {β : Type}

/-- A bound on all counts. -/
structure CountsLe (bound : Nat) (s : Selector β) : Prop where
  stats : ∀ count ∈ s.stats.counts, count ≤ bound
  epoch : s.epoch ≤ bound
  epochInsertions : s.epochInsertions ≤ bound
  front : FrontLe bound s.knobs s.windows

/-- A resolution counts no prediction. -/
theorem predictionsOf_resolved (s : Selector β) (key : BranchKey) (provider : Provider)
    (tags : List UInt64) (pc : UInt64) (predicted taken : Bool) (other : Provider) :
    (s.resolved key provider tags pc predicted taken).stats.predictionsOf other =
      s.stats.predictionsOf other := by
  refine Eq.trans ?_ (s.stats.predictionsOf_recordResolution provider other (predicted == taken))
  cases other <;> rfl

/-- A resolution is counted for the provider of the branch. -/
theorem resolutionsOf_resolved (s : Selector β) (key : BranchKey) (provider : Provider)
    (tags : List UInt64) (pc : UInt64) (predicted taken : Bool) (other : Provider) :
    (s.resolved key provider tags pc predicted taken).stats.resolutionsOf other =
      s.stats.resolutionsOf other + if provider = other then 1 else 0 := by
  refine Eq.trans ?_ (s.stats.resolutionsOf_recordResolution provider other (predicted == taken))
  cases other <;> rfl

theorem outcomesOf_resolved (s : Selector β) (key : BranchKey) (provider : Provider)
    (tags : List UInt64) (pc : UInt64) (predicted taken : Bool) (other : Provider) (right : Bool) :
    (s.resolved key provider tags pc predicted taken).stats.outcomesOf other right =
      s.stats.outcomesOf other right +
        if provider = other ∧ (predicted == taken) = right then 1 else 0 := by
  refine Eq.trans ?_ (s.stats.outcomesOf_recordResolution provider other (predicted == taken) right)
  cases other <;> cases right <;> rfl

namespace CountsLe

variable {bound more : Nat} {s : Selector β}

theorem mono (h : s.CountsLe bound) (hle : bound ≤ more) : s.CountsLe more where
  stats count hcount := Nat.le_trans (h.stats count hcount) hle
  epoch := Nat.le_trans h.epoch hle
  epochInsertions := Nat.le_trans h.epochInsertions hle
  front := h.front.mono hle

/-- The counts do not depend on the baseline. -/
theorem withBaseline (h : s.CountsLe bound) (baseline : β) :
    CountsLe bound { s with baseline } :=
  ⟨h.stats, h.epoch, h.epochInsertions, h.front⟩

theorem ofConfig (config : Config) (baseline : β) : (ofConfig config baseline).CountsLe 0 where
  stats := by simp [Selector.ofConfig, Stats.counts]
  epoch := Nat.le_refl 0
  epochInsertions := Nat.le_refl 0
  front := .of_entries_eq_nil (Windows.entries_ofConfig config.windows)

/-- A prediction counts its provider, and refreshes four knobs from the windows. -/
theorem predicted [Baseline β] (h : s.CountsLe bound) (key : BranchKey) (pc : UInt64) :
    (s.predicted key pc).CountsLe (bound + 1) where
  stats := by
    have hstats := h.stats
    show ∀ count ∈ (s.stats.recordPrediction (s.provider pc)).counts, count ≤ bound + 1
    cases s.provider pc <;>
      simp only [Stats.counts, Stats.recordPrediction, List.forall_mem_cons] at hstats ⊢ <;>
      grind
  epoch := Nat.le_succ_of_le h.epoch
  epochInsertions := Nat.le_succ_of_le h.epochInsertions
  front := h.front.refresh.mono (Nat.le_succ bound)

theorem fetched [Baseline β] (h : s.CountsLe bound) (branch : Branch) (key : BranchKey)
    (direction : Bool) : (s.fetched branch key direction).CountsLe (bound + 1) where
  stats count hcount := Nat.le_succ_of_le (h.stats count hcount)
  epoch := Nat.le_succ_of_le h.epoch
  epochInsertions := Nat.le_succ_of_le h.epochInsertions
  front := h.front.fetch branch

theorem added_le (s : Selector β) (pc : UInt64) (right : Bool) : s.added pc right ≤ 1 := by
  unfold added
  split <;> decide

/-- A resolution counts once how it turned out, and at most one address and one update that
left the weights alone. -/
theorem resolved (h : s.CountsLe bound) (key : BranchKey) (provider : Provider)
    (tags : List UInt64) (pc : UInt64) (predicted taken : Bool) :
    (s.resolved key provider tags pc predicted taken).CountsLe (bound + 1) where
  stats := by
    have hstats := h.stats
    have hadded := added_le s pc (predicted == taken)
    have hskipped : (if (s.correlator.training taken tags).trained then 0 else 1) ≤ 1 := by
      split <;> decide
    dsimp only [Selector.resolved, offered]
    generalize (if (s.correlator.training taken tags).trained then 0 else 1) = skipped at *
    generalize s.added pc (predicted == taken) = added at *
    -- One of four counts rises for the outcome; the last two rise by a bit each.
    cases provider <;> cases predicted == taken <;>
      simp only [Stats.counts, Stats.recordResolution, List.forall_mem_cons] at hstats ⊢ <;>
      grind
  epoch := Nat.le_succ_of_le h.epoch
  epochInsertions := Nat.add_le_add h.epochInsertions (added_le s pc _)
  front := h.front.mono (Nat.le_succ bound)

end CountsLe

/-- A hook raises no count by more than one. -/
theorem Step.countsLe [Baseline β] {s s' : Selector β} {hook : Hook} {outcome : Outcome}
    (hstep : s.Step hook outcome s') {bound : Nat} (h : s.CountsLe bound) :
    s'.CountsLe (bound + 1) := by
  have hsame := h.mono (Nat.le_succ bound)
  cases hstep with
  | setup =>
    refine ⟨?_, Nat.zero_le _, Nat.zero_le _, ?_⟩
    · simp [Selector.setup, Stats.counts]
    · exact (FrontLe.of_entries_eq_nil (Windows.entries_reset s.windows)).mono (Nat.zero_le _)
  | predict => exact h.predicted _ _
  | fetch => exact h.fetched _ _ _
  | resolve => exact (h.resolved _ _ _ _ _ _).withBaseline _
  | advanceEpoch =>
    exact ⟨hsame.stats, Nat.succ_le_succ h.epoch, Nat.zero_le _, hsame.front⟩
  | squash | decode | decodeUntold | execute | executeUntold | clearFilter =>
    exact ⟨hsame.stats, hsame.epoch, hsame.epochInsertions, hsame.front⟩

end Selector

end BranchSelector
