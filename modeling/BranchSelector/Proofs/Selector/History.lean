import BranchSelector.Proofs.Correlator.Range
import BranchSelector.Proofs.Selector.Counts

/-!
# Histories of a selector around gshare

A host may call the hooks in any order. Around gshare the only mistakes that it can make are
the breaches of the contract (`Selector.Breach`): as long as it makes none, every hook is
answered, and one that is a breach is answered by its violation (`hooks_fail_iff_breach`).
So the checks within the parts of the selector are never the ones that fail.

Arithmetic on words and the order of the windows are not checked by the hooks.
`Selector.Checked` states what they rely on. It holds of a hook at the end of a history of
less than `2 ^ 64` hooks that fetches its branches in order of their sequence numbers. The
invariant that carries this is `Selector.Healthy`, which a step keeps (`Step.healthy`).
-/

namespace BranchSelector

/-- The sequence number of the branch that a hook fetches. -/
def Hook.fetchedSeqNo? : Hook → Option Nat
  | .fetch branch _ => some branch.seqNo.toNat
  | _ => none

/-- The sequence numbers of the branches that hooks fetch, in order. -/
def fetchedSeqNos (hooks : List Hook) : List Nat :=
  hooks.filterMap Hook.fetchedSeqNo?

namespace Selector

variable {β : Type}

/-- What the selector relies on at a hook without checking it: the order of the windows, and that
counts, votes and the training counter fit into their words. -/
structure Checked [Baseline β] (s : Selector β) (hook : Hook) : Prop where
  fetch : ∀ branch predicted, hook = .fetch branch predicted → FetchChecks s.windows branch
  counts : ∀ outcome s', s.apply hook = .ok (outcome, s') → s'.CountsLe (2 ^ 64 - 1)
  fits : s.correlator.Fits

/-- What holds of a selector, apart from its coherence, after some hooks. -/
structure Healthy (config : Config) (hooks : List Hook) (s : Selector β) : Prop where
  config : s.config = config
  correlator : s.correlator.InRange
  counts : s.CountsLe hooks.length
  windows : ∀ bound, (∀ seqNo ∈ fetchedSeqNos hooks, seqNo ≤ bound) → s.windows.Orderly bound

variable {config : Config} {hooks : List Hook}

theorem healthy_ofConfig (valid : config.Valid) (baseline : β) :
    (ofConfig config baseline).Healthy config [] where
  config := rfl
  correlator := Correlator.inRange_ofConfig valid.trainingCounterBits.1
  counts := CountsLe.ofConfig config baseline
  windows bound _ := Windows.orderly_ofConfig config.windows bound

section Steps

variable [Baseline β] {C : Baseline.Contract β} {s s' : Selector β} {hook : Hook}
  {outcome : Outcome}

theorem Step.config_eq (hstep : s.Step hook outcome s') : s'.config = s.config := by
  cases hstep <;> rfl

/-- A step keeps weights and training counter in their ranges. -/
theorem Step.inRange (hstep : s.Step hook outcome s') (h : s.Coherent C) (valid : s.config.Valid)
    (range : s.correlator.InRange) : s'.correlator.InRange := by
  have hbits : 2 ≤ s.correlator.threshold.bits :=
    h.correlator.bits ▸ valid.trainingCounterBits.1
  cases hstep with
  | setup =>
    show s.correlator.reset.InRange
    rw [h.correlator.frame]
    exact Correlator.inRange_ofConfig valid.trainingCounterBits.1
  | predict => exact range.checkpointed _ _
  | resolve => exact (range.learned hbits _ _).forget _
  | squash => exact range.forget _
  | fetch | decode | decodeUntold | execute | executeUntold | advanceEpoch | clearFilter =>
    exact range

/-- A step keeps the windows orderly up to whatever bounds the fetches so far. -/
theorem Step.orderly (hstep : s.Step hook outcome s') {bound : Nat}
    (windows : s.windows.Orderly bound) (hle : ∀ seqNo ∈ hook.fetchedSeqNo?, seqNo ≤ bound) :
    s'.windows.Orderly bound := by
  cases hstep with
  | setup => exact .reset s.windows bound
  | fetch => exact orderly_fetchWindows windows (hle _ rfl)
  | predict | resolve | squash | decode | decodeUntold | execute | executeUntold
  | advanceEpoch | clearFilter => exact windows

theorem Step.healthy (hstep : s.Step hook outcome s') (valid : config.Valid)
    (h : s.Coherent C) (healthy : s.Healthy config hooks) :
    s'.Healthy config (hooks ++ [hook]) where
  config := hstep.config_eq.trans healthy.config
  correlator := hstep.inRange h (healthy.config ▸ valid) healthy.correlator
  counts := by
    rw [List.length_append]
    exact hstep.countsLe healthy.counts
  windows bound hbound := by
    rw [fetchedSeqNos, List.filterMap_append, List.forall_mem_append] at hbound
    refine hstep.orderly (healthy.windows bound hbound.1) fun seqNo hseqNo => ?_
    refine hbound.2 seqNo (List.mem_filterMap.2 ⟨hook, List.mem_singleton_self hook, hseqNo⟩)

/-- A healthy selector meets what a hook relies on, if there have been few enough hooks and a
branch that it fetches does not come before one of the earlier hooks. -/
theorem Healthy.checked (healthy : s.Healthy config hooks) (valid : config.Valid)
    (h : s.Coherent C) (ordered : (fetchedSeqNos (hooks ++ [hook])).Pairwise (· ≤ ·))
    (few : (hooks ++ [hook]).length < 2 ^ 64) : s.Checked hook where
  fetch branch predicted hhook := by
    subst hhook
    rw [fetchedSeqNos, List.filterMap_append, List.pairwise_append] at ordered
    refine fetchChecks_of_orderly (healthy.windows _ fun seqNo hseqNo => ?_)
    exact ordered.2.2 seqNo hseqNo _ List.mem_cons_self
  -- A hook raises each count by one at most, and there have been few enough.
  counts outcome s' happly := by
    have hcounts := ((h.step happly).healthy valid h healthy).counts
    exact hcounts.mono (Nat.le_pred_of_lt few)
  fits := by
    rw [← healthy.config] at valid
    exact healthy.correlator.fits h.correlator valid.counterBits.2 valid.trainingCounterBits.2

end Steps

/-- The state after any history of hooks that were answered, of a selector that was built
around a baseline which serves no branch yet. -/
theorem Healthy.of_applyAll [Baseline β] {C : Baseline.Contract β} {baseline : β}
    {s₀ s : Selector β} {outcomes : List Outcome} (created : create config baseline = .ok s₀)
    (idle : C.serves baseline ∅) (run : s₀.applyAll hooks = .ok (outcomes, s)) :
    s.Coherent C ∧ s.Healthy config hooks := by
  obtain ⟨valid, -⟩ := create_eq_ok created
  exact created_induction created idle
    (fun h hstep healthy => hstep.healthy valid h healthy) run (healthy_ofConfig valid baseline)

/-- Whatever hooks were called before, in whatever order: the selector, the correlator and
gshare agree on the branches in flight, the next hook fails if and only if it breaches the
contract, and what it relies on without checking it is the case. -/
theorem hooks_fail_iff_breach {bits : Nat} {g : Gshare bits} {s₀ s : Selector (Gshare bits)}
    {outcomes : List Outcome} {hook : Hook} (created : create config g = .ok s₀)
    (unused : g.checkpoints = ∅) (run : s₀.applyAll hooks = .ok (outcomes, s))
    (ordered : (fetchedSeqNos (hooks ++ [hook])).Pairwise (· ≤ ·))
    (few : (hooks ++ [hook]).length < 2 ^ 64) :
    (∀ key, key ∈ s.correlator.checkpoints ↔ key ∈ s.inFlight) ∧
      (∀ key, key ∈ s.baseline.checkpoints ↔ key ∈ s.inFlight) ∧
      (∀ violation, s.apply hook = .error violation ↔ s.Breach hook violation) ∧
      s.Checked hook := by
  have hidle : g.Serves ∅ := fun key => by
    rw [unused]
    exact Gshare.serves_fresh key
  obtain ⟨h, healthy⟩ := Healthy.of_applyAll (C := Gshare.contract bits) created hidle run
  refine ⟨h.checkpoints, h.baseline, fun violation => ⟨fun hfail => ?_, (·.apply_eq h)⟩,
    healthy.checked (create_eq_ok created).1 h ordered few⟩
  -- Gshare refuses nothing, so what fails is a breach.
  exact (h.breach_or_refuses hfail).resolve_right id

/-- Two branches of one instruction are in flight at once, and the later resolves first. -/
def overlappingHooks : List Hook :=
  let early : Branch := ⟨3, 0, 0x40, .condBranch, true, 0x80⟩
  let late : Branch := ⟨3, 1, 0x44, .condBranch, false, 0x48⟩
  [.setup, .predict 3 0 0x40, .fetch early true, .predict 3 1 0x44, .fetch late true,
    .resolve 3 1 0x44 true false 0x48]

theorem hooks_fail_iff_breach_overlapping :
    ∃ outcomes s, (ofConfig {} (Gshare.fresh 4)).applyAll overlappingHooks = .ok (outcomes, s) ∧
      (∀ key, key ∈ s.correlator.checkpoints ↔ key ∈ s.inFlight) ∧
      (∀ key, key ∈ s.baseline.checkpoints ↔ key ∈ s.inFlight) ∧
      (∀ violation, s.apply (.squash 3 1) = .error violation ↔
        s.Breach (.squash 3 1) violation) ∧
      s.Checked (.squash 3 1) := by
  have hcreated : create {} (Gshare.fresh 4) = .ok (ofConfig {} (Gshare.fresh 4)) := rfl
  obtain ⟨⟨outcomes, s⟩, hrun⟩ := exists_eq_ok_of_isOk
    (show ((ofConfig {} (Gshare.fresh 4)).applyAll overlappingHooks).isOk = true by
      decide +kernel)
  exact ⟨outcomes, s, hrun, hooks_fail_iff_breach hcreated rfl hrun (by decide)
    (by decide)⟩

end Selector

end BranchSelector
