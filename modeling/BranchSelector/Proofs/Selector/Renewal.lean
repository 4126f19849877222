import BranchSelector.Proofs.Selector.Membership
import BranchSelector.Proofs.Selector.Routing

/-!
# Setups

A setup writes the parts of the selector that hooks change. It leaves alone what the parts were
built from: the widths of the tables, the knobs that vote, the first threshold, the reaches of
the windows and the size of the filter. No hook changes these (`Step.restorable`), so a setup
goes back to what the configuration says, whatever came before (`Restorable.setup_eq`). Gshare
keeps nothing over a setup but its width, and a selector around it is as good as new
(`setup_eq_of_run`).
-/

namespace BranchSelector

namespace Windows

/-! ## What the windows are built from -/

theorem reset_ofConfig (config : WindowConfig) : (ofConfig config).reset = ofConfig config := rfl

theorem reset_record (windows : Windows) (kind : WindowKind) (seqNo : Nat) :
    (windows.record kind seqNo).reset = windows.reset := by
  cases kind <;> rfl

theorem reset_recordBlock (windows : Windows) (seqNo : Nat) :
    (windows.recordBlock seqNo).reset = windows.reset := rfl

theorem reset_recordDirection (windows : Windows) (seqNo : Nat) (pc nextPc : UInt64) :
    (windows.recordDirection seqNo pc nextPc).reset = windows.reset := by
  unfold recordDirection
  split
  · exact reset_record _ _ _
  · split
    · exact reset_record _ _ _
    · rfl

theorem reset_recordBranch (windows : Windows) (seqNo : Nat) (opensBlock : Bool)
    (pc nextPc : UInt64) :
    (windows.recordBranch seqNo opensBlock pc nextPc).reset = windows.reset := by
  have hopened : (if opensBlock then windows.recordBlock seqNo else windows).reset =
      windows.reset := by
    split
    · exact reset_recordBlock _ _
    · rfl
  unfold recordBranch
  dsimp only
  split
  · rw [reset_record, reset_recordDirection, hopened]
  · rw [reset_recordDirection, hopened]

theorem reset_recordClass (windows : Windows) (seqNo : Nat) (kind : BranchClass) :
    (windows.recordClass seqNo kind).reset = windows.reset := by
  cases kind with
  | uncondIndirect | callDirect | callIndirect => exact reset_record _ _ _
  | condBranch | uncondDirect | callReturn => rfl

theorem reset_prune (windows : Windows) (seqNo : Nat) :
    (windows.prune seqNo).reset = windows.reset := rfl

end Windows

theorem Filter.clear_insert (filter : Filter) (key : UInt64) :
    (filter.insert key).clear = filter.clear := by
  cases filter with
  | bloom bits =>
    show Filter.bloom (Bloom.empty (bits.insert key).bits (bits.insert key).rounds) = _
    rw [bits.bits_insert, bits.rounds_insert]
    rfl
  | oracle keys => rfl

theorem Filter.clear_clear (filter : Filter) : filter.clear.clear = filter.clear := by
  cases filter <;> rfl

namespace Selector

variable {β : Type}

theorem reset_fetchWindows (windows : Windows) (branch : Branch) :
    (fetchWindows windows branch).reset = windows.reset := by
  unfold fetchWindows
  dsimp only
  rw [Windows.reset_prune, Windows.reset_recordClass, Windows.reset_recordBranch]

theorem clear_filterAfter (s : Selector β) (pc : UInt64) (right : Bool) :
    (s.filterAfter pc right).clear = s.filter.clear := by
  unfold filterAfter
  split
  · exact Filter.clear_insert _ _
  · rfl

/-! ## What a setup goes back to -/

/-- Emptied, the parts of the selector are those of the configuration. -/
structure Restorable (config : Config) (s : Selector β) : Prop where
  correlator : s.correlator.reset = Correlator.ofConfig config.correlator
  windows : s.windows.reset = Windows.ofConfig config.windows
  filter : s.filter.clear = Filter.empty config.effectiveFilterKind config.filter
  config : s.config = config

theorem restorable_ofConfig (config : Config) (baseline : β) :
    (ofConfig config baseline).Restorable config where
  correlator := Correlator.reset_ofConfig config.correlator
  windows := Windows.reset_ofConfig config.windows
  filter := Filter.clear_empty _ _
  config := rfl

section Steps

variable [Baseline β] {C : Baseline.Contract β} {config : Config} {s s' : Selector β}
  {hook : Hook} {outcome : Outcome}

theorem Step.windows_reset (hstep : s.Step hook outcome s') :
    s'.windows.reset = s.windows.reset := by
  cases hstep with
  | setup => rfl
  | fetch => exact reset_fetchWindows _ _
  | predict | resolve | squash | decode | decodeUntold | execute | executeUntold | advanceEpoch
  | clearFilter => rfl

theorem Step.filter_clear (hstep : s.Step hook outcome s') :
    s'.filter.clear = s.filter.clear := by
  rw [hstep.filter_eq]
  cases hook with
  | setup | clearFilter => exact Filter.clear_clear _
  | resolve => exact clear_filterAfter _ _ _
  | predict | fetch | squash | decode | execute | advanceEpoch => rfl

theorem Step.restorable (hstep : s.Step hook outcome s') (hs : s.Coherent C)
    (h : s.Restorable config) : s'.Restorable config where
  correlator := by
    rw [(hstep.coherent hs).correlator.frame, hstep.config_eq, h.config]
  windows := hstep.windows_reset.trans h.windows
  filter := hstep.filter_clear.trans h.filter
  config := hstep.config_eq.trans h.config

/-- A setup leaves behind a new selector that was set up, around what the baseline was. -/
theorem Restorable.setup_eq (h : s.Restorable config) :
    s.setup = (ofConfig config s.baseline).setup := by
  have hnew := restorable_ofConfig config s.baseline
  unfold setup
  rw [h.config, h.correlator, h.windows, h.filter, hnew.correlator, hnew.windows, hnew.filter]
  rfl

/-- A selector stays restorable through any history, around any baseline. -/
theorem restorable_of_run {baseline : β} {s₀ : Selector β} {hooks : List Hook}
    {outcomes : List Outcome} (created : create config baseline = .ok s₀)
    (run : s₀.applyAll hooks = .ok (outcomes, s)) : s.Restorable config :=
  (created_induction (C := Baseline.anyContract β) (P := fun _ t => t.Restorable config) created
    trivial (fun hs hstep h => hstep.restorable hs h) run (restorable_ofConfig config baseline)).2

end Steps

/-- After any hooks, with branches in flight, trained tables and addresses in the filter, a setup
of a selector around gshare leaves the state that a setup leaves of a new selector, of the same
configuration and around a new gshare of the same width. So from a setup on both answer all hooks
alike: the outcomes are the same, a hook that fails does so for the same reason, and where none
does the states in the end are the same, with gshare and the statistics among their parts. -/
theorem setup_eq_of_run {bits : Nat} {config : Config} {g : Gshare bits}
    {s₀ s : Selector (Gshare bits)} {hooks : List Hook} {outcomes : List Outcome}
    (created : create config g = .ok s₀) (run : s₀.applyAll hooks = .ok (outcomes, s)) :
    ∃ new, create config (Gshare.fresh bits) = .ok new ∧ s.setup = new.setup ∧
      ∀ later, s₀.applyAll (hooks ++ .setup :: later) =
        (new.applyAll (.setup :: later)).map fun answer => (outcomes ++ answer.1, answer.2) := by
  obtain ⟨valid, -⟩ := create_eq_ok created
  have hnew : create config (Gshare.fresh bits) = .ok (ofConfig config (Gshare.fresh bits)) := by
    unfold create
    rw [Config.validate_eq_ok_iff.2 valid]
    rfl
  -- Gshare forgets at a setup what it was, so it does not matter around which one it is.
  have hsetup : s.setup = (ofConfig config (Gshare.fresh bits)).setup :=
    (restorable_of_run created run).setup_eq
  refine ⟨_, hnew, hsetup, fun later => ?_⟩
  have hlater : s.applyAll (.setup :: later) =
      (ofConfig config (Gshare.fresh bits)).applyAll (.setup :: later) := by
    simp only [applyAll, apply, hsetup]
  rw [applyAll_append, run, ← hlater]
  simp only [bind, Except.bind]
  cases s.applyAll (.setup :: later) <;> rfl

/-- A miss has entered the filter, the epoch is odd, and a branch is left in flight. -/
def unsettledHooks : List Hook :=
  memberHooks ++ [.advanceEpoch, .predict 3 0 0x80]

/-- The selector is left unsettled, and the same branch is predicted once more after a setup. -/
theorem setup_eq_of_run_unsettled :
    let config : Config := { arbiter := { mode := .bloom } }
    ∃ outcomes s new, (ofConfig config (Gshare.fresh 4)).applyAll unsettledHooks =
        .ok (outcomes, s) ∧
      s.filter.contains 0x40 = true ∧ s.epoch = 1 ∧ s.inFlight.size = 1 ∧
      create config (Gshare.fresh 4) = .ok new ∧ s.setup = new.setup ∧
      (ofConfig config (Gshare.fresh 4)).applyAll
          (unsettledHooks ++ [.setup, .predict 3 0 0x80]) =
        (new.applyAll [.setup, .predict 3 0 0x80]).map fun answer =>
          (outcomes ++ answer.1, answer.2) := by
  intro config
  have hcreated : create config (Gshare.fresh 4) = .ok (ofConfig config (Gshare.fresh 4)) := rfl
  have hanswers : (do
      let (_, s) ← (ofConfig config (Gshare.fresh 4)).applyAll unsettledHooks
      return (s.filter.contains 0x40, s.epoch, s.inFlight.size)) =
      (.ok (true, 1, 1) : Except Violation (Bool × Nat × Nat)) := by
    decide +kernel
  obtain ⟨⟨outcomes, s⟩, hrun, hvalues⟩ := bind_eq_ok_iff.1 hanswers
  obtain ⟨hmember, hrest⟩ := Prod.mk.inj (Except.ok.inj hvalues)
  obtain ⟨hepoch, hlive⟩ := Prod.mk.inj hrest
  obtain ⟨new, hnew, hsetup, hlater⟩ := setup_eq_of_run hcreated hrun
  exact ⟨outcomes, s, new, hrun, hmember, hepoch, hlive, hnew, hsetup,
    hlater [.predict 3 0 0x80]⟩

end Selector

end BranchSelector
