import BranchSelector.Baseline.Static
import BranchSelector.Proofs.Selector.History

/-!
# Ledgers

A host that writes down which hooks it has called and what they answered can keep a ledger of
its own (`Ledger`): the providers of the predictions that it was given, and what became of each.
At a resolution and at a squash it looks up the provider that it has written down at the
prediction.

The statistics of the selector are those of the ledger (`Selector.Balanced`), whatever the order
of the hooks and however many branches are in flight. So no prediction is lost or counted twice:
those that followed a provider have turned out right, have turned out wrong, are in flight or
were squashed (`balanced_of_run`).
-/

namespace BranchSelector

/-! ## Open predictions -/

/-- How many of some predictions follow a provider. -/
def followers (live : Std.ExtTreeMap BranchKey Provider) (provider : Provider) : Nat :=
  (live.filter fun _ other => other == provider).size

theorem followers_empty (provider : Provider) : followers ∅ provider = 0 := by
  have hempty : (∅ : Std.ExtTreeMap BranchKey Provider).filter (fun _ other => other == provider) =
      ∅ := by
    apply Std.ExtTreeMap.ext_getElem?
    intro key
    rw [Std.ExtTreeMap.getElem?_filter', Std.ExtTreeMap.getElem?_empty]
    rfl
  rw [followers, hempty, Std.ExtTreeMap.size_empty]

theorem followers_insert {live : Std.ExtTreeMap BranchKey Provider} {key : BranchKey}
    (idle : key ∉ live) (provider other : Provider) :
    followers (live.insert key provider) other =
      followers live other + if provider = other then 1 else 0 := by
  have hkey : live[key]? = none := Std.ExtTreeMap.getElem?_eq_none idle
  have hidle : key ∉ live.filter fun _ p => p == other := by
    rw [Std.ExtTreeMap.mem_iff_isSome_getElem?, Std.ExtTreeMap.getElem?_filter', hkey]
    exact Bool.false_ne_true
  by_cases hsame : provider = other
  · have hfilter : (live.insert key provider).filter (fun _ p => p == other) =
        (live.filter fun _ p => p == other).insert key provider := by
      apply Std.ExtTreeMap.ext_getElem?
      intro k
      rw [Std.ExtTreeMap.getElem?_filter', Std.ExtTreeMap.getElem?_insert,
        Std.ExtTreeMap.getElem?_insert, Std.ExtTreeMap.getElem?_filter']
      split
      · simp [hsame]
      · rfl
    rw [followers, hfilter, if_pos hsame]
    exact Std.ExtTreeMap.size_insert.trans (if_neg hidle)
  · have hfilter : (live.insert key provider).filter (fun _ p => p == other) =
        live.filter fun _ p => p == other := by
      apply Std.ExtTreeMap.ext_getElem?
      intro k
      rw [Std.ExtTreeMap.getElem?_filter', Std.ExtTreeMap.getElem?_insert,
        Std.ExtTreeMap.getElem?_filter']
      split
      case isTrue hk =>
        rw [← Std.LawfulEqCmp.compare_eq_iff_eq.1 hk, hkey]
        simp [hsame]
      case isFalse => rfl
    rw [followers, hfilter, if_neg hsame]
    rfl

/-- Whoever an open prediction followed has one follower less when it is closed. -/
theorem followers_erase {live : Std.ExtTreeMap BranchKey Provider} {key : BranchKey}
    {provider : Provider} (hkey : live[key]? = some provider) (other : Provider) :
    followers live other =
      followers (live.erase key) other + if provider = other then 1 else 0 := by
  have hopen : (live.erase key).insert key provider = live := by
    apply Std.ExtTreeMap.ext_getElem?
    intro k
    rw [Std.ExtTreeMap.getElem?_insert, Std.ExtTreeMap.getElem?_erase]
    split
    case isTrue hk => rw [← Std.LawfulEqCmp.compare_eq_iff_eq.1 hk, hkey]
    case isFalse => rfl
  have hidle : key ∉ live.erase key := by
    rw [Std.ExtTreeMap.mem_erase]
    intro h
    exact h.1 Std.ReflCmp.compare_self
  rw [← followers_insert hidle, hopen]

/-! ## Ledgers -/

/-- What a host can tell from its hooks since the last setup and their outcomes. -/
structure Ledger where
  /-- The provider of each prediction that is open. -/
  live : Std.ExtTreeMap BranchKey Provider := ∅
  /-- The providers of all predictions. -/
  predicted : List Provider := []
  /-- The providers of the predictions that have resolved, and whether these were right. -/
  resolved : List (Option Provider × Bool) := []
  /-- The providers of the predictions that were squashed. -/
  squashed : List (Option Provider) := []

namespace Ledger

/-- Writes down a hook and its outcome. A prediction is closed under the provider that it was
opened with. -/
def enter (ledger : Ledger) : Hook × Outcome → Ledger
  | (.setup, _) => {}
  | (_, .predicted p) =>
    { ledger with
      live := ledger.live.insert p.key p.provider
      predicted := ledger.predicted ++ [p.provider] }
  | (_, .resolved r) =>
    { ledger with
      live := ledger.live.erase r.key
      resolved := ledger.resolved ++ [(ledger.live[r.key]?, r.predicted == r.taken)] }
  | (_, .squashed key) =>
    { ledger with
      live := ledger.live.erase key
      squashed := ledger.squashed ++ [ledger.live[key]?] }
  | (_, .done) => ledger

/-- The ledger of a history. -/
def ofHistory (history : List (Hook × Outcome)) : Ledger :=
  history.foldl enter {}

theorem ofHistory_concat (history : List (Hook × Outcome)) (entry : Hook × Outcome) :
    ofHistory (history ++ [entry]) = (ofHistory history).enter entry := by
  rw [ofHistory, List.foldl_append]
  rfl

end Ledger

namespace Selector

variable {β : Type}

/-- The statistics of a selector are those of a ledger. -/
structure Balanced (ledger : Ledger) (s : Selector β) : Prop where
  live : s.inFlight = ledger.live
  predicted : ∀ provider, s.stats.predictionsOf provider = ledger.predicted.count provider
  resolved : ∀ provider right,
    s.stats.outcomesOf provider right = ledger.resolved.count (some provider, right)
  each : ∀ provider, s.stats.predictionsOf provider =
    s.stats.resolutionsOf provider + followers s.inFlight provider +
      ledger.squashed.count (some provider)
  insertions_le : s.stats.filterInsertions ≤
    s.stats.outcomesOf .correlator false + s.stats.outcomesOf .baseline false
  skips_le : s.stats.thresholdSkips ≤ ledger.resolved.length
  skips_eq : s.config.correlator.useTheta = false → s.stats.thresholdSkips = 0

/-- Without counts and branches in flight a selector balances with an empty ledger. -/
theorem balanced_of_empty {s : Selector β} (hlive : s.inFlight = ∅) (hstats : s.stats = {}) :
    s.Balanced {} where
  live := hlive
  predicted provider := by
    rw [hstats]
    cases provider <;> rfl
  resolved provider right := by
    rw [hstats]
    cases provider <;> cases right <;> rfl
  each provider := by
    rw [hlive, hstats, followers_empty]
    cases provider <;> rfl
  insertions_le := by
    rw [hstats]
    exact Nat.le_refl 0
  skips_le := by
    rw [hstats]
    exact Nat.le_refl 0
  skips_eq _ := by rw [hstats]

/-- Only a wrong prediction can add an address to the filter, and it is counted as one. -/
theorem added_le_wrong (s : Selector β) (pc : UInt64) (provider : Provider) (right : Bool) :
    s.added pc right ≤ (if provider = .correlator ∧ right = false then 1 else 0) +
      if provider = .baseline ∧ right = false then 1 else 0 := by
  cases right with
  | true => exact Nat.zero_le _
  | false =>
    have hone := CountsLe.added_le s pc false
    cases provider <;> exact hone

/-! ## The ledger stays balanced -/

variable [Baseline β] {C : Baseline.Contract β} {s s' : Selector β} {hook : Hook}
  {outcome : Outcome} {ledger : Ledger}

theorem Balanced.predict (h : s.Balanced ledger) {key : BranchKey} (idle : key ∉ s.inFlight)
    (pc : UInt64) (seqNo : UInt64) (piece : UInt8) :
    (s.predicted key pc).Balanced
      (ledger.enter (.predict seqNo piece pc, .predicted (s.prediction key pc))) where
  live := by
    show s.inFlight.insert key (s.provider pc) = ledger.live.insert key (s.provider pc)
    rw [h.live]
  predicted provider := by
    show (s.stats.recordPrediction (s.provider pc)).predictionsOf provider =
      (ledger.predicted ++ [s.provider pc]).count provider
    rw [Stats.predictionsOf_recordPrediction, h.predicted, List.count_append,
      List.count_singleton]
    simp only [beq_iff_eq]
  resolved provider right := by
    show (s.stats.recordPrediction (s.provider pc)).outcomesOf provider right = _
    rw [Stats.outcomesOf_recordPrediction]
    exact h.resolved provider right
  each provider := by
    have heach := h.each provider
    show (s.stats.recordPrediction (s.provider pc)).predictionsOf provider =
      (s.stats.recordPrediction (s.provider pc)).resolutionsOf provider +
        followers (s.inFlight.insert key (s.provider pc)) provider + ledger.squashed.count _
    rw [Stats.predictionsOf_recordPrediction, Stats.resolutionsOf_recordPrediction,
      followers_insert idle]
    omega
  insertions_le := by
    show (s.stats.recordPrediction (s.provider pc)).filterInsertions ≤
      (s.stats.recordPrediction (s.provider pc)).outcomesOf .correlator false +
        (s.stats.recordPrediction (s.provider pc)).outcomesOf .baseline false
    cases s.provider pc <;> exact h.insertions_le
  skips_le := by
    show (s.stats.recordPrediction (s.provider pc)).thresholdSkips ≤ ledger.resolved.length
    cases s.provider pc <;> exact h.skips_le
  skips_eq htheta := by
    show (s.stats.recordPrediction (s.provider pc)).thresholdSkips = 0
    cases s.provider pc <;> exact h.skips_eq htheta

/-- A resolution charges the provider that the branch was predicted by. -/
theorem Balanced.resolve (h : s.Balanced ledger) (hs : s.Coherent C) {key : BranchKey}
    {provider : Provider} (hprovider : s.inFlight[key]? = some provider) (tags : List UInt64)
    (seqNo : UInt64) (piece : UInt8) (pc : UInt64) (predicted taken : Bool) (nextPc : UInt64)
    (baseline : β) :
    Balanced (ledger.enter (.resolve seqNo piece pc predicted taken nextPc,
        .resolved (s.resolution key provider tags pc predicted taken)))
      { s.resolved key provider tags pc predicted taken with baseline } := by
  have hpredictions := s.predictionsOf_resolved key provider tags pc predicted taken
  have hresolutions := s.resolutionsOf_resolved key provider tags pc predicted taken
  have houtcomes := s.outcomesOf_resolved key provider tags pc predicted taken
  refine ⟨?_, ?_, ?_, ?_, ?_, ?_, ?_⟩
  · show s.inFlight.erase key = ledger.live.erase key
    rw [h.live]
  · intro other
    rw [hpredictions]
    exact h.predicted other
  · -- The provider that the ledger has written down is the one that is charged.
    intro other right
    show _ = (ledger.resolved ++ [(ledger.live[key]?, predicted == taken)]).count
      (some other, right)
    rw [houtcomes, h.resolved, List.count_append, List.count_singleton, ← h.live, hprovider]
    simp only [beq_iff_eq, Prod.mk.injEq, Option.some.injEq]
  · intro other
    have heach := h.each other
    have hclosed := followers_erase hprovider other
    show _ = _ + followers (s.inFlight.erase key) other + ledger.squashed.count _
    rw [hpredictions, hresolutions]
    omega
  · have hle := h.insertions_le
    have hwrong := added_le_wrong s pc provider (predicted == taken)
    show s.stats.filterInsertions + s.added pc (predicted == taken) ≤ _
    rw [houtcomes, houtcomes]
    omega
  · have hle := h.skips_le
    have hskipped : (if (s.correlator.training taken tags).trained then 0 else 1) ≤ 1 := by
      split <;> decide
    show s.stats.thresholdSkips + (if _ then _ else _) ≤
      (ledger.resolved ++ [(ledger.live[key]?, predicted == taken)]).length
    rw [List.length_append, List.length_singleton]
    omega
  · intro htheta
    have hunused : s.correlator.useTheta = false := hs.correlator.useTheta.trans htheta
    show s.stats.thresholdSkips + (if (s.correlator.training taken tags).trained then 0 else 1) = 0
    rw [Correlator.trained_of_not_useTheta hunused, h.skips_eq htheta]
    rfl

omit [Baseline β] in
theorem Balanced.squash (h : s.Balanced ledger) {key : BranchKey} (live : key ∈ s.inFlight)
    (seqNo : UInt64) (piece : UInt8) (baseline : β) :
    Balanced (ledger.enter (.squash seqNo piece, .squashed key))
      { s.squashed key with baseline } where
  live := by
    show s.inFlight.erase key = ledger.live.erase key
    rw [h.live]
  predicted := h.predicted
  resolved := h.resolved
  each other := by
    obtain ⟨provider, hprovider⟩ := Option.isSome_iff_exists.1
      (Std.ExtTreeMap.mem_iff_isSome_getElem?.1 live)
    have heach := h.each other
    have hclosed := followers_erase hprovider other
    show _ = _ + followers (s.inFlight.erase key) other +
      (ledger.squashed ++ [ledger.live[key]?]).count (some other)
    rw [List.count_append, List.count_singleton, ← h.live, hprovider]
    simp only [beq_iff_eq, Option.some.injEq]
    show s.stats.predictionsOf other = s.stats.resolutionsOf other + _ + _
    omega
  insertions_le := h.insertions_le
  skips_le := h.skips_le
  skips_eq := h.skips_eq

/-- The ledger stays balanced, whichever hook is called. -/
theorem Step.balanced (hstep : s.Step hook outcome s') (hs : s.Coherent C)
    (h : s.Balanced ledger) : s'.Balanced (ledger.enter (hook, outcome)) := by
  cases hstep with
  | setup => exact balanced_of_empty rfl rfl
  | predict hkey idle => exact h.predict idle _ _ _
  | resolve hkey hprovider htags hconsumed => exact h.resolve hs hprovider _ _ _ _ _ _ _ _
  | squash hkey live hdiscarded => exact h.squash live _ _ _
  | fetch | decode | decodeUntold | execute | executeUntold | advanceEpoch | clearFilter =>
    exact ⟨h.live, h.predicted, h.resolved, h.each, h.insertions_le, h.skips_le, h.skips_eq⟩

/-- After any hooks, around any predictor, the branches in flight are those that a ledger of the
hooks and their outcomes has open, and the statistics count what it has written down since the
last setup: the predictions of each provider, and of those that have resolved how many were right
and how many wrong. Together with the ones in flight and the ones squashed, the resolved ones are
all the predictions of their provider. No more addresses have entered the filter than
predictions were wrong, no more updates have left the weights alone than there were resolutions,
and none has without the threshold. -/
theorem balanced_of_run {config : Config} {baseline : β} {s₀ : Selector β} {hooks : List Hook}
    {outcomes : List Outcome} {ledger : Ledger} (created : create config baseline = .ok s₀)
    (run : s₀.applyAll hooks = .ok (outcomes, s))
    (written : Ledger.ofHistory (hooks.zip outcomes) = ledger) :
    s.inFlight = ledger.live ∧
      (∀ provider, s.stats.predictionsOf provider = ledger.predicted.count provider ∧
        ∀ right, s.stats.outcomesOf provider right =
          ledger.resolved.count (some provider, right)) ∧
      s.stats.fromCorrelator = s.stats.correlatorRight + s.stats.correlatorWrong +
        followers s.inFlight .correlator + ledger.squashed.count (some .correlator) ∧
      s.stats.fromBaseline = s.stats.baselineRight + s.stats.baselineWrong +
        followers s.inFlight .baseline + ledger.squashed.count (some .baseline) ∧
      s.stats.filterInsertions ≤ s.stats.correlatorWrong + s.stats.baselineWrong ∧
      s.stats.thresholdSkips ≤ ledger.resolved.length ∧
      (config.correlator.useTheta = false → s.stats.thresholdSkips = 0) := by
  subst written
  obtain ⟨valid, rfl⟩ := create_eq_ok created
  have hs : (ofConfig config baseline).Coherent (Baseline.anyContract β) :=
    coherent_ofConfig valid trivial
  obtain ⟨-, hconfig, h⟩ := hs.history_induction
    (P := fun history t => t.config = config ∧ t.Balanced (Ledger.ofHistory history))
    (by
      intro history t t' hook outcome ht hstep hkept
      obtain ⟨hconfig, hbalanced⟩ := hkept
      rw [Ledger.ofHistory_concat]
      exact ⟨hstep.config_eq.trans hconfig, hstep.balanced ht hbalanced⟩)
    run [] ⟨rfl, balanced_of_empty rfl rfl⟩
  rw [List.nil_append] at h
  refine ⟨h.live, fun provider => ⟨h.predicted provider, h.resolved provider⟩, h.each .correlator,
    h.each .baseline, h.insertions_le, h.skips_le, ?_⟩
  rw [← hconfig]
  exact h.skips_eq

/-- Of four predictions one resolves, one is squashed and two stay in flight. -/
def leftoverHooks : List Hook :=
  overlappingHooks ++ [.predict 4 0 0x90, .squash 4 0, .predict 5 0 0x90]

theorem balanced_of_run_leftover :
    ∃ outcomes s,
      (ofConfig {} (Static.always true)).applyAll leftoverHooks = .ok (outcomes, s) ∧
      s.inFlight = (Ledger.ofHistory (leftoverHooks.zip outcomes)).live ∧
      s.stats.fromBaseline = 4 ∧ s.stats.outcomesOf .baseline false = 1 ∧
      s.stats.fromBaseline = s.stats.baselineRight + s.stats.baselineWrong +
        followers s.inFlight .baseline + 1 ∧
      s.stats.filterInsertions ≤ s.stats.correlatorWrong + s.stats.baselineWrong ∧
      s.stats.thresholdSkips = 0 := by
  have hcreated : create {} (Static.always true) = .ok (ofConfig {} (Static.always true)) := rfl
  have hanswers : (do
      let (outcomes, _) ← (ofConfig {} (Static.always true)).applyAll leftoverHooks
      let ledger := Ledger.ofHistory (leftoverHooks.zip outcomes)
      return (ledger.predicted.count .baseline, ledger.resolved, ledger.squashed)) =
      (.ok (4, [(some .baseline, false)], [some .baseline]) :
        Except Violation (Nat × List (Option Provider × Bool) × List (Option Provider))) := by
    decide +kernel
  obtain ⟨⟨outcomes, s⟩, hrun, hvalues⟩ := bind_eq_ok_iff.1 hanswers
  obtain ⟨hpredicted, hrest⟩ := Prod.mk.inj (Except.ok.inj hvalues)
  obtain ⟨hresolved, hsquashed⟩ := Prod.mk.inj hrest
  obtain ⟨hlive, hcounts, -, hbaseline, hinsertions, -, hskips⟩ :=
    balanced_of_run hcreated hrun rfl
  refine ⟨outcomes, s, hrun, hlive, ?_, ?_, ?_, hinsertions, hskips rfl⟩
  · exact (hcounts .baseline).1.trans hpredicted
  · rw [(hcounts .baseline).2 false, hresolved]
    rfl
  · rw [hsquashed] at hbaseline
    exact hbaseline

end Selector

end BranchSelector
