import BranchSelector.Proofs.Replay.Waiting
import BranchSelector.Proofs.Selector.Counts

/-!
# The accounts of a replay

Every prediction is counted once for the provider that it follows, and once more for the same
provider when it resolves. So the predictions of a provider are its resolutions and the branches
that wait for it, and both providers together have as many predictions as there are conditional
records (`Replay.Accounted`). No count exceeds the number of records (`Accounted.countsLe`).
-/

namespace BranchSelector

open Branch

namespace Replay

variable {β : Type}

/-- The accounts of a replay after some records. -/
structure Accounted (done : List Branch) (r : Replay β) : Prop where
  each : ∀ provider, r.selector.stats.predictionsOf provider =
    r.selector.stats.resolutionsOf provider + r.waiting provider fun _ => true
  total : r.selector.stats.predictionsOf .correlator + r.selector.stats.predictionsOf .baseline =
    done.countP (·.kind.isConditional)
  insertions_le : r.selector.stats.filterInsertions ≤
    r.selector.stats.resolutionsOf .correlator + r.selector.stats.resolutionsOf .baseline
  skips_le : r.selector.stats.thresholdSkips ≤
    r.selector.stats.resolutionsOf .correlator + r.selector.stats.resolutionsOf .baseline
  epoch : r.selector.epoch = 0
  epochInsertions : r.selector.epochInsertions = r.selector.stats.filterInsertions
  front : Selector.FrontLe done.length r.selector.knobs r.selector.windows

/-- No count of the statistics exceeds the number of records. -/
theorem Accounted.stats_le {done : List Branch} {r : Replay β} (h : r.Accounted done) :
    ∀ count ∈ r.selector.stats.counts, count ≤ done.length := by
  have hcorrelator := h.each .correlator
  have hbaseline := h.each .baseline
  have htotal := h.total
  have hinsertions := h.insertions_le
  have hskips := h.skips_le
  have hlength : done.countP (·.kind.isConditional) ≤ done.length := List.countP_le_length
  simp only [Stats.predictionsOf, Stats.resolutionsOf] at hcorrelator hbaseline htotal
  simp only [Stats.resolutionsOf] at hinsertions hskips
  intro count hcount
  simp only [Stats.counts, List.mem_cons, List.not_mem_nil, or_false] at hcount
  omega

theorem Accounted.countsLe {done : List Branch} {r : Replay β} (h : r.Accounted done) :
    r.selector.CountsLe done.length where
  stats := h.stats_le
  epoch := h.epoch ▸ Nat.zero_le _
  epochInsertions := h.epochInsertions ▸ h.stats_le _ (by simp [Stats.counts])
  front := h.front

/-! ## The accounts are kept -/

variable [Baseline β] {C : Baseline.Contract β} {done : List Branch} {r : Replay β}
  {branch : Branch} {p : Pending} {ps : List Pending} {provider : Provider} {tags : List UInt64}
  {baseline : β}

theorem accounted_start (s : Selector β) (delay : Nat) : (start s delay).Accounted [] where
  each provider := by cases provider <;> rfl
  total := rfl
  insertions_le := Nat.zero_le _
  skips_le := Nat.zero_le _
  epoch := rfl
  epochInsertions := rfl
  front := .of_entries_eq_nil (Windows.entries_reset s.windows)

theorem Accounted.launched (h : r.Accounted done) (queued : r.Queued C done)
    (ordered : Ordered (done ++ [branch])) (hkind : branch.kind.isConditional = true) :
    (r.launched branch).Accounted (done ++ [branch]) := by
  have hstats : (r.launched branch).selector.stats =
    r.selector.stats.recordPrediction (r.selector.provider branch.pc) := rfl
  have hkept : (r.launched branch).selector.stats.filterInsertions =
        r.selector.stats.filterInsertions ∧
      (r.launched branch).selector.stats.thresholdSkips = r.selector.stats.thresholdSkips := by
    rw [hstats]
    cases r.selector.provider branch.pc <;> exact ⟨rfl, rfl⟩
  refine ⟨?_, ?_, ?_, ?_, h.epoch, ?_, ?_⟩
  · -- The provider of the new branch has one prediction more, and one branch more that waits.
    intro provider
    rw [hstats, Stats.predictionsOf_recordPrediction, Stats.resolutionsOf_recordPrediction,
      queued.waiting_launched ordered, h.each provider]
    simp [Nat.add_assoc]
  · rw [hstats, Stats.predictionsOf_recordPrediction, Stats.predictionsOf_recordPrediction,
      List.countP_append, ← h.total, List.countP_singleton, if_pos hkind]
    cases r.selector.provider branch.pc <;> simp <;> omega
  · rw [hkept.1, hstats, Stats.resolutionsOf_recordPrediction,
      Stats.resolutionsOf_recordPrediction]
    exact h.insertions_le
  · rw [hkept.2, hstats, Stats.resolutionsOf_recordPrediction,
      Stats.resolutionsOf_recordPrediction]
    exact h.skips_le
  · rw [hkept.1]
    exact h.epochInsertions
  · rw [List.length_append]
    exact h.front.refresh.fetch branch

theorem Accounted.passed (h : r.Accounted done) (hkind : branch.kind.isConditional = false) :
    (r.passed branch).Accounted (done ++ [branch]) where
  each := h.each
  total := by
    rw [List.countP_append, ← h.total, List.countP_singleton, hkind]
    rfl
  insertions_le := h.insertions_le
  skips_le := h.skips_le
  epoch := h.epoch
  epochInsertions := h.epochInsertions
  front := by
    rw [List.length_append]
    exact h.front.fetch branch

theorem Accounted.retired (h : r.Accounted done) (queued : r.Queued C done)
    (ordered : Ordered done) (hretires : r.Retires p ps provider tags baseline) :
    (r.retired p ps provider tags baseline).Accounted done := by
  have hpredictions (other : Provider) :
      (r.retired p ps provider tags baseline).selector.stats.predictionsOf other =
        r.selector.stats.predictionsOf other :=
    r.selector.predictionsOf_resolved p.branch.ident provider tags p.branch.pc p.direction
      p.branch.taken other
  have hresolutions (other : Provider) :
      (r.retired p ps provider tags baseline).selector.stats.resolutionsOf other =
        r.selector.stats.resolutionsOf other + if provider = other then 1 else 0 :=
    r.selector.resolutionsOf_resolved p.branch.ident provider tags p.branch.pc p.direction
      p.branch.taken other
  have hone : (if provider = .correlator then 1 else 0) +
      (if provider = .baseline then 1 else 0) = 1 := by
    cases provider <;> rfl
  have hadded := Selector.CountsLe.added_le r.selector p.branch.pc (p.direction == p.branch.taken)
  refine ⟨?_, ?_, ?_, ?_, h.epoch, ?_, h.front⟩
  · -- What the provider has resolved more, it has waiting less.
    intro other
    have hwaiting := queued.waiting_retired ordered hretires other fun _ => true
    rw [hpredictions, hresolutions, h.each other, hwaiting]
    simp only [and_true]
    omega
  · rw [hpredictions, hpredictions]
    exact h.total
  · have hinsertions := h.insertions_le
    show r.selector.stats.filterInsertions + r.selector.added p.branch.pc _ ≤ _
    rw [hresolutions, hresolutions]
    omega
  · have hskips := h.skips_le
    have hskipped : (if (r.selector.correlator.training p.branch.taken tags).trained then 0
        else 1) ≤ 1 := by
      split <;> decide
    show r.selector.stats.thresholdSkips + (if _ then _ else _) ≤ _
    rw [hresolutions, hresolutions]
    omega
  · show r.selector.epochInsertions + _ = r.selector.stats.filterInsertions + _
    rw [h.epochInsertions]

/-- The accounts hold wherever a replay may be found. -/
theorem Reaches.accounted {s : Selector β} {delay : Nat} {settled : List Resolution}
    (h : Reaches (start s delay) done settled r) (ordered : Ordered done)
    (hs : s.setup.Coherent C) : r.Accounted done := by
  refine (h.induction (P := fun done _ r => r.Accounted done) ordered hs
    (accounted_start s delay) ?_ ?_ ?_).2
  · exact fun queued ordered _ hkind h => h.launched queued ordered hkind
  · exact fun _ _ hkind h => h.passed hkind
  · exact fun queued ordered hretires h => h.retired queued ordered hretires

end Replay

end BranchSelector
