import BranchSelector.Proofs.Replay.Front
import BranchSelector.Proofs.Window.Contents

/-!
# What a prediction looks back on

A fetch makes two or three calls to the windows (`Branch.windowCalls`), and in a replay the
sequence numbers of these never decrease. So the windows of a replay hold the events in view of the
calls of its records. The last call is the pruning for the last record. Hence the counts that a
prediction puts into the knobs look back from the record before the branch that is predicted, and
not from this branch itself (`lookback_of_run`).
-/

namespace BranchSelector

open Windows

namespace Branch

/-- The calls that the fetch of a branch makes to the windows. -/
def windowCalls (branch : Branch) : List Windows.Call :=
  let seqNo := branch.seqNo.toNat
  let ofClass : List Windows.Call :=
    match branch.kind with
    | .uncondIndirect => [.indirect seqNo]
    | .callDirect | .callIndirect => [.call seqNo]
    | .condBranch | .uncondDirect | .callReturn => []
  .branch seqNo branch.opensBlock branch.pc branch.nextPc :: ofClass ++ [.prune seqNo]

variable {branch : Branch} {branches : List Branch}

theorem applyAll_windowCalls (windows : Windows) (branch : Branch) :
    windows.applyAll branch.windowCalls = Selector.fetchWindows windows branch := by
  unfold windowCalls Selector.fetchWindows
  cases branch.kind <;> rfl

theorem applyAll_flatMap_windowCalls (windows : Windows) (branches : List Branch) :
    windows.applyAll (branches.flatMap windowCalls) =
      branches.foldl Selector.fetchWindows windows := by
  rw [Windows.applyAll, List.foldl_flatMap]
  congr 1
  funext windows branch
  exact applyAll_windowCalls windows branch

/-- All calls of a fetch are given the sequence number of the branch. -/
theorem seqNo_of_mem_windowCalls {call : Windows.Call} (h : call ∈ branch.windowCalls) :
    call.seqNo? = some branch.seqNo.toNat := by
  unfold windowCalls at h
  rcases List.mem_append.1 h with hfront | hback
  · rcases List.mem_cons.1 hfront with rfl | hclass
    · rfl
    · cases hkind : branch.kind <;> rw [hkind] at hclass <;> cases hclass
      case uncondIndirect.head | callDirect.head | callIndirect.head => rfl
      all_goals contradiction
  · rw [List.mem_singleton.1 hback]
    rfl

/-- The sequence numbers of the calls never decrease. -/
theorem Ordered.windowCalls (ordered : Ordered branches) :
    ((branches.flatMap windowCalls).filterMap Windows.Call.seqNo?).Pairwise (· ≤ ·) := by
  rw [List.pairwise_filterMap, List.pairwise_flatMap]
  constructor
  · intro branch _
    refine List.pairwise_of_forall_mem_list ?_
    intro first hfirst second hsecond seqNo hseqNo seqNo' hseqNo'
    rw [seqNo_of_mem_windowCalls hfirst] at hseqNo
    rw [seqNo_of_mem_windowCalls hsecond] at hseqNo'
    exact Nat.le_of_eq (Option.some.inj (hseqNo.symm.trans hseqNo'))
  · refine ordered.increasing.imp ?_
    intro a b hbefore first hfirst second hsecond seqNo hseqNo seqNo' hseqNo'
    rw [seqNo_of_mem_windowCalls hfirst] at hseqNo
    rw [seqNo_of_mem_windowCalls hsecond] at hseqNo'
    obtain rfl := Option.some.inj hseqNo
    obtain rfl := Option.some.inj hseqNo'
    exact hbefore.seqNo_le

/-- A fetch records an event of a kind if its branch enters the windows of this kind. -/
theorem recorded_windowCalls (windows : Windows) (branch : Branch) (kind : WindowKind) :
    (branch.windowCalls.filter (Windows.Call.records windows.longBranchDistance kind)).filterMap
        Windows.Call.seqNo? =
      if windows.logs branch kind then [branch.seqNo.toNat] else [] := by
  unfold windowCalls logs
  cases kind with
  | indirect | call =>
    cases branch.kind <;> rfl
  | forward | backward | blockStart | longBranch =>
    -- The call that the class may add records an event of another kind.
    cases branch.kind <;> simp [Windows.Call.records, List.filter_cons] <;> split <;> rfl

/-- A fetch resets nothing. -/
theorem sinceReset_windowCalls (branches : List Branch) :
    sinceReset (branches.flatMap windowCalls) = branches.flatMap windowCalls := by
  rw [sinceReset, List.rtakeWhile_eq_self_iff]
  intro call hcall
  obtain ⟨branch, -, hcall⟩ := List.mem_flatMap.1 hcall
  have hseqNo := seqNo_of_mem_windowCalls hcall
  rw [bne_iff_ne]
  intro hreset
  rw [hreset] at hseqNo
  cases hseqNo

/-- The events of a kind are the branches that enter the windows of this kind. -/
theorem events_windowCalls (config : WindowConfig) (kind : WindowKind) (branches : List Branch) :
    events config.longBranchDistance kind (branches.flatMap windowCalls) =
      (branches.filter fun branch => (Windows.ofConfig config).logs branch kind).map
        fun branch => branch.seqNo.toNat := by
  rw [events, sinceReset_windowCalls]
  induction branches with
  | nil => rfl
  | cons branch branches ih =>
    have hfirst : (branch.windowCalls.filter
        (Windows.Call.records config.longBranchDistance kind)).filterMap Windows.Call.seqNo? = _ :=
      recorded_windowCalls (Windows.ofConfig config) branch kind
    rw [List.flatMap_cons, List.filter_append, List.filterMap_append, ih, hfirst, List.filter_cons]
    split <;> rfl

/-- Each fetch prunes once, for its branch. -/
theorem pruned_windowCalls (branches : List Branch) :
    (branches.flatMap windowCalls).filterMap Windows.Call.pruned? =
      branches.map fun branch => branch.seqNo.toNat := by
  induction branches with
  | nil => rfl
  | cons branch branches ih =>
    have hfirst : branch.windowCalls.filterMap Windows.Call.pruned? = [branch.seqNo.toNat] := by
      unfold windowCalls
      cases branch.kind <;> rfl
    rw [List.flatMap_cons, List.filterMap_append, ih, hfirst]
    rfl

end Branch

namespace Replay

open Branch

/-- How many of some branches have entered the windows of a kind and are in view of the window of
one reach, if the last of the branches is the one that was fetched last. -/
def lookback (config : WindowConfig) (kind : WindowKind) (span : Span) (done : List Branch) : Nat :=
  done.countP fun branch => (Windows.ofConfig config).logs branch kind &&
    decide (done.getLast?.elim 0 (·.seqNo.toNat - config.reach span) ≤ branch.seqNo.toNat)

/-- The windows count what a look back finds. -/
theorem count_eq_lookback (config : WindowConfig) {done : List Branch} (ordered : Ordered done)
    (kind : WindowKind) (span : Span) :
    (done.foldl Selector.fetchWindows (Windows.ofConfig config)).count kind span =
      lookback config kind span done := by
  have hviews := Views.applyAll config ordered.windowCalls
  have hhorizon : horizon (config.reach span) (done.flatMap windowCalls) =
      done.getLast?.elim 0 (·.seqNo.toNat - config.reach span) := by
    rw [horizon, pruned_windowCalls, List.getLast?_map]
    cases done.getLast? <;> rfl
  rw [← applyAll_flatMap_windowCalls, count_eq_length, hviews.entries, events_windowCalls, hhorizon,
    List.filter_map, List.length_map, List.filter_filter, lookback, List.countP_eq_length_filter]
  simp only [Function.comp_apply, Bool.and_comm]

/-- The windows of a replay are those of the records that were entered. -/
theorem windows_foldl_feed (front : Front) (done : List Branch) :
    (done.foldl Front.feed front).windows = done.foldl Selector.fetchWindows front.windows := by
  induction done generalizing front with
  | nil => rfl
  | cons branch done ih => exact ih (front.feed branch)

/-- After any calls to the windows in order of their sequence numbers, each window holds exactly
the events of its kind since the last reset from its horizon on, in the order of the calls. So
wherever a replay of records in order may be found, around any predictor, the next conditional
record is predicted, and the four knobs that the prediction takes from the windows count the
records in view of the one before. -/
theorem lookback_of_run :
    (∀ (config : WindowConfig) (calls : List Windows.Call),
      (calls.filterMap Windows.Call.seqNo?).Pairwise (· ≤ ·) →
      ∀ kind span, ((Windows.ofConfig config).applyAll calls).entries kind span =
        (events config.longBranchDistance kind calls).filter fun seqNo =>
          decide (horizon (config.reach span) calls ≤ seqNo)) ∧
    ∀ {β : Type} [Baseline β] {config : Config} {baseline : β} {s₀ : Selector β},
      Selector.create config baseline = .ok s₀ →
      ∀ {delay : Nat} {done : List Branch} {branch : Branch} {feds : List Fed} {r : Replay β},
        Ordered (done ++ [branch]) → branch.kind.isConditional = true →
        (start s₀ delay).run done = .ok (feds, r) →
        ∃ prediction s,
          r.selector.predict branch.seqNo branch.piece branch.pc = .ok (prediction, s) ∧
          s.knobs.indirectShort = lookback config.windows .indirect .short done ∧
          s.knobs.indirectLong = lookback config.windows .indirect .long done ∧
          s.knobs.longBranchShort = lookback config.windows .longBranch .short done ∧
          s.knobs.longBranchLong = lookback config.windows .longBranch .long done := by
  constructor
  · intro config calls ordered
    exact (Views.applyAll config ordered).entries
  · intro β _ config baseline s₀ created delay done branch feds r ordered hkind hrun
    obtain ⟨valid, rfl⟩ := Selector.create_eq_ok created
    have hs : (Selector.ofConfig config baseline).setup.Coherent (Baseline.anyContract β) :=
      (Selector.coherent_ofConfig valid trivial).setup
    have hdone := ordered.sublist (List.sublist_append_left done [branch])
    obtain ⟨hreaches, -⟩ := (Reaches.refl.run_ends hs hdone (Nat.zero_le delay)).of_ok hrun
    have hqueued := hreaches.queued hdone hs
    have hkey := key_eq_ok (ordered.pieces branch (by simp))
    have hwindows : r.selector.windows =
        done.foldl Selector.fetchWindows (Windows.ofConfig config.windows) := by
      have hfront := congrArg Front.windows (hreaches.front_eq hdone hs)
      rw [windows_foldl_feed] at hfront
      exact hfront
    have hcount : ∀ kind span, r.selector.windows.count kind span =
        lookback config.windows kind span done := by
      intro kind span
      rw [hwindows]
      exact count_eq_lookback config.windows hdone kind span
    exact ⟨_, _, hqueued.coherent.predict_eq hkey (hqueued.idle ordered) branch.pc,
      hcount .indirect .short, hcount .indirect .long, hcount .longBranch .short,
      hcount .longBranch .long⟩

/-- An event at the horizon is in view. The first two records of the trace are one sequence number
back from the third, and of these the first is long, as is the third. -/
theorem lookback_of_run_shortTrace :
    let config : Config :=
      { windows := { shortWindow := 1, longWindow := 1, longBranchDistance := 32 } }
    ((Windows.ofConfig {}).applyAll
        [.indirect 399, .indirect 400, .indirect 401, .prune 500]).entries .indirect .short =
      [400, 401] ∧
    ∃ feds r prediction s,
      (start (Selector.ofConfig config (Gshare.fresh 4)) 1).run (shortTrace.take 3) =
        .ok (feds, r) ∧
      r.selector.predict 3 0 0x40 = .ok (prediction, s) ∧ s.knobs.indirectShort = 0 ∧
      s.knobs.longBranchShort = 2 := by
  intro config
  have hcreated : Selector.create config (Gshare.fresh 4) =
    .ok (Selector.ofConfig config (Gshare.fresh 4)) := rfl
  obtain ⟨⟨feds, r⟩, hrun⟩ := exists_eq_ok_of_isOk
    (show ((start (Selector.ofConfig config (Gshare.fresh 4)) 1).run
      (shortTrace.take 3)).isOk = true by decide +kernel)
  have hordered : Ordered (shortTrace.take 3 ++ [⟨3, 0, 0x40, .condBranch, true, 0x80⟩]) :=
    ordered_shortTrace
  obtain ⟨prediction, s, hpredict, hindirect, -, hlong, -⟩ :=
    lookback_of_run.2 hcreated hordered rfl hrun
  refine ⟨?_, feds, r, prediction, s, hrun, hpredict, hindirect.trans ?_, hlong.trans ?_⟩
  · rw [lookback_of_run.1 {} _ (by decide)]
    decide
  · decide
  · decide

end Replay

end BranchSelector
