import BranchSelector.Baseline.Static
import BranchSelector.Proofs.Selector.History
import BranchSelector.Proofs.Selector.Shadow
import Mathlib.Data.List.DropRight
import Mathlib.Order.Bounds.Basic

/-!
# The running knobs along a path

Two of the knobs are counted as branches are fetched. They are functions of the path, which is the
branches that were fetched since the last setup (`Selector.path`).

The call depth goes up at a call and down at a return, but never below zero. Such a walk stands at
the greatest balance of calls and returns over all ends of the path, of which the empty one has the
balance zero (`isGreatest_callBalances_concat`). What lies before the end of the greatest balance is
forgotten: returns without a call. The bias is a walk on the conditional branches that is kept
between two bounds (`biasAfter`).

Only a setup and a fetch touch the two knobs (`Selector.Step.sameRunning`). A prediction copies the
other four in, into the same record.
-/

namespace BranchSelector

/-! ## Paths -/

/-- Calls less returns. -/
def callBalance (kinds : List BranchClass) : Int :=
  kinds.countP BranchClass.isCall - kinds.count .callReturn

/-- The balances of the ends of a path. -/
def callBalances (kinds : List BranchClass) : Set Int :=
  {d | ∃ suffix, suffix <:+ kinds ∧ callBalance suffix = d}

theorem callBalance_append (kinds more : List BranchClass) :
    callBalance (kinds ++ more) = callBalance kinds + callBalance more := by
  unfold callBalance
  rw [List.countP_append, List.count_append]
  omega

theorem isGreatest_callBalances_nil : IsGreatest (callBalances []) 0 := by
  refine ⟨⟨[], List.suffix_refl [], rfl⟩, ?_⟩
  rintro d ⟨suffix, hsuffix, rfl⟩
  rw [List.suffix_nil.1 hsuffix]
  exact Int.le_refl 0

/-- With one branch more the greatest balance moves by that of the branch, unless it falls below
zero, where it is that of the empty end. -/
theorem isGreatest_callBalances_concat {kinds : List BranchClass} {d : Int}
    (h : IsGreatest (callBalances kinds) d) (kind : BranchClass) :
    IsGreatest (callBalances (kinds ++ [kind])) (max 0 (d + callBalance [kind])) := by
  obtain ⟨⟨best, hbest, rfl⟩, hgreatest⟩ := h
  constructor
  · by_cases hfalls : callBalance best + callBalance [kind] ≤ 0
    · exact ⟨[], List.nil_suffix, (max_eq_left hfalls).symm⟩
    · refine ⟨best ++ [kind], List.suffix_concat_iff.2 (.inr ⟨best, rfl, hbest⟩), ?_⟩
      rw [callBalance_append, max_eq_right (by omega)]
  · rintro d ⟨suffix, hsuffix, rfl⟩
    rcases List.suffix_concat_iff.1 hsuffix with rfl | ⟨front, rfl, hfront⟩
    · exact le_max_left _ _
    · have hle : callBalance front ≤ callBalance best := hgreatest ⟨front, hfront, rfl⟩
      rw [callBalance_append]
      exact le_trans (by omega) (le_max_right _ _)

/-- The directions of the conditional branches. -/
def conditionalDirections (path : List Branch) : List Bool :=
  (path.filter (·.kind.isConditional)).map (·.taken)

/-- A walk that starts at zero, goes up at a taken branch and down at any other one, and is kept
between zero and seven. -/
def biasAfter (directions : List Bool) : Int :=
  directions.foldl (fun bias taken => max 0 (min 7 (bias + if taken then 1 else -1))) 0

theorem biasAfter_concat (directions : List Bool) (taken : Bool) :
    biasAfter (directions ++ [taken]) =
      max 0 (min 7 (biasAfter directions + if taken then 1 else -1)) :=
  List.foldl_concat ..

theorem biasAfter_le (directions : List Bool) : biasAfter directions ≤ 7 := by
  induction directions using List.reverseRecOn with
  | nil => decide
  | append_singleton directions taken ih =>
    rw [biasAfter_concat]
    omega

/-! ## The knobs of a path -/

/-- The running knobs are those of a path. -/
structure Knobs.Walked (path : List Branch) (knobs : Knobs) : Prop where
  depth : IsGreatest (callBalances (path.map (·.kind))) (knobs.callDepth : Int)
  bias : (knobs.globalBias : Int) = biasAfter (conditionalDirections path)

namespace Knobs

variable {path : List Branch} {knobs other : Knobs}

theorem walked_nil : ({} : Knobs).Walked [] := ⟨isGreatest_callBalances_nil, rfl⟩

theorem Walked.sameRunning (h : knobs.Walked path) (same : knobs.SameRunning other) :
    other.Walked path where
  depth := by
    rw [same.callDepth]
    exact h.depth
  bias := by
    rw [same.globalBias]
    exact h.bias

theorem sameRunning_refresh (knobs : Knobs) (counts : EventCounts) :
    knobs.SameRunning (knobs.refresh counts) := ⟨rfl, rfl⟩

/-- A fetch moves the depth by the balance of the branch. -/
theorem callDepth_fetchKnobs (knobs : Knobs) (kind : BranchClass) (taken : Bool) :
    ((Selector.fetchKnobs knobs kind taken).callDepth : Int) =
      max 0 ((knobs.callDepth : Int) + callBalance [kind]) := by
  cases kind with
  | callDirect | callIndirect =>
    show ((knobs.callDepth + 1 : Nat) : Int) = max 0 ((knobs.callDepth : Int) + 1)
    omega
  | callReturn =>
    show ((knobs.callDepth - 1 : Nat) : Int) = max 0 ((knobs.callDepth : Int) + -1)
    omega
  | condBranch =>
    have hsame : (knobs.onConditional taken).callDepth = knobs.callDepth := by
      unfold onConditional
      split_ifs <;> rfl
    show ((knobs.onConditional taken).callDepth : Int) = max 0 ((knobs.callDepth : Int) + 0)
    omega
  | uncondDirect | uncondIndirect =>
    show (knobs.callDepth : Int) = max 0 ((knobs.callDepth : Int) + 0)
    omega

/-- A conditional branch moves the bias within its bounds. -/
theorem globalBias_onConditional (h : knobs.globalBias ≤ 7) (taken : Bool) :
    ((knobs.onConditional taken).globalBias : Int) =
      max 0 (min 7 ((knobs.globalBias : Int) + if taken then 1 else -1)) := by
  unfold onConditional biasLimit
  cases taken with
  | true =>
    by_cases hlimit : knobs.globalBias < 7
    · simp only [if_true, if_pos hlimit]
      omega
    · simp only [if_true, if_neg hlimit]
      omega
  | false =>
    show ((knobs.globalBias - 1 : Nat) : Int) = max 0 (min 7 ((knobs.globalBias : Int) + -1))
    omega

/-- A fetch takes the knobs one branch further. -/
theorem Walked.fetch (h : knobs.Walked path) (branch : Branch) :
    (Selector.fetchKnobs knobs branch.kind branch.taken).Walked (path ++ [branch]) where
  depth := by
    rw [List.map_append, callDepth_fetchKnobs]
    exact isGreatest_callBalances_concat h.depth branch.kind
  bias := by
    unfold conditionalDirections
    rw [List.filter_append, List.map_append]
    by_cases hkind : branch.kind = .condBranch
    · have hbias := h.bias
      have hle := biasAfter_le (conditionalDirections path)
      have hone : [branch].filter (·.kind.isConditional) = [branch] :=
        List.filter_cons_of_pos (by rw [hkind]; rfl)
      rw [hone, List.map_singleton, biasAfter_concat, ← conditionalDirections, ← hbias, hkind]
      exact globalBias_onConditional (by omega) branch.taken
    · have hnone : [branch].filter (·.kind.isConditional) = [] := by
        refine List.filter_cons_of_neg ?_
        cases hclass : branch.kind <;> simp_all [BranchClass.isConditional]
      rw [hnone, List.map_nil, List.append_nil, ← conditionalDirections, ← h.bias]
      cases hclass : branch.kind with
      | condBranch => exact absurd hclass hkind
      | uncondDirect | uncondIndirect | callDirect | callIndirect | callReturn => rfl

end Knobs

/-! ## Histories -/

/-- The branch that a hook fetches. -/
def Hook.fetched? : Hook → Option Branch
  | .fetch branch _ => some branch
  | .setup | .predict _ _ _ | .resolve _ _ _ _ _ _ | .squash _ _ | .decode _ _ _
  | .execute _ _ _ _ | .advanceEpoch | .clearFilter => none

namespace Selector

/-- The branches that were fetched since the last setup. -/
def path (hooks : List Hook) : List Branch :=
  (hooks.rtakeWhile (· != .setup)).filterMap Hook.fetched?

theorem path_concat_setup (hooks : List Hook) : path (hooks ++ [.setup]) = [] := by
  rw [path, List.rtakeWhile_concat_neg _ _ _ (by simp)]
  rfl

theorem path_concat {hook : Hook} (hsetup : hook ≠ .setup) (hooks : List Hook) :
    path (hooks ++ [hook]) = path hooks ++ hook.fetched?.toList := by
  rw [path, List.rtakeWhile_concat_pos _ _ _ (by simpa using hsetup), List.filterMap_append]
  cases hook <;> rfl

variable {β : Type} [Baseline β] {s s' : Selector β} {hook : Hook} {hooks : List Hook}
  {outcome : Outcome}

/-- Hooks other than a setup and a fetch leave the running knobs alone. -/
theorem Step.sameRunning (hstep : s.Step hook outcome s') (hsetup : hook ≠ .setup)
    (hfetch : hook.fetched? = none) : s.knobs.SameRunning s'.knobs := by
  cases hstep with
  | setup => exact absurd rfl hsetup
  | fetch => cases hfetch
  | predict => exact s.knobs.sameRunning_refresh _
  | resolve | squash | decode | decodeUntold | execute | executeUntold | advanceEpoch
  | clearFilter => exact ⟨rfl, rfl⟩

/-- Along with the path go the knobs. -/
theorem Step.walked (hstep : s.Step hook outcome s') (h : s.knobs.Walked (path hooks)) :
    s'.knobs.Walked (path (hooks ++ [hook])) := by
  by_cases hsetup : hook = .setup
  · subst hsetup
    rw [path_concat_setup]
    cases hstep
    exact Knobs.walked_nil
  · rw [path_concat hsetup]
    cases hfetch : hook.fetched? with
    | none =>
      rw [Option.toList_none, List.append_nil]
      exact h.sameRunning (hstep.sameRunning hsetup hfetch)
    | some branch =>
      rw [Option.toList_some]
      cases hstep with
      | fetch =>
        obtain rfl := Option.some.inj hfetch
        exact h.fetch _
      | setup | predict | resolve | squash | decode | decodeUntold | execute | executeUntold
      | advanceEpoch | clearFilter => cases hfetch

/-- After any hooks, around any predictor and with any number of branches in flight, the call depth
is the greatest balance of calls and returns over all ends of the path, and the bias is that of the
walk along its conditional branches. No hook changes either of them but a setup and a fetch, nor
does copying in the counts of the windows. -/
theorem walked_of_run {config : Config} {baseline : β} {s₀ : Selector β} {outcomes : List Outcome}
    (created : create config baseline = .ok s₀) (run : s₀.applyAll hooks = .ok (outcomes, s)) :
    IsGreatest (callBalances ((path hooks).map (·.kind))) (s.knobs.callDepth : Int) ∧
      (s.knobs.globalBias : Int) = biasAfter (conditionalDirections (path hooks)) ∧
      (∀ hook outcome s', s.apply hook = .ok (outcome, s') → hook ≠ .setup →
        hook.fetched? = none → s'.knobs.callDepth = s.knobs.callDepth ∧
          s'.knobs.globalBias = s.knobs.globalBias) ∧
      ∀ counts, (s.knobs.refresh counts).callDepth = s.knobs.callDepth ∧
        (s.knobs.refresh counts).globalBias = s.knobs.globalBias := by
  obtain ⟨hs, hwalked⟩ := created_induction (C := Baseline.anyContract β)
    (P := fun hooks t => t.knobs.Walked (path hooks)) created trivial
    (fun _ hstep h => hstep.walked h) run Knobs.walked_nil
  refine ⟨hwalked.depth, hwalked.bias, fun hook outcome s' happly hsetup hfetch => ?_,
    fun counts => ⟨rfl, rfl⟩⟩
  have hsame := (hs.step happly).sameRunning hsetup hfetch
  exact ⟨hsame.callDepth, hsame.globalBias⟩

/-- After a setup, a return without a call, two calls and a return, with one branch in flight that
was taken and one that was not. -/
def callingHooks : List Hook :=
  let jump (seqNo : UInt64) (kind : BranchClass) : Hook :=
    .fetch ⟨seqNo, 0, 0x90, kind, true, 0x400⟩ true
  .fetch ⟨1, 0, 0x20, .callDirect, true, 0x40⟩ true :: overlappingHooks ++
    [jump 4 .callReturn, jump 5 .callDirect, jump 6 .callIndirect, .predict 7 0 0x90,
      jump 8 .callReturn]

theorem walked_of_run_calling :
    ∃ outcomes s, (ofConfig {} (Static.always true)).applyAll callingHooks = .ok (outcomes, s) ∧
      s.knobs.callDepth = 1 ∧ s.knobs.globalBias = 0 ∧
      (path callingHooks).map (·.kind) =
        [.condBranch, .condBranch, .callReturn, .callDirect, .callIndirect, .callReturn] ∧
      (∀ suffix, suffix <:+ (path callingHooks).map (·.kind) → callBalance suffix ≤ 1) ∧
      biasAfter (conditionalDirections (path callingHooks)) = 0 := by
  have hcreated : create {} (Static.always true) = .ok (ofConfig {} (Static.always true)) := rfl
  have hknobs : ((ofConfig {} (Static.always true)).applyAll callingHooks).map
      (fun answer => (answer.2.knobs.callDepth, answer.2.knobs.globalBias)) = .ok (1, 0) := by
    decide +kernel
  cases hrun : (ofConfig {} (Static.always true)).applyAll callingHooks with
  | error violation =>
    rw [hrun] at hknobs
    cases hknobs
  | ok answer =>
    obtain ⟨outcomes, s⟩ := answer
    rw [hrun] at hknobs
    obtain ⟨hdepth, hbias⟩ := Prod.mk.inj (Except.ok.inj hknobs)
    obtain ⟨hgreatest, hwalk, -, -⟩ := walked_of_run hcreated hrun
    refine ⟨outcomes, s, rfl, hdepth, hbias, by decide, fun suffix hsuffix => ?_, ?_⟩
    · have hle := hgreatest.2 ⟨suffix, hsuffix, rfl⟩
      rwa [hdepth] at hle
    · rw [← hwalk, hbias]
      rfl

end Selector

end BranchSelector
