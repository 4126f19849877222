import BranchSelector.Proofs.Correlator.Step
import Mathlib.Data.List.Induction

/-!
# How far a vote drifts

An update judges a vote that is recomputed from the tags of its branch, with the weights of that
time and not with those of the prediction. One training moves one weight of each table by one at
most, whichever tags share the entry, so it moves a vote by no more than one for each knob that
votes (`natAbs_weigh_trainedAll_sub_le`). No other call but a reset moves a vote at all
(`Correlator.Step.natAbs_vote_sub_le`), and a reset leaves no checkpoint.

So the vote on the tags of a checkpoint is as far from the vote at the prediction that left it as
there have been trainings since (`Correlator.exists_since_of_run`).
-/

namespace BranchSelector

theorem CounterRange.natAbs_step_sub_le {range : CounterRange} {value : Int} (up : Bool)
    (h : range.contains value = true) : (range.step value up - value).natAbs ≤ 1 := by
  rw [contains_iff] at h
  unfold step
  split <;> split <;> omega

theorem WeightTable.InRange.natAbs_weight_sub_le {table : WeightTable} (h : table.InRange)
    (tag other : UInt64) (taken : Bool) :
    ((table.trained tag taken).weight other - table.weight other).natAbs ≤ 1 := by
  have hother : (table.trained tag taken).weight other =
      if compare (table.index tag) (table.index other) = .eq then
        table.range.step (table.weight tag) taken else table.weight other :=
    Std.ExtTreeMap.getD_insert
  rw [hother]
  split
  next hsame =>
    -- Another tag that folds to the trained entry weighs what the trained tag does.
    have hweight : table.weight other = table.weight tag :=
      congrArg (fun entry => table.weights.getD entry 0) (Std.LawfulEqOrd.eq_of_compare hsame).symm
    rw [hweight]
    exact CounterRange.natAbs_step_sub_le taken (h.weight tag)
  next => rw [Int.sub_self]; exact Nat.zero_le 1

/-- Training moves a vote by one at most for each knob that votes. -/
theorem natAbs_weigh_trainedAll_sub_le {tables : List WeightTable}
    (h : ∀ table ∈ tables, table.InRange) (taken : Bool) {tags : List UInt64}
    (htags : tags.length = tables.length) (mask : List Bool) (others : List UInt64) :
    (weigh (trainedAll taken tables tags) mask others - weigh tables mask others).natAbs ≤
      mask.count true := by
  induction tables generalizing tags mask others with
  | nil =>
    rw [trainedAll, List.zipWith_nil_left, Int.sub_self]
    exact Nat.zero_le _
  | cons table tables ih =>
    cases tags with
    | nil => cases htags
    | cons tag tags =>
      cases mask with
      | nil => exact Nat.le_refl 0
      | cons on mask =>
        cases others with
        | nil => exact Nat.zero_le _
        | cons other others =>
          have hhead := (h table List.mem_cons_self).natAbs_weight_sub_le tag other taken
          have hrest := ih (fun t ht => h t (List.mem_cons_of_mem table ht)) (Nat.succ.inj htags)
            mask others
          rw [trainedAll] at hrest
          rw [trainedAll, List.zipWith_cons_cons, weigh, weigh]
          cases on with
          | true =>
            rw [if_pos rfl, if_pos rfl, List.count_cons_self]
            omega
          | false =>
            rw [if_neg Bool.false_ne_true, if_neg Bool.false_ne_true,
              List.count_cons_of_ne Bool.false_ne_true]
            omega

namespace Correlator

/-- Whether a reply tells that the weights were trained. -/
def Reply.trains : Reply → Bool
  | .trained training => training.trained
  | .done | .voted _ | .weighed _ => false

variable {config : CorrelatorConfig} {c c' : Correlator} {call : Call} {reply : Reply}
  {calls : List Call} {replies : List Reply} {key : BranchKey} {tags : List UInt64}

/-- What an update does to the votes on any tags, if it trains. -/
theorem InRange.natAbs_vote_learned_sub_le (range : c.InRange) (h : c.Sound config) (taken : Bool)
    (touched : TouchedAll c.tables tags) (others : List UInt64) :
    ((c.learned taken tags).vote others - c.vote others).natAbs ≤
      if (c.training taken tags).trained then config.enabledFeatures else 0 := by
  show (weigh (if (c.training taken tags).trained then trainedAll taken c.tables tags
    else c.tables) c.mask others - weigh c.tables c.mask others).natAbs ≤ _
  split
  · rw [CorrelatorConfig.enabledFeatures, ← h.mask]
    exact natAbs_weigh_trainedAll_sub_le range.weights taken touched.length_eq.symm c.mask others
  · rw [Int.sub_self]
    exact Nat.le_refl 0

/-- Any step but a reset moves a vote only where it trains. -/
theorem Step.natAbs_vote_sub_le (hstep : c.Step call reply c') (h : c.Sound config)
    (range : c.InRange) (hcall : call ≠ .reset) (others : List UInt64) :
    (c'.vote others - c.vote others).natAbs ≤
      if reply.trains then config.enabledFeatures else 0 := by
  cases hstep with
  | @predict tags key _ _ =>
    have hvote : (c.checkpointed tags key).vote others = c.vote others := c.vote_touch tags others
    rw [hvote, Int.sub_self]
    exact Nat.zero_le _
  | @rawPredict tags _ =>
    rw [c.vote_touch tags others, Int.sub_self]
    exact Nat.zero_le _
  | update live => exact range.natAbs_vote_learned_sub_le h _ (h.touched live) others
  | @killCheckpoint key _ =>
    have hvote : (c.forget key).vote others = c.vote others := rfl
    rw [hvote, Int.sub_self]
    exact Nat.zero_le _
  | reset => exact absurd rfl hcall

/-- A checkpoint was left by the call at hand, or was there before. -/
theorem Step.getElem?_checkpoints (hstep : c.Step call reply c')
    (live : c'.checkpoints[key]? = some tags) :
    call = .predict tags key ∨
      c.checkpoints[key]? = some tags ∧ call ≠ .reset ∧ ∀ others, call ≠ .predict others key := by
  cases hstep with
  | @predict others other _ _ =>
    have hlive : (c.checkpoints.insert other others)[key]? = some tags := live
    obtain ⟨rfl, rfl⟩ | ⟨hother, hkept⟩ := eq_or_ne_of_getElem?_insert hlive
    · exact .inl rfl
    · refine .inr ⟨hkept, nofun, fun _ hpredict => hother ?_⟩
      exact (Call.predict.inj hpredict).2.symm
  | rawPredict => exact .inr ⟨live, nofun, nofun⟩
  | update => exact .inr ⟨getElem?_of_getElem?_erase live, nofun, nofun⟩
  | killCheckpoint => exact .inr ⟨getElem?_of_getElem?_erase live, nofun, nofun⟩
  | reset =>
    have hlive : (∅ : Std.ExtTreeMap BranchKey (List UInt64))[key]? = some tags := live
    rw [Std.ExtTreeMap.getElem?_empty] at hlive
    cases hlive

/-! ## Since a prediction -/

/-- Among some calls and their replies, the latest prediction of a branch: its tags, the state
that it was made in, and the replies since. -/
def Since (config : CorrelatorConfig) (calls : List Call) (replies : List Reply)
    (key : BranchKey) (tags : List UInt64) (c₀ : Correlator) (later : List Reply) : Prop :=
  ∃ before between earlier, calls = before ++ .predict tags key :: between ∧
    (∀ others, .predict others key ∉ between) ∧
    (ofConfig config).applyAll before = .ok (earlier, c₀) ∧
    replies = earlier ++ .voted (favours (c₀.vote tags)) :: later

theorem Since.concat {c₀ : Correlator} {later : List Reply}
    (h : Since config calls replies key tags c₀ later)
    (hcall : ∀ others, call ≠ .predict others key) (reply : Reply) :
    Since config (calls ++ [call]) (replies ++ [reply]) key tags c₀ (later ++ [reply]) := by
  obtain ⟨before, between, earlier, rfl, hbetween, hbefore, rfl⟩ := h
  refine ⟨before, between ++ [call], earlier, ?_, fun others hmem => ?_, hbefore, ?_⟩
  · rw [List.append_assoc, List.cons_append]
  · rcases List.mem_append.1 hmem with hold | hnew
    · exact hbetween others hold
    · exact hcall others (List.mem_singleton.1 hnew).symm
  · rw [List.append_assoc, List.cons_append]

/-- A list of one call is answered by one reply. -/
theorem applyAll_singleton_eq_ok :
    c.applyAll [call] = .ok (replies, c') ↔
      ∃ reply, c.apply call = .ok (reply, c') ∧ replies = [reply] := by
  rw [applyAll_cons_eq_ok]
  constructor
  · rintro ⟨reply, middle, rest, happly, hrest, rfl⟩
    obtain ⟨rfl, rfl⟩ := Prod.mk.inj (Except.ok.inj hrest)
    exact ⟨reply, happly, rfl⟩
  · rintro ⟨reply, happly, rfl⟩
    exact ⟨reply, c', [], happly, rfl, rfl⟩

/-- A checkpoint comes from the latest prediction of its branch, and the vote on its tags has
drifted since by no more than the trainings account for. -/
theorem exists_since_of_run (width : Tag.Foldable config.foldedTagBits)
    (hbits : 2 ≤ config.trainingCounterBits)
    (hrun : (ofConfig config).applyAll calls = .ok (replies, c))
    (live : c.checkpoints[key]? = some tags) :
    ∃ c₀ later, Since config calls replies key tags c₀ later ∧
      (c.vote tags - c₀.vote tags).natAbs ≤
        config.enabledFeatures * later.countP Reply.trains := by
  induction calls using List.reverseRecOn generalizing replies c with
  | nil =>
    obtain ⟨-, rfl⟩ := Prod.mk.inj (Except.ok.inj hrun)
    have hlive : (∅ : Std.ExtTreeMap BranchKey (List UInt64))[key]? = some tags := live
    rw [Std.ExtTreeMap.getElem?_empty] at hlive
    cases hlive
  | append_singleton calls call ih =>
    obtain ⟨replies, middle, last, hcalls, hcall, rfl⟩ := applyAll_append_eq_ok.1 hrun
    obtain ⟨reply, happly, rfl⟩ := applyAll_singleton_eq_ok.1 hcall
    have sound := sound_of_run width hcalls
    have range := inRange_of_run width hbits hcalls
    have hstep := sound.step width happly
    rcases hstep.getElem?_checkpoints live with rfl | ⟨hkept, hreset, hother⟩
    · -- The prediction itself.
      cases hstep with
      | predict =>
        refine ⟨middle, [], ⟨calls, [], replies, rfl, fun _ => List.not_mem_nil, hcalls, rfl⟩, ?_⟩
        have hvote : (middle.checkpointed tags key).vote tags = middle.vote tags :=
          middle.vote_touch tags tags
        rw [hvote, Int.sub_self]
        exact Nat.zero_le _
    · -- Any call since.
      obtain ⟨c₀, later, hsince, hdrift⟩ := ih hcalls hkept
      refine ⟨c₀, later ++ [reply], hsince.concat hother reply, ?_⟩
      have hmoved := hstep.natAbs_vote_sub_le sound range hreset tags
      rw [List.countP_append, List.countP_singleton, Nat.mul_add]
      split
      · rename_i htrains
        rw [if_pos htrains] at hmoved
        omega
      · rename_i htrains
        rw [if_neg htrains] at hmoved
        omega

/-- What an update judges has drifted from the vote at the latest prediction of its branch by no
more than the trainings since account for, and not at all if there were none. -/
theorem drift_of_update (width : Tag.Foldable config.foldedTagBits)
    (hbits : 2 ≤ config.trainingCounterBits)
    (hrun : (ofConfig config).applyAll calls = .ok (replies, c)) {taken : Bool}
    {training : Training} (hupdate : c.update taken key = .ok (training, c')) :
    ∃ tags c₀ later, Since config calls replies key tags c₀ later ∧
      (training.sum - c₀.vote tags).natAbs ≤
        config.enabledFeatures * later.countP Reply.trains ∧
      ((∀ reply ∈ later, reply.trains = false) → training.sum = c₀.vote tags) := by
  have happly : c.apply (.update taken key) = .ok (.trained training, c') := by
    rw [apply, hupdate]
    rfl
  cases (sound_of_run width hrun).step width happly with
  | @update _ _ tags live =>
    obtain ⟨c₀, later, hsince, hdrift⟩ := exists_since_of_run width hbits hrun live
    refine ⟨tags, c₀, later, hsince, hdrift, fun hnone => ?_⟩
    have hcount : later.countP Reply.trains = 0 := by
      rw [List.countP_eq_zero]
      intro reply hreply
      rw [hnone reply hreply]
      exact Bool.false_ne_true
    rw [hcount, Nat.mul_zero] at hdrift
    show c.vote tags = c₀.vote tags
    omega

end Correlator

end BranchSelector
