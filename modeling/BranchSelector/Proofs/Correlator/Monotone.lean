import BranchSelector.Proofs.Correlator.Step

/-!
# Votes rise with outcomes

Two correlators get the same calls, but the updates of the second one are told that a branch was
taken wherever those of the first one are, and maybe elsewhere. A weight steps up where it would
have stepped down, from a value that is no lower, so no weight falls behind
(`CounterRange.step_le_step`). Tags that share an entry do not matter, as both tables fold them
alike.

This holds as long as every update trains. With the threshold on, an outcome of the first
correlator can be one that it learns from and of the second one that it does not, and then the
weights part. So the run lemma (`Ranked.applyAll`) is about correlators without it.
-/

namespace BranchSelector

/-- A step is monotone in the value and in the direction at once: at the bounds as well, since
both values lie between them. -/
theorem CounterRange.step_le_step {range : CounterRange} {low high : Int} {up up' : Bool}
    (hlow : range.contains low = true) (hhigh : range.contains high = true) (hle : low ≤ high)
    (hup : up = true → up' = true) : range.step low up ≤ range.step high up' := by
  rw [contains_iff] at hlow hhigh
  unfold step
  cases up with
  | true =>
    rw [hup rfl, if_pos rfl, if_pos rfl]
    split <;> split <;> omega
  | false =>
    cases up' <;> simp only [Bool.false_eq_true, if_false, if_true] <;> split <;> split <;> omega

/-! ## Tables -/

namespace WeightTable

/-- Two tables with the same entries, none of which weighs more in the first. -/
structure Below (low high : WeightTable) : Prop where
  foldedBits : low.foldedBits = high.foldedBits
  counterBits : low.counterBits = high.counterBits
  entries : ∀ i, i ∈ low.weights ↔ i ∈ high.weights
  weights : ∀ i, low.weights.getD i 0 ≤ high.weights.getD i 0

namespace Below

variable {low high : WeightTable}

theorem refl (table : WeightTable) : table.Below table :=
  ⟨rfl, rfl, fun _ => Iff.rfl, fun _ => Int.le_refl _⟩

theorem index_eq (h : low.Below high) (tag : UInt64) : low.index tag = high.index tag :=
  congrArg (Tag.xorSlices tag) h.foldedBits

theorem range_eq (h : low.Below high) : low.range = high.range :=
  congrArg CounterRange.signed h.counterBits

theorem weight_le (h : low.Below high) (tag : UInt64) : low.weight tag ≤ high.weight tag := by
  rw [weight, weight, h.index_eq tag]
  exact h.weights _

theorem touch (h : low.Below high) (tag : UInt64) : (low.touch tag).Below (high.touch tag) where
  foldedBits := h.foldedBits
  counterBits := h.counterBits
  entries i := by
    simp only [WeightTable.touch, Std.ExtTreeMap.mem_insertIfNew, h.index_eq tag, h.entries i]
  weights i := by
    simp only [WeightTable.touch, getD_insertIfNew_zero]
    exact h.weights i

/-- Training keeps the tables in order, if the second is trained up where the first one is. -/
theorem trained (h : low.Below high) (hlow : low.InRange) (hhigh : high.InRange) (tag : UInt64)
    {taken taken' : Bool} (htaken : taken = true → taken' = true) :
    (low.trained tag taken).Below (high.trained tag taken') where
  foldedBits := h.foldedBits
  counterBits := h.counterBits
  entries i := by
    simp only [WeightTable.trained, Std.ExtTreeMap.mem_insert, h.index_eq tag, h.entries i]
  weights i := by
    have hstep : low.range.step (low.weight tag) taken ≤
        high.range.step (high.weight tag) taken' := by
      rw [h.range_eq]
      exact CounterRange.step_le_step (h.range_eq ▸ hlow.weight tag) (hhigh.weight tag)
        (h.weight_le tag) htaken
    simp only [WeightTable.trained, Std.ExtTreeMap.getD_insert, h.index_eq tag]
    split
    · exact hstep
    · exact h.weights i

end Below

end WeightTable

/-- Rows of tables, of which none weighs more in the first row. -/
def BelowAll (lows highs : List WeightTable) : Prop :=
  List.Forall₂ WeightTable.Below lows highs

namespace BelowAll

variable {lows highs : List WeightTable}

theorem refl (tables : List WeightTable) : BelowAll tables tables :=
  List.forall₂_same.2 fun table _ => .refl table

theorem touchAll (h : BelowAll lows highs) (tags : List UInt64) :
    BelowAll (touchAll lows tags) (touchAll highs tags) := by
  induction h generalizing tags with
  | nil => cases tags <;> exact .nil
  | cons htable htables ih =>
    cases tags with
    | nil => exact .cons htable htables
    | cons tag tags => exact .cons (htable.touch tag) (ih tags)

theorem trainedAll (h : BelowAll lows highs) (hlows : ∀ table ∈ lows, table.InRange)
    (hhighs : ∀ table ∈ highs, table.InRange) {taken taken' : Bool}
    (htaken : taken = true → taken' = true) (tags : List UInt64) :
    BelowAll (trainedAll taken lows tags) (trainedAll taken' highs tags) := by
  induction h generalizing tags with
  | nil => exact .nil
  | @cons low high lows highs htable _ ih =>
    cases tags with
    | nil => exact .nil
    | cons tag tags =>
      have hrest := ih (fun table ht => hlows table (List.mem_cons_of_mem low ht))
        (fun table ht => hhighs table (List.mem_cons_of_mem high ht)) tags
      exact .cons (htable.trained (hlows low List.mem_cons_self) (hhighs high List.mem_cons_self)
        tag htaken) hrest

theorem weigh_le (h : BelowAll lows highs) (mask : List Bool) (tags : List UInt64) :
    weigh lows mask tags ≤ weigh highs mask tags := by
  induction h generalizing mask tags with
  | nil => exact Int.le_refl _
  | cons htable _ ih =>
    cases mask with
    | nil => exact Int.le_refl _
    | cons on mask =>
      cases tags with
      | nil => exact Int.le_refl _
      | cons tag tags =>
        refine Int.add_le_add ?_ (ih mask tags)
        split
        · exact htable.weight_le tag
        · exact Int.le_refl 0

end BelowAll

namespace Correlator

/-! ## Correlators -/

/-- Two calls that differ at most in the direction that an update is told, which is taken in the
second if it is in the first. -/
inductive Call.Below : Call → Call → Prop
  | predict (tags : List UInt64) (key : BranchKey) : Below (.predict tags key) (.predict tags key)
  | rawPredict (tags : List UInt64) : Below (.rawPredict tags) (.rawPredict tags)
  | update {taken taken' : Bool} (key : BranchKey) (h : taken = true → taken' = true) :
    Below (.update taken key) (.update taken' key)
  | killCheckpoint (key : BranchKey) : Below (.killCheckpoint key) (.killCheckpoint key)
  | reset : Below .reset .reset

/-- Two replies of the same kind, of which the second speaks for taken if the first one does, on a
vote that is no lower. -/
inductive Reply.Below : Reply → Reply → Prop
  | done : Below .done .done
  | voted {taken taken' : Bool} (h : taken = true → taken' = true) :
    Below (.voted taken) (.voted taken')
  | weighed {sum sum' : Int} (h : sum ≤ sum') : Below (.weighed sum) (.weighed sum')
  | trained {training training' : Training} (h : training.sum ≤ training'.sum)
      (hlow : training.trained = true) (hhigh : training'.trained = true) :
    Below (.trained training) (.trained training')

/-- Two correlators with the same checkpoints and the same entries, none of which weighs more in
the first. -/
structure Below (low high : Correlator) : Prop where
  tables : BelowAll low.tables high.tables
  mask : low.mask = high.mask
  checkpoints : low.checkpoints = high.checkpoints

variable {config : CorrelatorConfig} {low high : Correlator}

theorem Below.refl (c : Correlator) : c.Below c :=
  ⟨.refl c.tables, rfl, rfl⟩

theorem Below.vote_le (h : low.Below high) (tags : List UInt64) :
    low.vote tags ≤ high.vote tags := by
  rw [vote, vote, h.mask]
  exact h.tables.weigh_le high.mask tags

theorem Below.touch (h : low.Below high) (tags : List UInt64) :
    (low.touch tags).Below (high.touch tags) :=
  ⟨h.tables.touchAll tags, h.mask, h.checkpoints⟩

theorem Below.checkpointed (h : low.Below high) (tags : List UInt64) (key : BranchKey) :
    (low.checkpointed tags key).Below (high.checkpointed tags key) :=
  ⟨h.tables.touchAll tags, h.mask, congrArg (·.insert key tags) h.checkpoints⟩

theorem Below.forget (h : low.Below high) (key : BranchKey) :
    (low.forget key).Below (high.forget key) :=
  ⟨h.tables, h.mask, congrArg (·.erase key) h.checkpoints⟩

/-- A prediction of taken on the lower vote is one on the higher vote. -/
theorem favours_of_le {sum sum' : Int} (h : sum ≤ sum') (hfavours : favours sum = true) :
    favours sum' = true := by
  rw [favours, decide_eq_true_eq] at hfavours ⊢
  exact Int.le_trans hfavours h

/-- Without the threshold every update trains. -/
theorem tables_learned {c : Correlator} (h : c.useTheta = false) (taken : Bool)
    (tags : List UInt64) : (c.learned taken tags).tables = trainedAll taken c.tables tags :=
  if_pos (trained_of_not_useTheta h taken tags)

theorem Below.learned (h : low.Below high) (hlow : low.InRange) (hhigh : high.InRange)
    (lowPlain : low.useTheta = false) (highPlain : high.useTheta = false) {taken taken' : Bool}
    (htaken : taken = true → taken' = true) (tags : List UInt64) :
    (low.learned taken tags).Below (high.learned taken' tags) where
  tables := by
    rw [tables_learned lowPlain, tables_learned highPlain]
    exact h.tables.trainedAll hlow.weights hhigh.weights htaken tags
  mask := h.mask
  checkpoints := h.checkpoints

/-- Two correlators of one configuration, of which the first is below the second. -/
structure Ranked (config : CorrelatorConfig) (low high : Correlator) : Prop where
  lowSound : low.Sound config
  highSound : high.Sound config
  lowRange : low.InRange
  highRange : high.InRange
  below : low.Below high

variable {low' : Correlator} {call call' : Call} {reply : Reply} {calls calls' : List Call}
  {replies : List Reply}

theorem ranked_ofConfig (h : 2 ≤ config.trainingCounterBits) :
    Ranked config (ofConfig config) (ofConfig config) :=
  ⟨sound_ofConfig config, sound_ofConfig config, inRange_ofConfig h, inRange_ofConfig h,
    .refl _⟩

/-- What the first correlator does on a call, the second does as well. -/
theorem Ranked.step (h : Ranked config low high) (plain : config.useTheta = false)
    (hcall : call.Below call') (hstep : low.Step call reply low') :
    ∃ reply' high', high.Step call' reply' high' ∧ reply.Below reply' ∧ low'.Below high' := by
  have hkeys : ∀ key, key ∈ low.checkpoints ↔ key ∈ high.checkpoints := by
    intro key
    rw [h.below.checkpoints]
  cases hcall with
  | predict tags key =>
    cases hstep with
    | predict count idle =>
      exact ⟨_, _, .predict count (mt (hkeys key).2 idle),
        .voted (favours_of_le (h.below.vote_le tags)), h.below.checkpointed tags key⟩
  | rawPredict tags =>
    cases hstep with
    | rawPredict count =>
      exact ⟨_, _, .rawPredict count, .weighed (h.below.vote_le tags), h.below.touch tags⟩
  | update key htaken =>
    cases hstep with
    | @update taken _ tags live =>
      have lowPlain := h.lowSound.useTheta.trans plain
      have highPlain := h.highSound.useTheta.trans plain
      have hbelow := h.below.learned h.lowRange h.highRange lowPlain highPlain htaken tags
      exact ⟨_, _, .update (h.below.checkpoints ▸ live),
        .trained (h.below.vote_le tags) (trained_of_not_useTheta lowPlain _ _)
          (trained_of_not_useTheta highPlain _ _), hbelow.forget key⟩
  | killCheckpoint key =>
    cases hstep with
    | killCheckpoint live =>
      exact ⟨_, _, .killCheckpoint ((hkeys key).1 live), .done, h.below.forget key⟩
  | reset =>
    cases hstep with
    | reset =>
      refine ⟨_, _, .reset, .done, ?_⟩
      rw [h.lowSound.frame, h.highSound.frame]
      exact .refl _

/-- If the first correlator answers some calls, the second one does, and stays above it. -/
theorem Ranked.applyAll (h : Ranked config low high) (width : Tag.Foldable config.foldedTagBits)
    (hbits : 2 ≤ config.trainingCounterBits) (plain : config.useTheta = false)
    (hcalls : List.Forall₂ Call.Below calls calls')
    (hrun : low.applyAll calls = .ok (replies, low')) :
    ∃ replies' high', high.applyAll calls' = .ok (replies', high') ∧
      List.Forall₂ Reply.Below replies replies' ∧ low'.Below high' := by
  induction hcalls generalizing low high replies with
  | nil =>
    obtain ⟨rfl, rfl⟩ := Prod.mk.inj (Except.ok.inj hrun)
    exact ⟨[], high, rfl, .nil, h.below⟩
  | cons hcall _ ih =>
    obtain ⟨reply, middle, rest, happly, hrest, rfl⟩ := applyAll_cons_eq_ok.1 hrun
    have hstep := h.lowSound.step width happly
    obtain ⟨reply', middle', hstep', hreply, hbelow⟩ := h.step plain hcall hstep
    have hnext : Ranked config middle middle' :=
      ⟨hstep.sound h.lowSound, hstep'.sound h.highSound,
        hstep.inRange h.lowSound h.lowRange hbits, hstep'.inRange h.highSound h.highRange hbits,
        hbelow⟩
    obtain ⟨rest', high', hrest', hreplies, hlast⟩ := ih hnext hrest
    exact ⟨reply' :: rest', high', applyAll_cons_eq_ok.2
      ⟨reply', middle', rest', h.highSound.apply_of_step width hstep', hrest', rfl⟩,
      .cons hreply hreplies, hlast⟩

/-- Two runs without the threshold make the same calls with the same keys and tags, and every
update of the second one is told that its branch was taken if that of the first one is. If the
first run is answered, so is the second, and every vote that the second one replies with is no
lower: where a prediction of the first one is taken, that of the second one is.

After any number of calls, the tables of the two have the same entries, no weight is greater in
the first run, and neither is the vote on any tags. -/
theorem below_of_runs {config : Config} (valid : config.Valid)
    (plain : config.correlator.useTheta = false) (hcalls : List.Forall₂ Call.Below calls calls')
    (hrun : (ofConfig config.correlator).applyAll calls = .ok (replies, low)) :
    ∃ replies' high, (ofConfig config.correlator).applyAll calls' = .ok (replies', high) ∧
      List.Forall₂ Reply.Below replies replies' ∧
      ∀ n, ∃ low high,
        (ofConfig config.correlator).applyAll (calls.take n) = .ok (replies.take n, low) ∧
        (ofConfig config.correlator).applyAll (calls'.take n) = .ok (replies'.take n, high) ∧
        List.Forall₂ WeightTable.Below low.tables high.tables ∧
        ∀ tags, low.vote tags ≤ high.vote tags := by
  have width := foldable_of_valid valid
  have hbits := valid.trainingCounterBits.1
  have hstart := ranked_ofConfig hbits
  obtain ⟨replies', high, hrun', hreplies, -⟩ := hstart.applyAll width hbits plain hcalls hrun
  refine ⟨replies', high, hrun', hreplies, fun n => ?_⟩
  obtain ⟨low, hbefore⟩ := applyAll_take hrun n
  obtain ⟨high, hbefore'⟩ := applyAll_take hrun' n
  obtain ⟨others, last, hothers, -, hbelow⟩ :=
    hstart.applyAll width hbits plain (List.forall₂_take n hcalls) hbefore
  obtain ⟨rfl, rfl⟩ := Prod.mk.inj (Except.ok.inj (hbefore'.symm.trans hothers))
  exact ⟨low, high, hbefore, hbefore', hbelow.tables, hbelow.vote_le⟩

/-- A branch that goes one way, and then the vote on its tags. -/
def oneOutcome (key : BranchKey) (taken : Bool) : List Call :=
  [.predict (List.replicate Knob.count 5) key, .update taken key,
    .rawPredict (List.replicate Knob.count 5)]

theorem below_of_runs_oneOutcome :
    ({} : Config).Valid ∧
      List.Forall₂ Call.Below (oneOutcome ⟨1, 0⟩ false) (oneOutcome ⟨1, 0⟩ true) ∧
      ∃ replies low replies' high,
        (ofConfig {}).applyAll (oneOutcome ⟨1, 0⟩ false) = .ok (replies, low) ∧
        replies = [.voted true, .trained ⟨false, 0, true, none, 6⟩, .weighed (-6)] ∧
        (ofConfig {}).applyAll (oneOutcome ⟨1, 0⟩ true) = .ok (replies', high) ∧
        List.Forall₂ Reply.Below replies replies' ∧
        ∀ tags, low.vote tags ≤ high.vote tags := by
  have valid : ({} : Config).Valid := Config.validate_eq_ok_iff.1 rfl
  have hcalls : List.Forall₂ Call.Below (oneOutcome ⟨1, 0⟩ false) (oneOutcome ⟨1, 0⟩ true) :=
    .cons (.predict _ _) (.cons (.update _ fun _ => rfl) (.cons (.rawPredict _) .nil))
  have hanswers : ((ofConfig {}).applyAll (oneOutcome ⟨1, 0⟩ false)).map Prod.fst =
      .ok [.voted true, .trained ⟨false, 0, true, none, 6⟩, .weighed (-6)] := by decide +kernel
  obtain ⟨⟨replies, low⟩, hrun, hreplies⟩ := map_eq_ok_iff.1 hanswers
  obtain ⟨replies', high, hrun', hbelow, hpoints⟩ := below_of_runs valid rfl hcalls hrun
  obtain ⟨low', high', hlow, hhigh, -, hvotes⟩ := hpoints 3
  -- Three calls are all of them.
  obtain ⟨-, rfl⟩ := Prod.mk.inj (Except.ok.inj (hrun.symm.trans hlow))
  obtain ⟨-, rfl⟩ := Prod.mk.inj (Except.ok.inj (hrun'.symm.trans hhigh))
  exact ⟨valid, hcalls, replies, low, replies', high, hrun, hreplies, hrun', hbelow, hvotes⟩

end Correlator

end BranchSelector
