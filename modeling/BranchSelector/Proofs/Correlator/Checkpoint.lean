import BranchSelector.Proofs.Answer
import BranchSelector.Proofs.Threshold.Step
import BranchSelector.Proofs.WeightTable.Training

/-!
# Checkpoints of the correlator

`Correlator.Sound` is what keeps the calls of a correlator from failing: its tables are
those of its configuration, and every checkpoint holds one touched tag for each of them.
The calls are partial; on a sound correlator each is a total function, and fails exactly
if the key of the call is live where it must not be, or is not where it must be:

* `predict_eq`, `predict_eq_error`: predicting, which checkpoints (`checkpointed`);
* `update_eq`: training (`learned`), which consumes the checkpoint;
* `killCheckpoint_eq`: discarding.

Each of them keeps the correlator sound.
-/

namespace BranchSelector

/-! ## Maps keyed by branches -/

section Keyed

variable {α : Type} {m : Std.ExtTreeMap BranchKey α} {key other : BranchKey} {value : α}

theorem getElem?_insert_eq_ite (m : Std.ExtTreeMap BranchKey α) (other key : BranchKey) (value : α) :
    (m.insert other value)[key]? = if other = key then some value else m[key]? := by
  rw [Std.ExtTreeMap.getElem?_insert]
  exact if_congr Std.LawfulEqCmp.compare_eq_iff_eq rfl rfl

theorem getElem?_erase_eq_ite (m : Std.ExtTreeMap BranchKey α) (other key : BranchKey) :
    (m.erase other)[key]? = if other = key then none else m[key]? := by
  rw [Std.ExtTreeMap.getElem?_erase]
  exact if_congr Std.LawfulEqCmp.compare_eq_iff_eq rfl rfl

theorem getElem?_insert_of_ne (hne : other ≠ key) : (m.insert other value)[key]? = m[key]? := by
  rw [getElem?_insert_eq_ite, if_neg hne]

theorem getElem?_erase_of_ne (hne : other ≠ key) : (m.erase other)[key]? = m[key]? := by
  rw [getElem?_erase_eq_ite, if_neg hne]

/-- What a map holds after an insertion was inserted, or was there before under another key. -/
theorem eq_or_ne_of_getElem?_insert {kept : α} (h : (m.insert other value)[key]? = some kept) :
    key = other ∧ kept = value ∨ key ≠ other ∧ m[key]? = some kept := by
  by_cases hsame : key = other
  · subst hsame
    rw [Std.ExtTreeMap.getElem?_insert_self] at h
    exact .inl ⟨rfl, (Option.some.inj h).symm⟩
  · rw [getElem?_insert_of_ne (Ne.symm hsame)] at h
    exact .inr ⟨hsame, h⟩

/-- What a map holds after an erasure it held before. -/
theorem getElem?_of_getElem?_erase (h : (m.erase other)[key]? = some value) :
    m[key]? = some value := by
  rw [getElem?_erase_eq_ite] at h
  split at h
  · cases h
  · exact h

end Keyed

/-! ## What touching and training leave -/

theorem map_clear_touchAll (tables : List WeightTable) (tags : List UInt64) :
    (touchAll tables tags).map WeightTable.clear = tables.map WeightTable.clear := by
  induction tables generalizing tags with
  | nil => cases tags <;> rfl
  | cons table tables ih =>
    cases tags with
    | nil => rfl
    | cons tag tags => exact congrArg (table.clear :: ·) (ih tags)

theorem map_clear_trainedAll {tables : List WeightTable} {tags : List UInt64}
    (h : tags.length = tables.length) (taken : Bool) :
    (trainedAll taken tables tags).map WeightTable.clear = tables.map WeightTable.clear := by
  induction tables generalizing tags with
  | nil => rw [List.length_eq_zero_iff.1 h]; rfl
  | cons table tables ih =>
    cases tags with
    | nil => cases h
    | cons tag tags => exact congrArg (table.clear :: ·) (ih (Nat.succ.inj h))

theorem foldable_of_valid {config : Config} (valid : config.Valid) :
    Tag.Foldable config.correlator.foldedTagBits :=
  ⟨valid.foldedTagBits.1, Nat.lt_succ_of_le valid.foldedTagBits.2⟩

namespace Correlator

/-- What keeps the calls of a correlator from failing. A reset shows the parts that stem
from the configuration and that no call changes. -/
structure Sound (config : CorrelatorConfig) (c : Correlator) : Prop where
  frame : c.reset = ofConfig config
  touched : ∀ {key : BranchKey} {tags : List UInt64},
    c.checkpoints[key]? = some tags → TouchedAll c.tables tags

section Frame

variable {config : CorrelatorConfig} {c : Correlator}

theorem Sound.map_clear (h : c.Sound config) :
    c.tables.map WeightTable.clear = (ofConfig config).tables :=
  congrArg Correlator.tables h.frame

theorem Sound.length (h : c.Sound config) : c.tables.length = Knob.count := by
  rw [← List.length_map WeightTable.clear, h.map_clear]
  rfl

theorem Sound.mask (h : c.Sound config) : c.mask = config.featureMask :=
  congrArg Correlator.mask h.frame

theorem Sound.useTheta (h : c.Sound config) : c.useTheta = config.useTheta :=
  congrArg Correlator.useTheta h.frame

/-- Without its entries, a table is one that the configuration gives. -/
theorem Sound.clear_eq (h : c.Sound config) {table : WeightTable} (ht : table ∈ c.tables) :
    ∃ knob : Knob, table.clear =
      { name := knob.name, foldedBits := config.foldedTagBits,
        counterBits := config.counterBits } := by
  have hclear : table.clear ∈ (ofConfig config).tables :=
    h.map_clear ▸ List.mem_map_of_mem ht
  obtain ⟨knob, -, hknob⟩ := List.mem_map.1 hclear
  exact ⟨knob, hknob.symm⟩

theorem Sound.foldedBits (h : c.Sound config) {table : WeightTable} (ht : table ∈ c.tables) :
    table.foldedBits = config.foldedTagBits := by
  obtain ⟨knob, hclear⟩ := h.clear_eq ht
  exact congrArg WeightTable.foldedBits hclear

theorem Sound.counterBits (h : c.Sound config) {table : WeightTable} (ht : table ∈ c.tables) :
    table.counterBits = config.counterBits := by
  obtain ⟨knob, hclear⟩ := h.clear_eq ht
  exact congrArg WeightTable.counterBits hclear

end Frame

/-- A correlator is sound when it is built. -/
theorem sound_ofConfig (config : CorrelatorConfig) : (ofConfig config).Sound config where
  frame := rfl
  touched h := by
    rw [show (ofConfig config).checkpoints = ∅ from rfl, Std.ExtTreeMap.getElem?_empty] at h
    cases h

/-- A reset leaves the correlator as it was built. -/
theorem Sound.reset {config : CorrelatorConfig} {c : Correlator} (h : c.Sound config) :
    c.reset.Sound config :=
  h.frame ▸ sound_ofConfig config

theorem reset_ofConfig (config : CorrelatorConfig) : (ofConfig config).reset = ofConfig config :=
  (sound_ofConfig config).frame

/-! ## What the calls do -/

/-- The correlator after touching tags and keeping them as a checkpoint. -/
def checkpointed (c : Correlator) (tags : List UInt64) (key : BranchKey) : Correlator :=
  { c.touch tags with checkpoints := c.checkpoints.insert key tags }

/-- What an update does on tags that have entries. -/
def training (c : Correlator) (taken : Bool) (tags : List UInt64) : Training :=
  let sum := c.vote tags
  let correct := taken == favours sum
  let moved := c.threshold.update correct sum
  let confident := decide (moved.1.theta < Threshold.magnitude sum)
  ⟨correct, sum, !(c.useTheta && confident && correct), moved.2, moved.1.theta⟩

/-- Without the threshold no update leaves the weights alone. -/
theorem trained_of_not_useTheta {c : Correlator} (h : c.useTheta = false) (taken : Bool)
    (tags : List UInt64) : (c.training taken tags).trained = true := by
  rw [training, h]
  rfl

/-- The correlator after training on tags that have entries. -/
def learned (c : Correlator) (taken : Bool) (tags : List UInt64) : Correlator :=
  { c with
    tables := if (c.training taken tags).trained then trainedAll taken c.tables tags else c.tables
    threshold := (c.threshold.update (c.training taken tags).correct (c.vote tags)).1 }

/-- The correlator without the checkpoint of a branch. -/
def forget (c : Correlator) (key : BranchKey) : Correlator :=
  { c with checkpoints := c.checkpoints.erase key }

section Calls

variable {config : CorrelatorConfig} {c : Correlator}

/-- A table of a configuration with a foldable width folds its tags. -/
theorem Sound.checkWidth_eq (h : c.Sound config) (width : Tag.Foldable config.foldedTagBits)
    {table : WeightTable} (ht : table ∈ c.tables) : table.checkWidth = .ok () :=
  if_pos (h.foldedBits ht ▸ width)

/-- A vector of one tag per knob passes the checks. -/
theorem Sound.checkTags_eq (h : c.Sound config) (width : Tag.Foldable config.foldedTagBits)
    {tags : List UInt64} (count : tags.length = Knob.count) : c.checkTags tags = .ok () := by
  have hlen : ¬ tags.length ≠ c.tables.length := by rw [count, h.length]; simp
  have hwidth : c.tables.forM WeightTable.checkWidth = .ok () :=
    forM_eq_ok fun _ ht => h.checkWidth_eq width ht
  unfold checkTags
  rw [if_neg hlen]
  exact hwidth

/-- The sum over any list of tags is the vote on it. -/
theorem Sound.sum_eq (h : c.Sound config) (width : Tag.Foldable config.foldedTagBits)
    (tags : List UInt64) : c.sum tags = .ok (c.vote tags) := by
  have hvoters : (((c.tables.zip c.mask).take tags.length).filter (·.2)).forM
      (·.1.checkWidth) = .ok () := by
    refine forM_eq_ok fun voter hvoter => ?_
    have hzip := List.mem_of_mem_take (List.mem_filter.1 hvoter).1
    exact h.checkWidth_eq width (List.of_mem_zip hzip).1
  unfold sum
  simp only [hvoters, bind, Except.bind]
  rfl

theorem Sound.rawPredict_eq (h : c.Sound config) (width : Tag.Foldable config.foldedTagBits)
    {tags : List UInt64} (count : tags.length = Knob.count) :
    c.rawPredict tags = .ok (c.vote tags, c.touch tags) := by
  unfold rawPredict
  rw [h.checkTags_eq width count]
  rfl

/-- A key without a checkpoint can be predicted. -/
theorem Sound.predict_eq (h : c.Sound config) (width : Tag.Foldable config.foldedTagBits)
    {tags : List UInt64} (count : tags.length = Knob.count) {key : BranchKey}
    (idle : key ∉ c.checkpoints) :
    c.predict tags key = .ok (favours (c.vote tags), c.checkpointed tags key) := by
  have hidle : ¬ c.checkpoints.contains key = true := idle
  unfold predict
  rw [h.checkTags_eq width count]
  simp only [bind, Except.bind]
  rw [if_neg hidle]
  rfl

/-- A key with a checkpoint cannot be predicted again. -/
theorem Sound.predict_eq_error (h : c.Sound config) (width : Tag.Foldable config.foldedTagBits)
    {tags : List UInt64} (count : tags.length = Knob.count) {key : BranchKey}
    (live : key ∈ c.checkpoints) : c.predict tags key = .error (.checkpointLive key) := by
  have hlive : c.checkpoints.contains key = true := live
  unfold predict
  rw [h.checkTags_eq width count]
  simp only [bind, Except.bind]
  rw [if_pos hlive]
  rfl

/-- A key with a checkpoint can be updated. -/
theorem Sound.update_eq (h : c.Sound config) {key : BranchKey} {tags : List UInt64}
    (live : c.checkpoints[key]? = some tags) (taken : Bool) :
    c.update taken key = .ok (c.training taken tags, (c.learned taken tags).forget key) := by
  have htrain := trainAll_eq (h.touched live) taken
  unfold update
  rw [live]
  simp only [htrain, training, learned, forget]
  split <;> simp [bind, Except.bind, pure, Except.pure, *]

/-- A key with a checkpoint can be discarded. -/
theorem killCheckpoint_eq {key : BranchKey} (live : key ∈ c.checkpoints) :
    c.killCheckpoint key = .ok (c.forget key) :=
  if_pos live

/-! ## Soundness is kept -/

theorem reset_touch (c : Correlator) (tags : List UInt64) : (c.touch tags).reset = c.reset :=
  congrArg (fun tables => { c.reset with tables }) (map_clear_touchAll c.tables tags)

theorem Sound.checkpointed (h : c.Sound config) {tags : List UInt64}
    (count : tags.length = Knob.count) (key : BranchKey) :
    (c.checkpointed tags key).Sound config where
  frame := (reset_touch c tags).trans h.frame
  touched {other kept} live := by
    have hlive : (c.checkpoints.insert key tags)[other]? = some kept := live
    obtain ⟨-, rfl⟩ | ⟨-, hkept⟩ := eq_or_ne_of_getElem?_insert hlive
    · -- The key at hand: its tags were touched just now.
      exact touchedAll_touchAll (count.trans h.length.symm)
    · -- Any other key keeps its tags, and touching takes no entry away.
      exact (h.touched hkept).touchAll tags

theorem Sound.learned (h : c.Sound config) {tags : List UInt64}
    (touched : TouchedAll c.tables tags) (taken : Bool) : (c.learned taken tags).Sound config := by
  have hlen : tags.length = c.tables.length := touched.length_eq.symm
  constructor
  · -- Training moves weights and the threshold, and a reset forgets both.
    refine Eq.trans ?_ h.frame
    have hthreshold := c.threshold.reset_update (c.training taken tags).correct (c.vote tags)
    simp only [Correlator.learned, Correlator.reset, hthreshold]
    split
    · rw [map_clear_trainedAll hlen]
    · rfl
  · intro key kept live
    show TouchedAll (if _ then _ else _) kept
    split
    · exact (h.touched live).trainedAll hlen taken
    · exact h.touched live

theorem Sound.forget (h : c.Sound config) (key : BranchKey) : (c.forget key).Sound config where
  frame := h.frame
  touched {other tags} live := by
    have hlive : (c.checkpoints.erase key)[other]? = some tags := live
    exact h.touched (getElem?_of_getElem?_erase hlive)

end Calls

end Correlator

end BranchSelector
