import BranchSelector.Proofs.Correlator.Lesson
import BranchSelector.Proofs.Correlator.Padding

/-!
# What a correlator has to remember

Tables and threshold as they follow from two records: the vectors of tags that were touched, and
the updates with what each of them did. The entries of a table are the folded tags of the first
record, the weight of an entry is the outcome of the updates that trained it, and the threshold
that of all updates (`Correlator.Tallies`). Touching adds to the first record (`Tallies.touch`)
and an update to the second one (`Tallies.learned`).
-/

namespace BranchSelector

/-- An update: a lesson, and what the correlator did with it. -/
structure Taught extends Lesson where
  training : Training

/-- The tag of a feature folds to an entry of its table. -/
def FoldsTo (width i : Nat) (tags : List UInt64) (entry : Nat) : Prop :=
  (tags[i]?.map fun tag => Tag.xorSlices tag width) = some entry

instance (width i : Nat) (tags : List UInt64) (entry : Nat) :
    Decidable (FoldsTo width i tags entry) :=
  inferInstanceAs (Decidable (_ = _))

/-- The directions on which an entry of a table was trained, in the order of the updates. -/
def outcomes (width i entry : Nat) (updates : List Taught) : List Bool :=
  (updates.filter fun u => u.training.trained && decide (FoldsTo width i u.tags entry)).map
    (·.taken)

theorem foldsTo_iff {width i entry : Nat} {tags : List UInt64} {tag : UInt64}
    (htag : tags[i]? = some tag) :
    FoldsTo width i tags entry ↔ Tag.xorSlices tag width = entry := by
  rw [FoldsTo, htag]
  exact Option.some_inj

/-- The weight of an entry: zero, and one step for each update that trained it. -/
def weightOf (config : CorrelatorConfig) (i entry : Nat) (updates : List Taught) : Int :=
  (outcomes config.foldedTagBits i entry updates).foldl
    (CounterRange.signed config.counterBits).step 0

/-- The threshold after the votes of some updates. -/
def judged (config : CorrelatorConfig) (updates : List Taught) : Threshold :=
  updates.foldl (fun t u => (t.update u.training.correct u.training.sum).1)
    (Threshold.start config.enabledFeatures config.trainingCounterBits)

theorem weightOf_concat (config : CorrelatorConfig) (i entry : Nat) (updates : List Taught)
    (u : Taught) :
    weightOf config i entry (updates ++ [u]) =
      if u.training.trained = true ∧ FoldsTo config.foldedTagBits i u.tags entry then
        (CounterRange.signed config.counterBits).step (weightOf config i entry updates) u.taken
      else weightOf config i entry updates := by
  unfold weightOf outcomes
  rw [List.filter_append, List.filter_singleton, List.map_append, List.foldl_append]
  by_cases htrained : u.training.trained = true
  · by_cases hfolds : FoldsTo config.foldedTagBits i u.tags entry <;> simp [htrained, hfolds]
  · simp [htrained]

/-- With one tag for each table, touching is done table by table. -/
theorem touchAll_eq_zipWith {tables : List WeightTable} {tags : List UInt64}
    (h : tags.length = tables.length) :
    touchAll tables tags = List.zipWith WeightTable.touch tables tags := by
  induction tables generalizing tags with
  | nil =>
    rw [List.length_eq_zero_iff.1 h]
    rfl
  | cons table tables ih =>
    cases tags with
    | nil => cases h
    | cons tag tags => exact congrArg (table.touch tag :: ·) (ih (Nat.succ.inj h))

namespace Correlator

/-- The tables and the threshold follow from the tags that were touched and from the updates. -/
structure Tallies (config : CorrelatorConfig) (touched : List (List UInt64))
    (updates : List Taught) (c : Correlator) : Prop where
  length : c.tables.length = Knob.count
  /-- The entries of a table are the folded tags of its feature. -/
  entries : ∀ {i : Nat} {table : WeightTable}, c.tables[i]? = some table → ∀ entry,
    entry ∈ table.weights ↔ ∃ tags ∈ touched, FoldsTo config.foldedTagBits i tags entry
  /-- A weight has taken one step for each update that trained its entry. -/
  weights : ∀ {i : Nat} {table : WeightTable}, c.tables[i]? = some table → ∀ entry,
    table.weights.getD entry 0 = weightOf config i entry updates
  /-- The threshold has taken in the vote of every update. -/
  threshold : c.threshold = judged config updates

section Tallies

variable {config : CorrelatorConfig} {touched : List (List UInt64)} {updates : List Taught}
  {c : Correlator} {tags : List UInt64}

theorem tallies_ofConfig (config : CorrelatorConfig) : Tallies config [] [] (ofConfig config) := by
  have hempty : ∀ {i : Nat} {table : WeightTable}, (ofConfig config).tables[i]? = some table →
      table.weights = ∅ := by
    intro i table htable
    obtain ⟨knob, -, rfl⟩ := List.mem_map.1 (List.mem_of_getElem? htable)
    rfl
  constructor
  case length => rfl
  case entries =>
    intro i table htable entry
    rw [hempty htable]
    constructor
    · exact fun hentry => absurd hentry Std.ExtTreeMap.not_mem_empty
    · rintro ⟨tags, htags, -⟩
      cases htags
  case weights =>
    intro i table htable entry
    rw [hempty htable]
    exact Std.ExtTreeMap.getD_empty
  case threshold => rfl

/-- Checkpoints make no difference. -/
theorem Tallies.keep (h : Tallies config touched updates c)
    (kept : Std.ExtTreeMap BranchKey (List UInt64)) :
    Tallies config touched updates { c with checkpoints := kept } :=
  ⟨h.length, h.entries, h.weights, h.threshold⟩

/-! ### Touching -/

/-- A table after touching is that of before with the tag of its feature touched. -/
theorem Sound.getElem?_touch (sound : c.Sound config) (count : tags.length = Knob.count) {i : Nat}
    {table : WeightTable} (htable : (c.touch tags).tables[i]? = some table) :
    ∃ old tag, c.tables[i]? = some old ∧ tags[i]? = some tag ∧ table = old.touch tag ∧
      old.index tag = Tag.xorSlices tag config.foldedTagBits := by
  have hzip : (c.touch tags).tables = List.zipWith WeightTable.touch c.tables tags :=
    touchAll_eq_zipWith (count.trans sound.length.symm)
  rw [hzip] at htable
  obtain ⟨old, tag, hold, htag, rfl⟩ := List.getElem?_zipWith_eq_some.1 htable
  exact ⟨old, tag, hold, htag, rfl,
    congrArg (Tag.xorSlices tag) (sound.foldedBits (List.mem_of_getElem? hold))⟩

theorem Tallies.touch (h : Tallies config touched updates c) (sound : c.Sound config)
    (count : tags.length = Knob.count) : Tallies config (tags :: touched) updates (c.touch tags) := by
  constructor
  case length => exact (length_touchAll _ _).trans h.length
  case entries =>
    intro i table htable entry
    obtain ⟨old, tag, hold, htag, rfl, hindex⟩ := sound.getElem?_touch count htable
    show entry ∈ old.weights.insertIfNew (old.index tag) 0 ↔ _
    rw [Std.ExtTreeMap.mem_insertIfNew, Std.LawfulEqCmp.compare_eq_iff_eq, hindex,
      ← foldsTo_iff htag, h.entries hold entry]
    simp
  case weights =>
    intro i table htable entry
    obtain ⟨old, tag, hold, htag, rfl, hindex⟩ := sound.getElem?_touch count htable
    exact (WeightTable.getD_insertIfNew_zero _ _ entry).trans (h.weights hold entry)
  case threshold => exact h.threshold

/-! ### Updates -/

/-- A table after training is that of before with the tag of its feature trained. -/
theorem Sound.getElem?_trainedAll (sound : c.Sound config) (hentries : TouchedAll c.tables tags)
    {taken : Bool} {i : Nat} {table : WeightTable}
    (htable : (trainedAll taken c.tables tags)[i]? = some table) :
    ∃ old tag, c.tables[i]? = some old ∧ tags[i]? = some tag ∧ table = old.trained tag taken ∧
      old.Touched tag ∧ old.index tag = Tag.xorSlices tag config.foldedTagBits := by
  obtain ⟨old, tag, hold, htag, rfl⟩ := List.getElem?_zipWith_eq_some.1 htable
  obtain ⟨hi, rfl⟩ := List.getElem?_eq_some_iff.1 hold
  obtain ⟨hi', rfl⟩ := List.getElem?_eq_some_iff.1 htag
  exact ⟨_, _, hold, htag, rfl, hentries.get hi hi',
    congrArg (Tag.xorSlices _) (sound.foldedBits (List.mem_of_getElem? hold))⟩

/-- The threshold takes in the vote of an update, whether it trains or not. -/
theorem Tallies.threshold_learned (h : Tallies config touched updates c) (key : BranchKey)
    (taken : Bool) (tags : List UInt64) :
    (c.learned taken tags).threshold =
      judged config (updates ++ [⟨⟨key, tags, taken⟩, c.training taken tags⟩]) := by
  rw [judged, List.foldl_concat, ← judged, ← h.threshold]
  rfl

/-- An update that leaves the tables alone adds an outcome to no entry. -/
theorem Tallies.skipped (h : Tallies config touched updates c) (key : BranchKey) {taken : Bool}
    (htrained : (c.training taken tags).trained = false) :
    Tallies config touched (updates ++ [⟨⟨key, tags, taken⟩, c.training taken tags⟩])
      (c.learned taken tags) := by
  have htables : (c.learned taken tags).tables = c.tables := by
    simp only [Correlator.learned, htrained, Bool.false_eq_true, if_false]
  constructor
  case length => exact htables ▸ h.length
  case entries => exact htables ▸ h.entries
  case weights =>
    intro i table htable entry
    rw [htables] at htable
    rw [weightOf_concat, if_neg fun htrue => Bool.false_ne_true (htrained.symm.trans htrue.1)]
    exact h.weights htable entry
  case threshold => exact h.threshold_learned key taken tags

/-- An update that trains adds an outcome to the entries of its tags, and makes no new ones. -/
theorem Tallies.trained (h : Tallies config touched updates c) (sound : c.Sound config)
    (hentries : TouchedAll c.tables tags) (key : BranchKey) {taken : Bool}
    (htrained : (c.training taken tags).trained = true) :
    Tallies config touched (updates ++ [⟨⟨key, tags, taken⟩, c.training taken tags⟩])
      (c.learned taken tags) := by
  have htables : (c.learned taken tags).tables = trainedAll taken c.tables tags := by
    simp only [Correlator.learned, htrained, if_true]
  constructor
  case length =>
    rw [htables, trainedAll, List.length_zipWith, ← hentries.length_eq, Nat.min_self]
    exact h.length
  case entries =>
    intro i table htable entry
    rw [htables] at htable
    obtain ⟨old, tag, hold, htag, rfl, hentry, -⟩ := sound.getElem?_trainedAll hentries htable
    rw [← h.entries hold entry]
    show entry ∈ old.weights.insert (old.index tag) _ ↔ _
    rw [Std.ExtTreeMap.mem_insert, Std.LawfulEqCmp.compare_eq_iff_eq]
    constructor
    · rintro (rfl | hmem)
      · exact hentry
      · exact hmem
    · exact .inr
  case weights =>
    intro i table htable entry
    rw [htables] at htable
    obtain ⟨old, tag, hold, htag, rfl, -, hindex⟩ := sound.getElem?_trainedAll hentries htable
    have hrange : old.range = CounterRange.signed config.counterBits :=
      congrArg CounterRange.signed (sound.counterBits (List.mem_of_getElem? hold))
    rw [weightOf_concat, ← h.weights hold entry]
    show (old.weights.insert (old.index tag) (old.range.step (old.weight tag) taken)).getD entry 0 =
      _
    rw [Std.ExtTreeMap.getD_insert]
    by_cases hsame : old.index tag = entry
    · -- The entry that is trained: its weight takes one more step.
      have hfolds : FoldsTo config.foldedTagBits i tags entry :=
        (foldsTo_iff htag).2 (hindex ▸ hsame)
      rw [if_pos (Std.LawfulEqCmp.compare_eq_iff_eq.2 hsame), if_pos ⟨htrained, hfolds⟩, hrange,
        WeightTable.weight, hsame]
    · have hfolds : ¬ FoldsTo config.foldedTagBits i tags entry := fun hfolds =>
        hsame (hindex.trans ((foldsTo_iff htag).1 hfolds))
      rw [if_neg (mt Std.LawfulEqCmp.compare_eq_iff_eq.1 hsame), if_neg fun htrue => hfolds htrue.2]
  case threshold => exact h.threshold_learned key taken tags

/-- An update whose tags have entries. -/
theorem Tallies.learned (h : Tallies config touched updates c) (sound : c.Sound config)
    (hentries : TouchedAll c.tables tags) (key : BranchKey) (taken : Bool) :
    Tallies config touched (updates ++ [⟨⟨key, tags, taken⟩, c.training taken tags⟩])
      (c.learned taken tags) := by
  cases htrained : (c.training taken tags).trained with
  | false => exact h.skipped key htrained
  | true => exact h.trained sound hentries key htrained

end Tallies

end Correlator

end BranchSelector
