import BranchSelector.Proofs.Correlator.Checkpoint

/-!
# Entries of weight zero

An entry of weight zero makes no difference to a vote. `Correlator.Padded` says of a correlator
that it is another one with more such entries, whatever the checkpoints are. It then votes as the
other one does (`Padded.vote_eq`), and what it does on an update is the same
(`Padded.training_eq`).

Touching tags adds entries of weight zero on one side (`Padded.touch_right`), or on the other one
if they are there already on the first (`Padded.touch_left`). Training on the same tags moves the
same weights on both sides (`Padded.learned`).
-/

namespace BranchSelector

namespace WeightTable

/-- The second table is the first one with more entries of weight zero. -/
structure Padded (small big : WeightTable) : Prop where
  name : big.name = small.name
  foldedBits : big.foldedBits = small.foldedBits
  counterBits : big.counterBits = small.counterBits
  entries : ∀ i ∈ small.weights, i ∈ big.weights
  weights : ∀ i, big.weights.getD i 0 = small.weights.getD i 0

variable {small big : WeightTable}

theorem Padded.refl (table : WeightTable) : table.Padded table :=
  ⟨rfl, rfl, rfl, fun _ => id, fun _ => rfl⟩

theorem Padded.index_eq (h : small.Padded big) (tag : UInt64) : big.index tag = small.index tag :=
  congrArg (Tag.xorSlices tag) h.foldedBits

theorem Padded.weight_eq (h : small.Padded big) (tag : UInt64) :
    big.weight tag = small.weight tag := by
  unfold weight
  rw [h.index_eq tag, h.weights]

theorem Padded.touch_right (h : small.Padded big) (tag : UInt64) : small.Padded (big.touch tag) where
  name := h.name
  foldedBits := h.foldedBits
  counterBits := h.counterBits
  entries i hi := Std.ExtTreeMap.mem_insertIfNew.2 (.inr (h.entries i hi))
  weights i := (getD_insertIfNew_zero _ _ i).trans (h.weights i)

theorem Padded.touch_left (h : small.Padded big) {tag : UInt64} (touched : big.Touched tag) :
    (small.touch tag).Padded big where
  name := h.name
  foldedBits := h.foldedBits
  counterBits := h.counterBits
  entries i hi := by
    rcases Std.ExtTreeMap.mem_insertIfNew.1 hi with hsame | hold
    · obtain rfl := Std.LawfulEqOrd.eq_of_compare hsame
      exact h.index_eq tag ▸ touched
    · exact h.entries i hold
  weights i := (h.weights i).trans (getD_insertIfNew_zero _ _ i).symm

theorem Padded.trained (h : small.Padded big) (tag : UInt64) (taken : Bool) :
    (small.trained tag taken).Padded (big.trained tag taken) where
  name := h.name
  foldedBits := h.foldedBits
  counterBits := h.counterBits
  entries i hi := by
    rcases Std.ExtTreeMap.mem_insert.1 hi with hsame | hold
    · exact Std.ExtTreeMap.mem_insert.2 (.inl (h.index_eq tag ▸ hsame))
    · exact Std.ExtTreeMap.mem_insert.2 (.inr (h.entries i hold))
  weights i := by
    have hrange : big.range = small.range := congrArg CounterRange.signed h.counterBits
    show (big.weights.insert (big.index tag) _).getD i 0 =
      (small.weights.insert (small.index tag) _).getD i 0
    rw [Std.ExtTreeMap.getD_insert, Std.ExtTreeMap.getD_insert, h.index_eq, h.weight_eq, hrange,
      h.weights i]

/-- Two tables that pad the same one are the same, if they have the same entries. -/
theorem Padded.eq_of_entries {left right : WeightTable} (hleft : small.Padded left)
    (hright : small.Padded right) (hentries : ∀ i, i ∈ left.weights ↔ i ∈ right.weights) :
    left = right := by
  have hweights : left.weights = right.weights := by
    ext1 i
    have hvalue : left.weights.getD i 0 = right.weights.getD i 0 :=
      (hleft.weights i).trans (hright.weights i).symm
    rw [Std.ExtTreeMap.getD_eq_getD_getElem?, Std.ExtTreeMap.getD_eq_getD_getElem?] at hvalue
    by_cases hi : i ∈ left.weights
    · obtain ⟨w, hw⟩ := Option.isSome_iff_exists.1 (Std.ExtTreeMap.mem_iff_isSome_getElem?.1 hi)
      obtain ⟨w', hw'⟩ := Option.isSome_iff_exists.1
        (Std.ExtTreeMap.mem_iff_isSome_getElem?.1 ((hentries i).1 hi))
      rw [hw, hw'] at hvalue ⊢
      exact congrArg some hvalue
    · rw [Std.ExtTreeMap.getElem?_eq_none hi,
        Std.ExtTreeMap.getElem?_eq_none (mt (hentries i).2 hi)]
  have hname := hleft.name.trans hright.name.symm
  have hfoldedBits := hleft.foldedBits.trans hright.foldedBits.symm
  have hcounterBits := hleft.counterBits.trans hright.counterBits.symm
  cases left
  cases right
  simp only at hname hfoldedBits hcounterBits hweights
  rw [hname, hfoldedBits, hcounterBits, hweights]

end WeightTable

/-! ## Rows of tables -/

/-- The second tables are the first ones with more entries of weight zero. -/
def PaddedAll (small big : List WeightTable) : Prop :=
  List.Forall₂ WeightTable.Padded small big

namespace PaddedAll

variable {small big : List WeightTable}

theorem refl (tables : List WeightTable) : PaddedAll tables tables :=
  List.forall₂_same.2 fun table _ => .refl table

theorem weigh_eq (h : PaddedAll small big) (mask : List Bool) (tags : List UInt64) :
    weigh big mask tags = weigh small mask tags := by
  induction h generalizing mask tags with
  | nil => rfl
  | cons htable _ ih =>
    cases mask with
    | nil => rfl
    | cons on mask =>
      cases tags with
      | nil => rfl
      | cons tag tags => rw [weigh, weigh, htable.weight_eq tag, ih mask tags]

theorem touchAll_right (h : PaddedAll small big) (tags : List UInt64) :
    PaddedAll small (touchAll big tags) := by
  induction h generalizing tags with
  | nil => cases tags <;> exact .nil
  | cons htable htables ih =>
    cases tags with
    | nil => exact .cons htable htables
    | cons tag tags => exact .cons (htable.touch_right tag) (ih tags)

theorem touchAll_left (h : PaddedAll small big) {tags : List UInt64} (touched : TouchedAll big tags) :
    PaddedAll (touchAll small tags) big := by
  induction h generalizing tags with
  | nil => cases tags <;> exact .nil
  | cons htable htables ih =>
    cases touched with
    | cons htag htags => exact .cons (htable.touch_left htag) (ih htags)

theorem trainedAll (h : PaddedAll small big) (taken : Bool) (tags : List UInt64) :
    PaddedAll (trainedAll taken small tags) (trainedAll taken big tags) := by
  induction h generalizing tags with
  | nil => exact .nil
  | cons htable _ ih =>
    cases tags with
    | nil => exact .nil
    | cons tag tags => exact .cons (htable.trained tag taken) (ih tags)

theorem eq_of_entries {left right : List WeightTable} (hleft : PaddedAll small left)
    (hright : PaddedAll small right)
    (hentries : ∀ {i : Nat} {table table' : WeightTable}, left[i]? = some table →
      right[i]? = some table' → ∀ entry, entry ∈ table.weights ↔ entry ∈ table'.weights) :
    left = right := by
  refine List.ext_getElem (hleft.length_eq.symm.trans hright.length_eq) fun i hi hi' => ?_
  have hsmall : i < small.length := hleft.length_eq ▸ hi
  exact (hleft.get hsmall hi).eq_of_entries (hright.get hsmall hi')
    (hentries (List.getElem?_eq_getElem hi) (List.getElem?_eq_getElem hi'))

end PaddedAll

/-! ## Correlators -/

namespace Correlator

/-- The second correlator is the first one with more entries of weight zero, whatever their
checkpoints are. -/
structure Padded (small big : Correlator) : Prop where
  tables : PaddedAll small.tables big.tables
  mask : big.mask = small.mask
  threshold : big.threshold = small.threshold
  useTheta : big.useTheta = small.useTheta

variable {small big : Correlator}

theorem Padded.refl (c : Correlator) : c.Padded c :=
  ⟨.refl c.tables, rfl, rfl, rfl⟩

/-- Checkpoints make no difference. -/
theorem Padded.keep (h : small.Padded big) (kept kept' : Std.ExtTreeMap BranchKey (List UInt64)) :
    Padded { small with checkpoints := kept } { big with checkpoints := kept' } :=
  ⟨h.tables, h.mask, h.threshold, h.useTheta⟩

theorem Padded.vote_eq (h : small.Padded big) (tags : List UInt64) :
    big.vote tags = small.vote tags := by
  unfold vote
  rw [h.mask]
  exact h.tables.weigh_eq small.mask tags

theorem Padded.training_eq (h : small.Padded big) (taken : Bool) (tags : List UInt64) :
    big.training taken tags = small.training taken tags := by
  unfold training
  rw [h.vote_eq tags, h.threshold, h.useTheta]

theorem Padded.touch_right (h : small.Padded big) (tags : List UInt64) :
    small.Padded (big.touch tags) :=
  ⟨h.tables.touchAll_right tags, h.mask, h.threshold, h.useTheta⟩

theorem Padded.touch_left (h : small.Padded big) {tags : List UInt64}
    (touched : TouchedAll big.tables tags) : (small.touch tags).Padded big :=
  ⟨h.tables.touchAll_left touched, h.mask, h.threshold, h.useTheta⟩

theorem Padded.learned (h : small.Padded big) (taken : Bool) (tags : List UInt64) :
    (small.learned taken tags).Padded (big.learned taken tags) where
  tables := by
    simp only [Correlator.learned, h.training_eq taken tags]
    split
    · exact h.tables.trainedAll taken tags
    · exact h.tables
  mask := h.mask
  threshold := by
    simp only [Correlator.learned, h.training_eq taken tags, h.vote_eq tags, h.threshold]
  useTheta := h.useTheta

end Correlator

end BranchSelector
