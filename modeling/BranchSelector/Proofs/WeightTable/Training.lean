import BranchSelector.Correlator
import Mathlib.Data.List.Forall2

/-!
# Touching and training weight tables

Training is partial: a tag without an entry breaks the contract. On tags that were
touched it is the total function `WeightTable.trained` (`train_eq`), and the same holds of
a row of tables (`trainAll_eq`).

The main fact is that touching and training do not get in each other's way: a touch moves
no weight and creates no entry that training on a touched tag would look at, so the two
commute (`trainedAll_touchAll`). Together with `weigh_touchAll` this is why the order in
which predictions and updates interleave leaves no mark on the tables.
-/

namespace BranchSelector

namespace WeightTable

/-- A tag that has an entry. -/
def Touched (table : WeightTable) (tag : UInt64) : Prop :=
  table.index tag ∈ table.weights

/-- The table after training on a tag that has an entry. -/
def trained (table : WeightTable) (tag : UInt64) (taken : Bool) : WeightTable :=
  { table with
    weights := table.weights.insert (table.index tag)
      (table.range.step (table.weight tag) taken) }

/-- Training on a tag that has an entry does not fail. -/
theorem train_eq {table : WeightTable} {tag : UInt64} (h : table.Touched tag) (taken : Bool) :
    table.train tag taken = .ok (table.trained tag taken) := by
  obtain ⟨weight, hw⟩ := Option.isSome_iff_exists.1
    (Std.ExtTreeMap.mem_iff_isSome_getElem?.1 h)
  have hweight : table.weight tag = weight := by
    rw [WeightTable.weight, Std.ExtTreeMap.getD_eq_getD_getElem?, hw]
    rfl
  simp only [train, hw, trained, hweight]

theorem touched_touch (table : WeightTable) (tag : UInt64) : (table.touch tag).Touched tag :=
  Std.ExtTreeMap.mem_insertIfNew_self

/-- A new entry of weight zero weighs as much as none. -/
theorem getD_insertIfNew_zero (weights : Std.ExtTreeMap Nat Int) (entry i : Nat) :
    (weights.insertIfNew entry 0).getD i 0 = weights.getD i 0 := by
  rw [Std.ExtTreeMap.getD_insertIfNew]
  split
  next absent =>
    have hsame := Std.LawfulEqOrd.eq_of_compare absent.1
    exact (Std.ExtTreeMap.getD_eq_fallback (hsame ▸ absent.2)).symm
  next => rfl

/-- Entries never go away by a touch. -/
theorem Touched.touch {table : WeightTable} {tag : UInt64} (h : table.Touched tag)
    (other : UInt64) : (table.touch other).Touched tag :=
  Std.ExtTreeMap.mem_insertIfNew.2 (.inr h)

/-- Entries never go away by training. -/
theorem Touched.trained {table : WeightTable} {tag : UInt64} (h : table.Touched tag)
    (other : UInt64) (taken : Bool) : (table.trained other taken).Touched tag :=
  Std.ExtTreeMap.mem_insert.2 (.inr h)

/-- A second touch of the same tag changes nothing. -/
theorem Touched.touch_eq {table : WeightTable} {tag : UInt64} (h : table.Touched tag) :
    table.touch tag = table := by
  have hw : table.weights.insertIfNew (table.index tag) 0 = table.weights := by
    ext1 i
    rw [Std.ExtTreeMap.getElem?_insertIfNew, if_neg fun absent => absent.2 h]
  rw [WeightTable.touch, hw]

/-- Training on a touched tag commutes with any touch: a touched tag is not the one that
the touch creates, or it is and the touch does nothing. -/
theorem Touched.trained_touch {table : WeightTable} {tag : UInt64} (h : table.Touched tag)
    (other : UInt64) (taken : Bool) :
    (table.touch other).trained tag taken = (table.trained tag taken).touch other := by
  have hw : (table.weights.insertIfNew (table.index other) 0).insert (table.index tag)
        (table.range.step (table.weight tag) taken) =
      (table.weights.insert (table.index tag)
        (table.range.step (table.weight tag) taken)).insertIfNew (table.index other) 0 := by
    ext1 i
    simp only [Std.ExtTreeMap.getElem?_insert, Std.ExtTreeMap.getElem?_insertIfNew,
      Std.ExtTreeMap.mem_insert]
    by_cases hi : compare (table.index tag) i = .eq
    · -- The trained entry: the touch does not create it, because it is there already.
      have hti := Std.LawfulEqOrd.eq_of_compare hi
      subst hti
      rw [if_pos hi, if_neg, if_pos hi]
      rintro ⟨hsame, habsent⟩
      have hto := Std.LawfulEqOrd.eq_of_compare hsame
      exact habsent (.inr (hto ▸ h))
    · -- Any other entry: training leaves it as the touch does.
      rw [if_neg hi, if_neg hi]
      by_cases ho : compare (table.index other) i = .eq
      · have hoi := Std.LawfulEqOrd.eq_of_compare ho
        subst hoi
        simp [hi]
      · simp [ho]
  rw [WeightTable.trained, weight_touch]
  exact congrArg (fun weights => { table with weights := weights }) hw

end WeightTable

/-! ## Rows of tables -/

/-- Tags that have entries, one tag for each table. -/
def TouchedAll (tables : List WeightTable) (tags : List UInt64) : Prop :=
  List.Forall₂ WeightTable.Touched tables tags

/-- The tables after training on tags that have entries. -/
def trainedAll (taken : Bool) (tables : List WeightTable) (tags : List UInt64) :
    List WeightTable :=
  List.zipWith (fun table tag => table.trained tag taken) tables tags

theorem trainAll_eq {tables : List WeightTable} {tags : List UInt64}
    (h : TouchedAll tables tags) (taken : Bool) :
    trainAll taken tables tags = .ok (trainedAll taken tables tags) := by
  induction h with
  | nil => rfl
  | cons htouched _ ih =>
    rw [trainAll, WeightTable.train_eq htouched, ih]
    rfl

theorem touchedAll_touchAll {tables : List WeightTable} {tags : List UInt64}
    (h : tags.length = tables.length) : TouchedAll (touchAll tables tags) tags := by
  induction tables generalizing tags with
  | nil =>
    rw [List.length_eq_zero_iff.1 h]
    exact .nil
  | cons table tables ih =>
    cases tags with
    | nil => cases h
    | cons tag tags => exact .cons (table.touched_touch tag) (ih (Nat.succ.inj h))

theorem TouchedAll.touchAll {tables : List WeightTable} {tags : List UInt64}
    (h : TouchedAll tables tags) (others : List UInt64) :
    TouchedAll (touchAll tables others) tags := by
  induction h generalizing others with
  | nil => cases others <;> exact .nil
  | cons htouched htail ih =>
    cases others with
    | nil => exact .cons htouched htail
    | cons other others => exact .cons (htouched.touch other) (ih others)

theorem TouchedAll.trainedAll {tables : List WeightTable} {tags others : List UInt64}
    (h : TouchedAll tables tags) (hlen : others.length = tables.length) (taken : Bool) :
    TouchedAll (trainedAll taken tables others) tags := by
  induction h generalizing others with
  | nil =>
    rw [List.length_eq_zero_iff.1 hlen]
    exact .nil
  | cons htouched _ ih =>
    cases others with
    | nil => cases hlen
    | cons other others => exact .cons (htouched.trained other taken) (ih (Nat.succ.inj hlen))

/-- What a touch keeps of a table, it keeps of a row of tables. -/
theorem forall_touchAll {P : WeightTable → Prop}
    (keeps : ∀ {table : WeightTable} (tag : UInt64), P table → P (table.touch tag))
    {tables : List WeightTable} (h : ∀ table ∈ tables, P table) (tags : List UInt64) :
    ∀ table ∈ touchAll tables tags, P table := by
  induction tables generalizing tags with
  | nil => cases tags <;> exact h
  | cons table tables ih =>
    cases tags with
    | nil => exact h
    | cons tag tags =>
      intro other hother
      rcases List.mem_cons.1 hother with rfl | htail
      · exact keeps tag (h table List.mem_cons_self)
      · exact ih (fun t ht => h t (List.mem_cons_of_mem _ ht)) tags other htail

/-- What training keeps of a table, it keeps of a row of tables. -/
theorem forall_trainedAll {P : WeightTable → Prop} {taken : Bool}
    (keeps : ∀ {table : WeightTable} (tag : UInt64), P table → P (table.trained tag taken))
    {tables : List WeightTable} (h : ∀ table ∈ tables, P table) (tags : List UInt64) :
    ∀ table ∈ trainedAll taken tables tags, P table := by
  induction tables generalizing tags with
  | nil => nofun
  | cons table tables ih =>
    cases tags with
    | nil => nofun
    | cons tag tags =>
      intro other hother
      rcases List.mem_cons.1 hother with rfl | htail
      · exact keeps tag (h table List.mem_cons_self)
      · exact ih (fun t ht => h t (List.mem_cons_of_mem _ ht)) tags other htail

/-- A second touch of the same row of tags changes nothing. -/
theorem TouchedAll.touchAll_eq {tables : List WeightTable} {tags : List UInt64}
    (h : TouchedAll tables tags) : BranchSelector.touchAll tables tags = tables := by
  induction h with
  | nil => rfl
  | cons htouched _ ih => rw [BranchSelector.touchAll, htouched.touch_eq, ih]

/-- Training on touched tags commutes with touching others. -/
theorem TouchedAll.trainedAll_touchAll {tables : List WeightTable} {tags : List UInt64}
    (h : TouchedAll tables tags) (others : List UInt64) (taken : Bool) :
    BranchSelector.trainedAll taken (BranchSelector.touchAll tables others) tags =
      BranchSelector.touchAll (BranchSelector.trainedAll taken tables tags) others := by
  induction h generalizing others with
  | nil => cases others <;> rfl
  | cons htouched htail ih =>
    cases others with
    | nil => rfl
    | cons other others =>
      exact congrArg₂ List.cons (htouched.trained_touch other taken) (ih others)

end BranchSelector
