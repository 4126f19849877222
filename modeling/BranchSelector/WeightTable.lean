import BranchSelector.Counter
import BranchSelector.Tag

/-!
# Weight tables

A weight table maps folded tags to signed saturating weights. An entry comes into
being with weight zero when its tag is first touched, and only training moves it.
Training a tag without an entry breaks the contract.

`weight_touch` says that touching a tag changes no weight.
-/

namespace BranchSelector

/-- The weights of one feature. -/
structure WeightTable where
  name : String
  /-- The width of a folded tag in bits. -/
  foldedBits : Nat
  counterBits : Nat
  /-- The weights by folded tag. -/
  weights : Std.ExtTreeMap Nat Int := ∅

namespace WeightTable

def range (table : WeightTable) : CounterRange :=
  CounterRange.signed table.counterBits

/-- Refuses a table whose tags cannot be folded to its width. -/
def checkWidth (table : WeightTable) : Except Violation Unit :=
  if Tag.Foldable table.foldedBits then .ok () else .error (.foldWidth table.foldedBits)

def index (table : WeightTable) (tag : UInt64) : Nat :=
  Tag.xorSlices tag table.foldedBits

/-- The weight of a tag, which is zero if the tag has no entry. -/
def weight (table : WeightTable) (tag : UInt64) : Int :=
  table.weights.getD (table.index tag) 0

/-- Gives a tag an entry of weight zero, unless it has one already. -/
def touch (table : WeightTable) (tag : UInt64) : WeightTable :=
  { table with weights := table.weights.insertIfNew (table.index tag) 0 }

/-- Moves the weight of a tag by one step in the direction of a branch. -/
def train (table : WeightTable) (tag : UInt64) (taken : Bool) : Except Violation WeightTable :=
  match table.weights[table.index tag]? with
  | some weight =>
    .ok { table with
      weights := table.weights.insert (table.index tag) (table.range.step weight taken) }
  | none => .error (.untouchedTag table.name (table.index tag))

def size (table : WeightTable) : Nat :=
  table.weights.size

def clear (table : WeightTable) : WeightTable :=
  { table with weights := ∅ }

/-- The bits that the table takes when every folded tag has an entry. -/
def storageBits (table : WeightTable) : Nat :=
  (1 <<< table.foldedBits) * table.counterBits

/-- The text of a table: its name, and every entry in the order of the folded tags. -/
def text (table : WeightTable) : String :=
  table.name ++ ":" ++ String.join (table.weights.toList.map fun (tag, weight) =>
    s!" [{tag}, {weight}],")

@[simp]
theorem index_touch (table : WeightTable) (tag other : UInt64) :
    (table.touch tag).index other = table.index other := rfl

theorem weight_touch (table : WeightTable) (tag other : UInt64) :
    (table.touch tag).weight other = table.weight other := by
  change (table.weights.insertIfNew (table.index tag) 0).getD (table.index other) 0 =
    table.weights.getD (table.index other) 0
  rw [Std.ExtTreeMap.getD_insertIfNew]
  split
  case isTrue absent =>
    have same := Std.LawfulEqOrd.eq_of_compare absent.1
    exact (Std.ExtTreeMap.getD_eq_fallback (same ▸ absent.2)).symm
  case isFalse => rfl

end WeightTable

end BranchSelector
