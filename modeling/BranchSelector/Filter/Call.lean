import BranchSelector.Filter.Bloom

/-!
# Calls of a Bloom filter

A call that changes a Bloom filter is a value, as a call of the windows is. No call fails:
`Bloom.apply` makes one call, and `Bloom.applyAll` makes a list of them.
-/

namespace BranchSelector

namespace Bloom

/-- A call with its argument. -/
inductive Call where
  | insert (key : UInt64)
  | clear
  deriving DecidableEq, Repr

/-- Makes one call. -/
def apply (filter : Bloom) : Call → Bloom
  | .insert key => filter.insert key
  | .clear => filter.clear

/-- Makes calls in order. -/
def applyAll (filter : Bloom) (calls : List Call) : Bloom :=
  calls.foldl apply filter

end Bloom

end BranchSelector
