/-!
# The key mixer

A 64-bit key is scattered over all 64-bit words by three shift-and-exclusive-or
steps with a multiplication by an odd constant between them. A seed, combined
with the key beforehand, selects one of many such scatterings.
-/

namespace BranchSelector.Filter

/-- Combines a word with its own upper bits. -/
def foldUpper (word : UInt64) : UInt64 :=
  word ^^^ (word >>> 33)

/-- The scattered form of a key under a seed. -/
def mix (key seed : UInt64) : UInt64 :=
  foldUpper (foldUpper (foldUpper (key ^^^ seed) * 0xff51afd7ed558ccd) * 0xc4ceb9fe1a85ec53)

/-- The seed of hash round number `round`: a multiple of an odd constant. -/
def roundSeed (round : Nat) : UInt64 :=
  UInt64.ofNat round * 0x9e3779b185ebca87

end BranchSelector.Filter
