import BranchSelector.Violation

/-!
# Folded tags

A feature value is a 64-bit tag; a weight table is indexed by fewer bits. Folding
cuts the tag into slices of the index width, the least significant first, and
combines them by exclusive or. Every bit of the tag takes part, the last slice
being shorter when the width does not divide 64.

`fold` shifts the slices out of the tag one after the other, and checks the width before
and the result afterwards. `xorSlices` is what it answers, with every slice taken where it
lies in the tag.
-/

namespace BranchSelector.Tag

/-- Slice number `i` of a tag cut into slices of `width` bits. -/
def slice (tag : UInt64) (width i : Nat) : Nat :=
  (tag.toNat >>> (i * width)) % (1 <<< width)

/-- The number of slices that cover a tag. -/
def sliceCount (width : Nat) : Nat :=
  (64 + width - 1) / width

/-- The exclusive or of all slices. -/
def xorSlices (tag : UInt64) (width : Nat) : Nat :=
  (List.range (sliceCount width)).foldl (fun folded i => folded ^^^ slice tag width i) 0

/-- Widths that leave at least one bit and less than the whole tag. -/
def Foldable (width : Nat) : Prop :=
  1 ≤ width ∧ width < 64

instance (width : Nat) : Decidable (Foldable width) :=
  inferInstanceAs (Decidable (1 ≤ width ∧ width < 64))

/-- A word with as many low bits set as a folded tag is wide. -/
def mask (width : Nat) : UInt64 :=
  (1 <<< UInt64.ofNat width) - 1

/-- Combines what is left of a tag with what was folded so far, the lowest slice first. The
bits that remain are counted down by a slice at a time, and for the last slice there may be
fewer of them than it is wide. -/
def foldRest (width remaining : Nat) (rest folded : UInt64) : UInt64 :=
  if 0 < width ∧ 0 < remaining then
    foldRest width (remaining - width) (rest >>> UInt64.ofNat width)
      (folded ^^^ (rest &&& mask width))
  else folded
termination_by remaining

/-- Folds a tag to some width. A width that is not foldable breaks the contract, and so would
a result that is wider. -/
def fold (tag : UInt64) (width : Nat) : Except Violation Nat :=
  if Foldable width then
    let folded := foldRest width 64 tag 0
    if folded ≤ mask width then .ok folded.toNat else .error (.foldedTooWide folded width)
  else .error (.foldWidth width)

end BranchSelector.Tag
