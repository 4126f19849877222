import BranchSelector.Branch.Class
import BranchSelector.Violation

/-!
# Branches

A dynamic branch as the host fetches it: the parts of its key, its address and class,
the direction it turns out to take and the address of the next instruction.
-/

namespace BranchSelector

/-- One dynamic branch. -/
structure Branch where
  seqNo : UInt64
  /-- Index of the branch within its instruction. -/
  piece : UInt8
  pc : UInt64
  kind : BranchClass
  taken : Bool
  /-- Address of the next instruction. -/
  nextPc : UInt64
  deriving DecidableEq, Repr

namespace Branch

/-- The key of a branch, if its piece index is below 16. -/
def key? (branch : Branch) : Option BranchKey :=
  BranchKey.ofParts? branch.seqNo branch.piece

/-- The key of a branch; a piece index of sixteen or more breaks the contract. -/
def key (branch : Branch) : Except Violation BranchKey :=
  BranchKey.ofParts branch.seqNo branch.piece

/-- Whether the branch opens a basic block, as the first of its instruction. -/
def opensBlock (branch : Branch) : Bool :=
  branch.piece == 0

end Branch

end BranchSelector
