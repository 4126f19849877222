import BranchSelector.Window

/-!
# Calls of the windows

A call of the windows with its arguments is a value, as a hook of the selector is. No call
fails: `Windows.apply` makes one call, and `Windows.applyAll` makes a list of them.
-/

namespace BranchSelector

namespace Windows

/-- A call with its arguments. -/
inductive Call where
  /-- A branch was fetched. -/
  | branch (seqNo : Nat) (opensBlock : Bool) (pc nextPc : UInt64)
  /-- The branch is an indirect one. -/
  | indirect (seqNo : Nat)
  /-- The branch is a call. -/
  | call (seqNo : Nat)
  | prune (seqNo : Nat)
  | reset
  deriving DecidableEq, Repr

/-- Makes one call. -/
def apply (windows : Windows) : Call → Windows
  | .branch seqNo opensBlock pc nextPc => windows.recordBranch seqNo opensBlock pc nextPc
  | .indirect seqNo => windows.record .indirect seqNo
  | .call seqNo => windows.record .call seqNo
  | .prune seqNo => windows.prune seqNo
  | .reset => windows.reset

/-- Makes calls in order. -/
def applyAll (windows : Windows) (calls : List Call) : Windows :=
  calls.foldl apply windows

end Windows

end BranchSelector
