/-!
# Branch classes

The kinds of branch that a host reports. Only a conditional branch is predicted and
resolves; the others are fetched and that is all.
-/

namespace BranchSelector

/-- The class of a branch. -/
inductive BranchClass where
  | condBranch
  | uncondDirect
  | uncondIndirect
  | callDirect
  | callIndirect
  | callReturn
  deriving DecidableEq, Repr

namespace BranchClass

/-- The code of a class in a baseline's history calls: a sum of one for conditional,
two for indirect, four for a call and eight for a return. -/
def typeCode : BranchClass → Nat
  | uncondDirect => 0
  | condBranch => 1
  | uncondIndirect => 2
  | callDirect => 4
  | callIndirect => 6
  | callReturn => 10

def isConditional : BranchClass → Bool
  | condBranch => true
  | _ => false

def isCall : BranchClass → Bool
  | callDirect | callIndirect => true
  | _ => false

def name : BranchClass → String
  | condBranch => "cond_branch"
  | uncondDirect => "uncond_direct"
  | uncondIndirect => "uncond_indirect"
  | callDirect => "call_direct"
  | callIndirect => "call_indirect"
  | callReturn => "return"

def options : List (String × BranchClass) :=
  [condBranch, uncondDirect, uncondIndirect, callDirect, callIndirect, callReturn].map
    fun c => (c.name, c)

end BranchClass

end BranchSelector
