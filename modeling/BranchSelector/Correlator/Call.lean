import BranchSelector.Correlator

/-!
# Calls of the correlator

A call of the correlator with its arguments is a value, as a hook of the selector is.
`Correlator.apply` answers one call, and `Correlator.applyAll` a list of them, up to the
first that breaks the contract.
-/

namespace BranchSelector

namespace Correlator

/-- A call with its arguments. -/
inductive Call where
  | predict (tags : List UInt64) (key : BranchKey)
  | rawPredict (tags : List UInt64)
  | update (taken : Bool) (key : BranchKey)
  | killCheckpoint (key : BranchKey)
  | reset
  deriving DecidableEq, Repr

/-- What a call answers. -/
inductive Reply where
  /-- The state may have changed, and that is all. -/
  | done
  | voted (taken : Bool)
  | weighed (sum : Int)
  | trained (training : Training)
  deriving DecidableEq, Repr

/-- What an update tells. -/
def Reply.training? : Reply → Option Training
  | .trained training => some training
  | _ => none

/-- Answers one call. -/
def apply (c : Correlator) : Call → Except Violation (Reply × Correlator)
  | .predict tags key => do
    let (taken, c) ← c.predict tags key
    return (.voted taken, c)
  | .rawPredict tags => do
    let (sum, c) ← c.rawPredict tags
    return (.weighed sum, c)
  | .update taken key => do
    let (training, c) ← c.update taken key
    return (.trained training, c)
  | .killCheckpoint key => do
    let c ← c.killCheckpoint key
    return (.done, c)
  | .reset => .ok (.done, c.reset)

/-- Answers calls in order, up to the first that breaks the contract. -/
def applyAll (c : Correlator) : List Call → Except Violation (List Reply × Correlator)
  | [] => .ok ([], c)
  | call :: calls => do
    let (reply, c) ← c.apply call
    let (replies, c) ← c.applyAll calls
    return (reply :: replies, c)

end Correlator

end BranchSelector
