import BranchSelector.Branch.Basic

/-!
# Baseline predictors

The selector supplements a primary predictor of directions, about which it knows only
the calls below. Per branch they come in program order: `predict`, then one of
`updateHistory` and `trackOther`, then for a conditional branch one of `update` and
`killCheckpoint`.
-/

namespace BranchSelector

/-- The calls that a baseline predictor with states in `β` answers. Each takes a state
to the next one. -/
class Baseline (β : Type) where
  setup : β → β := id
  predict : β → BranchKey → UInt64 → Bool × β
  /-- A conditional branch was predicted. Besides its key, address and class code this
  tells the predicted and the actual direction and the address of the next instruction. -/
  updateHistory (state : β) (key : BranchKey) (pc : UInt64) (typeCode : Nat)
    (predicted taken : Bool) (nextPc : UInt64) : β
  /-- A branch that is not conditional was fetched. -/
  trackOther (state : β) (pc : UInt64) (typeCode : Nat) (predicted taken : Bool)
    (nextPc : UInt64) : β
  /-- Trains on the direction that a branch took, and consumes its checkpoint. -/
  update (state : β) (key : BranchKey) (pc : UInt64) (taken predicted : Bool)
    (nextPc : UInt64) : Except Violation β
  /-- Discards the checkpoint of a branch. -/
  killCheckpoint : β → BranchKey → Except Violation β
  decodeNotify (state : β) (_key : BranchKey) (_register : UInt64) : β := state
  executeNotify (state : β) (_key : BranchKey) (_register _value : UInt64) : β := state
  terminate : β → β := id

end BranchSelector
