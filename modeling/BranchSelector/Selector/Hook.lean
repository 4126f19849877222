import BranchSelector.Selector.Basic

/-!
# Hooks

A host drives a selector by calling its hooks in an order of its own choice. Here a
hook with its arguments is a value, so that whole histories can be spoken of:
`Selector.apply` answers one hook, and `Selector.applyAll` a list of them, up to the
first that breaks the contract.

`applyAll_append` says that a history can be cut anywhere.
-/

namespace BranchSelector

/-- A call of the host with its arguments. -/
inductive Hook where
  | setup
  | predict (seqNo : UInt64) (piece : UInt8) (pc : UInt64)
  /-- A branch was fetched, predicted to go some way. -/
  | fetch (branch : Branch) (predicted : Bool)
  | resolve (seqNo : UInt64) (piece : UInt8) (pc : UInt64) (predicted taken : Bool)
      (nextPc : UInt64)
  | squash (seqNo : UInt64) (piece : UInt8)
  /-- An instruction was decoded. -/
  | decode (seqNo : UInt64) (piece : UInt8) (register : Option UInt64)
  /-- An instruction was executed and wrote a value. -/
  | execute (seqNo : UInt64) (piece : UInt8) (register : Option UInt64) (value : UInt64)
  | advanceEpoch
  | clearFilter
  deriving DecidableEq, Repr

/-- What a hook answers. -/
inductive Outcome where
  /-- The state may have changed, and that is all. -/
  | done
  | predicted (prediction : Prediction)
  | resolved (resolution : Resolution)
  | squashed (key : BranchKey)
  deriving DecidableEq, Repr

namespace Selector

variable {β : Type} [Baseline β]

/-- Answers one hook. -/
def apply (s : Selector β) : Hook → Except Violation (Outcome × Selector β)
  | .setup => .ok (.done, s.setup)
  | .predict seqNo piece pc => do
    let (prediction, s) ← s.predict seqNo piece pc
    return (.predicted prediction, s)
  | .fetch branch predicted => do
    let s ← s.fetch branch predicted
    return (.done, s)
  | .resolve seqNo piece pc predicted taken nextPc => do
    let (resolution, s) ← s.resolve seqNo piece pc predicted taken nextPc
    return (.resolved resolution, s)
  | .squash seqNo piece => do
    let (key, s) ← s.squash seqNo piece
    return (.squashed key, s)
  | .decode seqNo piece register => do
    let s ← s.decode seqNo piece register
    return (.done, s)
  | .execute seqNo piece register value => do
    let s ← s.execute seqNo piece register value
    return (.done, s)
  | .advanceEpoch => .ok (.done, s.advanceEpoch)
  | .clearFilter => .ok (.done, s.clearFilter)

/-- Answers hooks in order, up to the first that breaks the contract. -/
def applyAll (s : Selector β) : List Hook → Except Violation (List Outcome × Selector β)
  | [] => .ok ([], s)
  | hook :: hooks => do
    let (outcome, s) ← s.apply hook
    let (outcomes, s) ← s.applyAll hooks
    return (outcome :: outcomes, s)

theorem applyAll_append (s : Selector β) (before after : List Hook) :
    s.applyAll (before ++ after) = (do
      let (first, middle) ← s.applyAll before
      let (last, final) ← middle.applyAll after
      return (first ++ last, final)) := by
  induction before generalizing s with
  | nil =>
    simp only [List.nil_append, applyAll, bind, Except.bind]
    cases s.applyAll after <;> rfl
  | cons hook hooks ih =>
    simp only [List.cons_append, applyAll, bind, Except.bind]
    cases s.apply hook with
    | error violation => rfl
    | ok answer =>
      simp only [ih, bind, Except.bind]
      cases answer.2.applyAll hooks with
      | error violation => rfl
      | ok middle =>
        simp only [pure, Except.pure]
        cases middle.2.applyAll after <;> rfl

end Selector

end BranchSelector
