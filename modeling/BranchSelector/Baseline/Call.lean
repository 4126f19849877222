import BranchSelector.Baseline.Recorded

/-!
# Calls of a baseline predictor

A call of a baseline predictor with its arguments is a value (`BaselineCall`), as a hook of the
selector is. `Baseline.apply` makes one call, and `Baseline.applyAll` a list of them, up to the
first that breaks the contract. The answer that comes with a prediction is that of the predictor it
was recorded from, and takes no part.
-/

namespace BranchSelector

namespace Baseline

variable {β : Type} [Baseline β]

/-- Makes one call. -/
def apply (state : β) : BaselineCall → Except Violation β
  | .setup => .ok (setup state)
  | .predict key pc _ => .ok (predict state key pc).2
  | .updateHistory key pc typeCode predicted taken nextPc =>
    .ok (updateHistory state key pc typeCode predicted taken nextPc)
  | .trackOther pc typeCode predicted taken nextPc =>
    .ok (trackOther state pc typeCode predicted taken nextPc)
  | .update key pc taken predicted nextPc => update state key pc taken predicted nextPc
  | .killCheckpoint key => killCheckpoint state key
  | .decodeNotify key register => .ok (decodeNotify state key register)
  | .executeNotify key register value => .ok (executeNotify state key register value)
  | .terminate => .ok (terminate state)

/-- Makes calls in order, up to the first that breaks the contract. -/
def applyAll (state : β) (calls : List BaselineCall) : Except Violation β :=
  calls.foldlM apply state

end Baseline

end BranchSelector
