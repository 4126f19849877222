import BranchSelector.Baseline.Basic

/-!
# Recorded predictors

A recorded predictor answers as the predictor inside it does, and keeps a list of the
calls it was given. A call that breaks the contract is not recorded.
-/

namespace BranchSelector

/-- A call to a baseline predictor, with the answer of a prediction. -/
inductive BaselineCall where
  | setup
  | predict (key : BranchKey) (pc : UInt64) (vote : Bool)
  | updateHistory (key : BranchKey) (pc : UInt64) (typeCode : Nat) (predicted taken : Bool)
      (nextPc : UInt64)
  | trackOther (pc : UInt64) (typeCode : Nat) (predicted taken : Bool) (nextPc : UInt64)
  | update (key : BranchKey) (pc : UInt64) (taken predicted : Bool) (nextPc : UInt64)
  | killCheckpoint (key : BranchKey)
  | decodeNotify (key : BranchKey) (register : UInt64)
  | executeNotify (key : BranchKey) (register value : UInt64)
  | terminate
  deriving DecidableEq, Repr

/-- A predictor and the calls it was given, the last one first. -/
structure Recorded (β : Type) where
  inner : β
  /-- The calls, the last one first. -/
  log : List BaselineCall := []

namespace Recorded

variable {β : Type}

/-- The calls in the order in which they were given. -/
def calls (r : Recorded β) : List BaselineCall :=
  r.log.reverse

/-- The predictor after a call. -/
def after (r : Recorded β) (call : BaselineCall) (inner : β) : Recorded β :=
  ⟨inner, call :: r.log⟩

theorem calls_after (r : Recorded β) (call : BaselineCall) (inner : β) :
    (r.after call inner).calls = r.calls ++ [call] :=
  List.reverse_cons

instance [Baseline β] : Baseline (Recorded β) where
  setup r := r.after .setup (Baseline.setup r.inner)
  predict r key pc :=
    let (vote, inner) := Baseline.predict r.inner key pc
    (vote, r.after (.predict key pc vote) inner)
  updateHistory r key pc typeCode predicted taken nextPc :=
    r.after (.updateHistory key pc typeCode predicted taken nextPc)
      (Baseline.updateHistory r.inner key pc typeCode predicted taken nextPc)
  trackOther r pc typeCode predicted taken nextPc :=
    r.after (.trackOther pc typeCode predicted taken nextPc)
      (Baseline.trackOther r.inner pc typeCode predicted taken nextPc)
  update r key pc taken predicted nextPc :=
    (Baseline.update r.inner key pc taken predicted nextPc).map
      (r.after (.update key pc taken predicted nextPc))
  killCheckpoint r key :=
    (Baseline.killCheckpoint r.inner key).map (r.after (.killCheckpoint key))
  decodeNotify r key register :=
    r.after (.decodeNotify key register) (Baseline.decodeNotify r.inner key register)
  executeNotify r key register value :=
    r.after (.executeNotify key register value) (Baseline.executeNotify r.inner key register value)
  terminate r := r.after .terminate (Baseline.terminate r.inner)

end Recorded

end BranchSelector
