import BranchSelector.Selector.Event

/-!
# Replaying a trace

A replay plays the host's part for the branches of a trace, in the order of their
records. A conditional branch is predicted and fetched and then waits in a queue; it
resolves as soon as more conditional branches are waiting than the delay allows. Any
other branch is fetched only, with the prediction *taken*.
-/

namespace BranchSelector

/-- A predicted branch that has not resolved. -/
structure Pending where
  branch : Branch
  direction : Bool
  deriving DecidableEq, Repr

/-- A replay in progress. -/
structure Replay (β : Type) where
  selector : Selector β
  /-- The branches that wait to resolve, the oldest first. -/
  pending : List Pending := []
  resolveDelay : Nat
  branches : Nat := 0

/-- What feeding one record led to. -/
structure Fed where
  prediction : Option Prediction
  /-- The branches that resolved, the oldest first. -/
  resolutions : List Resolution
  deriving DecidableEq, Repr

def Fed.events (fed : Fed) : List Event :=
  fed.prediction.toList.map Prediction.event ++ fed.resolutions.flatMap Resolution.events

namespace Replay

variable {β : Type} [Baseline β]

/-- A replay that is about to begin: the selector is set up. -/
def start (selector : Selector β) (resolveDelay : Nat) : Replay β :=
  { selector := selector.setup, resolveDelay }

/-- Resolves waiting branches, in the order given. -/
def resolveAll (selector : Selector β) : List Pending →
    Except Violation (List Resolution × Selector β)
  | [] => .ok ([], selector)
  | p :: ps => do
    let b := p.branch
    let (resolution, selector) ← selector.resolve b.seqNo b.piece b.pc p.direction b.taken b.nextPc
    let (resolutions, selector) ← resolveAll selector ps
    return (resolution :: resolutions, selector)

/-- Resolves the oldest waiting branches until no more than `allowed` are left. -/
def settleDown (r : Replay β) (allowed : Nat) : Except Violation (List Resolution × Replay β) := do
  let excess := r.pending.length - allowed
  let (resolutions, selector) ← resolveAll r.selector (r.pending.take excess)
  return (resolutions, { r with selector, pending := r.pending.drop excess })

/-- Predicts and fetches a branch, or only fetches it if it is not conditional. -/
def enter (r : Replay β) (branch : Branch) : Except Violation (Option Prediction × Replay β) := do
  let r := { r with branches := r.branches + 1 }
  if branch.kind.isConditional then
    let (prediction, selector) ← r.selector.predict branch.seqNo branch.piece branch.pc
    -- The fetch is told the predicted direction, and moves the histories by the actual one.
    let selector ← selector.fetch branch prediction.direction
    return (some prediction,
      { r with selector, pending := r.pending ++ [⟨branch, prediction.direction⟩] })
  else
    let selector ← r.selector.fetch branch true
    return (none, { r with selector })

def step (r : Replay β) (branch : Branch) : Except Violation (Fed × Replay β) := do
  let (prediction, r) ← r.enter branch
  let (resolutions, r) ← r.settleDown r.resolveDelay
  return (⟨prediction, resolutions⟩, r)

def run (r : Replay β) : List Branch → Except Violation (List Fed × Replay β)
  | [] => .ok ([], r)
  | branch :: branches => do
    let (fed, r) ← r.step branch
    let (feds, r) ← r.run branches
    return (fed :: feds, r)

def drain (r : Replay β) : Except Violation (List Resolution × Replay β) :=
  r.settleDown 0

/-- Resolves every branch that waits and ends the run. Answers the statistics, the
baseline and the events of it. -/
def finish (r : Replay β) : Except Violation (Stats × β × List Event) := do
  let (resolutions, r) ← r.drain
  let complete : Event :=
    ⟨.debug, "trace replay complete", [("branches", toString r.branches)]⟩
  let (stats, baseline) := r.selector.terminate
  return (stats, baseline,
    resolutions.flatMap Resolution.events ++ complete :: r.selector.endEvents)

end Replay

end BranchSelector
