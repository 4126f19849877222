import BranchSelector.Decimal.Fixed
import BranchSelector.Event
import BranchSelector.Selector.Hook

/-!
# Events of the selector

What the hooks of the selector have to tell, worked out from their outcomes and from
the selector before and after them. A hook that breaks the contract has no outcome, but
may have told something before it came to that (`eventsBeforeViolation`).
-/

namespace BranchSelector

def Prediction.event (p : Prediction) : Event :=
  ⟨.trace, "predict",
    [("key", p.key.text), ("pc", toString p.pc), ("raw", toString p.raw),
      ("baseline_pred", toString p.baselineVote), ("correlator_pred", toString p.correlatorVote),
      ("provider", p.provider.name)]⟩

/-- The correlator was updated on a branch; if theta moved, that is told first. -/
def Training.events (t : Training) (key : BranchKey) (taken predicted : Bool) : List Event :=
  let moved (way : String) : Event :=
    ⟨.debug, "correlator theta " ++ way, [("theta", toString t.theta)]⟩
  let change := match t.change with
    | some .raised => [moved "raised"]
    | some .lowered => [moved "lowered"]
    | none => []
  change ++ [⟨.trace, "correlator update",
    [("key", key.text), ("taken", toString taken), ("predicted", toString predicted),
      ("sum", toString t.sum), ("correct", toString t.correct), ("trained", toString t.trained)]⟩]

def Resolution.events (r : Resolution) : List Event :=
  r.training.events r.key r.taken r.predicted ++ [⟨.trace, "resolve",
    [("key", r.key.text), ("pc", toString r.pc), ("resolve_dir", toString r.taken),
      ("mispredicted", toString r.mispredicted), ("provider", r.provider.name),
      ("member", toString r.member)]⟩]

def Outcome.events : Outcome → List Event
  | .done => []
  | .predicted prediction => [prediction.event]
  | .resolved resolution => resolution.events
  | .squashed key => [⟨.trace, "squash", [("key", key.text)]⟩]

namespace Selector

variable {β : Type}

/-- The selector was set up. -/
def readyEvent (s : Selector β) : Event :=
  ⟨.info, "correlation selector ready",
    [("table_bits", toString s.correlator.storageBits), ("mode", s.config.arbiter.mode.name),
      ("filter", s.filter.kind.name),
      ("correlator_enabled", toString s.config.arbiter.correlatorEnabled),
      ("use_theta", toString s.config.correlator.useTheta)]⟩

/-- An epoch of the filter is closed. -/
def epochEvent (s : Selector β) : Event :=
  ⟨.debug, "membership filter epoch closed",
    [("epoch", toString s.epoch), ("insertions", toString s.epochInsertions)]⟩

/-- The run ends, with a warning if branches are left that have not resolved. -/
def endEvents (s : Selector β) : List Event :=
  let left : Event := ⟨.warn, "simulation ended with unresolved branches",
    [("in_flight", toString s.inFlight.size),
      ("checkpoints", toString s.correlator.liveCheckpoints)]⟩
  let finished : Event := ⟨.info, "correlation selector finished",
    [("from_correlator", toString s.stats.fromCorrelator),
      ("from_baseline", toString s.stats.fromBaseline),
      ("coverage", Decimal.fixed 4 s.stats.correlatorCoverage),
      ("accuracy", Decimal.fixed 4 s.stats.correlatorAccuracy)]⟩
  if s.inFlight.isEmpty ∧ s.correlator.liveCheckpoints = 0 then [finished] else [left, finished]

/-- What a hook tells that took the selector `before` to the selector `after`. -/
def hookEvents (before after : Selector β) : Hook → Outcome → List Event
  | .setup, _ => [after.readyEvent]
  | .advanceEpoch, _ => [before.epochEvent]
  | _, outcome => outcome.events

/-- What a hook has told by the time it breaks the contract. Only a resolution that breaks
it at the baseline has told anything, for the correlator is trained before. -/
def eventsBeforeViolation (s : Selector β) : Hook → List Event
  | .resolve seqNo piece pc predicted taken _ =>
    let trained := do
      let key ← BranchKey.ofParts seqNo piece
      let (_, training, _) ← s.train key pc predicted taken
      return training.events key taken predicted
    trained.toOption.getD []
  | _ => []

end Selector

end BranchSelector
