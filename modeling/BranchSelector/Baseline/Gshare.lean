import BranchSelector.Baseline.Basic
import BranchSelector.Counter

/-!
# Gshare

Gshare indexes a table of two-bit counters by the exclusive or of a branch's address
and the directions of the most recent branches. The index is taken at prediction and
kept per branch until an outcome trains the counter it names or the branch is
discarded, while the history moves on as branches are fetched. Few of the counters are
ever trained, and only those are held; the others stand at weakly not taken.
-/

namespace BranchSelector

/-- A gshare predictor with `2 ^ bits` counters. -/
structure Gshare (bits : Nat) where
  /-- The directions of the last `bits` conditional branches, the latest in the lowest
  bit. -/
  history : BitVec bits
  /-- The two-bit counters that an outcome has trained. -/
  trained : Std.ExtTreeMap (BitVec bits) Int
  /-- The counters that the predictions in flight have read. -/
  checkpoints : Std.ExtTreeMap BranchKey (BitVec bits)

namespace Gshare

def defaultBits : Nat := 12

def counterRange : CounterRange := ⟨0, 3⟩

variable {bits : Nat}

/-- The value of a counter that is weakly not taken. -/
def weaklyNotTaken : Int := 1

/-- No history, and all counters at weakly not taken. -/
def fresh (bits : Nat) : Gshare bits :=
  ⟨0, ∅, ∅⟩

def counter (g : Gshare bits) (i : BitVec bits) : Int :=
  g.trained.getD i weaklyNotTaken

/-- The counter that an address reads under the current history. The two lowest bits of
the address take no part. -/
def index (g : Gshare bits) (pc : UInt64) : BitVec bits :=
  (pc >>> 2).toBitVec.setWidth bits ^^^ g.history

/-- Predicts taken if the counter is in its upper half. -/
def predict (g : Gshare bits) (key : BranchKey) (pc : UInt64) : Bool × Gshare bits :=
  (decide (2 ≤ g.counter (g.index pc)),
    { g with checkpoints := g.checkpoints.insert key (g.index pc) })

def shift (g : Gshare bits) (taken : Bool) : Gshare bits :=
  { g with history := (g.history.concat taken).setWidth bits }

/-- Moves the counter that a prediction has read. -/
def update (g : Gshare bits) (key : BranchKey) (taken : Bool) : Except Violation (Gshare bits) :=
  match g.checkpoints[key]? with
  | some i =>
    .ok { g with
      trained := g.trained.insert i (counterRange.step (g.counter i) taken)
      checkpoints := g.checkpoints.erase key }
  | none => .error (.gshareUpdate key)

def killCheckpoint (g : Gshare bits) (key : BranchKey) : Except Violation (Gshare bits) :=
  if g.checkpoints.contains key then .ok { g with checkpoints := g.checkpoints.erase key }
  else .error (.gshareKill key)

def liveCheckpoints (g : Gshare bits) : Nat :=
  g.checkpoints.size

/-- Branches that are not conditional leave no trace. -/
instance : Baseline (Gshare bits) where
  setup _ := fresh bits
  predict := predict
  updateHistory g _ _ _ _ taken _ := g.shift taken
  trackOther g _ _ _ _ _ := g
  update g key _ taken _ _ := g.update key taken
  killCheckpoint := killCheckpoint

end Gshare

end BranchSelector
