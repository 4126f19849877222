/-!
# Selection statistics

How many predictions each of the two providers served, how many of those turned out
right and wrong, how many addresses entered the filter and how many updates left the
weights alone.
-/

namespace BranchSelector

/-- The predictor that a prediction follows. -/
inductive Provider where
  | correlator
  | baseline
  deriving DecidableEq, Repr

def Provider.name : Provider → String
  | correlator => "Correlator"
  | baseline => "Baseline"

/-- Counts since the last setup. -/
structure Stats where
  fromCorrelator : Nat := 0
  fromBaseline : Nat := 0
  correlatorRight : Nat := 0
  correlatorWrong : Nat := 0
  baselineRight : Nat := 0
  baselineWrong : Nat := 0
  /-- Addresses that entered the filter. -/
  filterInsertions : Nat := 0
  /-- Updates that left the weights alone. -/
  thresholdSkips : Nat := 0
  deriving DecidableEq, Repr

/-- A part of a whole in percent; zero if the whole is zero. -/
def percent (part whole : Nat) : Float :=
  if whole = 0 then 0.0
  else 100.0 * (UInt64.ofNat part).toFloat / (UInt64.ofNat whole).toFloat

namespace Stats

def recordPrediction (stats : Stats) : Provider → Stats
  | .correlator => { stats with fromCorrelator := stats.fromCorrelator + 1 }
  | .baseline => { stats with fromBaseline := stats.fromBaseline + 1 }

def recordResolution (stats : Stats) (provider : Provider) (right : Bool) : Stats :=
  match provider, right with
  | .correlator, true => { stats with correlatorRight := stats.correlatorRight + 1 }
  | .correlator, false => { stats with correlatorWrong := stats.correlatorWrong + 1 }
  | .baseline, true => { stats with baselineRight := stats.baselineRight + 1 }
  | .baseline, false => { stats with baselineWrong := stats.baselineWrong + 1 }

def predictions (stats : Stats) : Nat :=
  stats.fromCorrelator + stats.fromBaseline

def mispredictions (stats : Stats) : Nat :=
  stats.correlatorWrong + stats.baselineWrong

def resolutions (stats : Stats) : Nat :=
  stats.mispredictions + stats.correlatorRight + stats.baselineRight

/-- The correlator's share of the predictions, in percent. -/
def correlatorCoverage (stats : Stats) : Float :=
  percent stats.fromCorrelator stats.predictions

/-- The baseline's share of the predictions, in percent. -/
def baselineCoverage (stats : Stats) : Float :=
  percent stats.fromBaseline stats.predictions

/-- How many of the correlator's resolved predictions were right, in percent. -/
def correlatorAccuracy (stats : Stats) : Float :=
  percent stats.correlatorRight (stats.correlatorRight + stats.correlatorWrong)

/-- How many of the baseline's resolved predictions were right, in percent. -/
def baselineAccuracy (stats : Stats) : Float :=
  percent stats.baselineRight (stats.baselineRight + stats.baselineWrong)

end Stats

end BranchSelector
