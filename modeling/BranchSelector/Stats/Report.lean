import BranchSelector.Decimal.Fixed
import BranchSelector.Stats.Basic

/-!
# The selection report

The statistics as a text for people: a line per figure, percentages with four places.
-/

namespace BranchSelector.Stats

/-- A percentage with four places and its sign. -/
def percentText (x : Float) : String :=
  Decimal.fixed 4 x ++ "%"

/-- The lines of the report of a run that took some seconds. -/
def reportLines (stats : Stats) (seconds : Float) : List String :=
  let double := "=========================================================="
  let single := "----------------------------------------------------------"
  let missed := percent stats.mispredictions stats.resolutions
  ["",
    double,
    "CORRELATION SELECTOR STATISTICS",
    double,
    s!"host_seconds             {Decimal.fixed 4 seconds} s",
    s!"cond_predictions         {stats.predictions}",
    s!"cond_resolved            {stats.resolutions}",
    s!"mispredictions           {stats.mispredictions} ({percentText missed})",
    single,
    "CORRELATOR",
    s!"  preds                  {stats.fromCorrelator}",
    s!"  coverage               {percentText stats.correlatorCoverage}",
    s!"  accuracy               {percentText stats.correlatorAccuracy}",
    s!"  threshold_skips        {stats.thresholdSkips}",
    "BASELINE",
    s!"  preds                  {stats.fromBaseline}",
    s!"  coverage               {percentText stats.baselineCoverage}",
    s!"  accuracy               {percentText stats.baselineAccuracy}",
    "FILTER",
    s!"  insertions             {stats.filterInsertions}",
    double]

/-- The report of a run that took some seconds, each line ended by a line feed. -/
def report (stats : Stats) (seconds : Float) : String :=
  String.join ((stats.reportLines seconds).map (· ++ "\n"))

end BranchSelector.Stats
