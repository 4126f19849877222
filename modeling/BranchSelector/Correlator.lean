import BranchSelector.Config
import BranchSelector.Knob
import BranchSelector.Threshold
import BranchSelector.WeightTable

/-!
# The correlator

The correlator votes on the direction of a branch. It has one weight table per knob;
its vote on a vector of tags is the sum of their weights over the knobs that vote, and
a vote that is not negative predicts *taken*.

Predictions are speculative. Each leaves its tags behind as a checkpoint under the key
of its branch, which is consumed once: by an update, which trains the weights on the
direction that the branch took, or by being discarded. The vote that an update judges is
recomputed from the tags and the weights at that time.

Touching tags changes no vote (`vote_touch`).
-/

namespace BranchSelector

/-- What an update did. -/
structure Training where
  /-- Whether the recomputed vote was for the direction that the branch took. -/
  correct : Bool
  sum : Int
  trained : Bool
  change : Option ThetaChange
  theta : Int
  deriving DecidableEq, Repr

/-- The voting predictor with its checkpoints. -/
structure Correlator where
  tables : List WeightTable
  /-- Which knobs vote. -/
  mask : List Bool
  /-- The tags of the predictions in flight. -/
  checkpoints : Std.ExtTreeMap BranchKey (List UInt64) := ∅
  threshold : Threshold
  /-- Whether a correct vote above the threshold leaves the weights alone. -/
  useTheta : Bool

/-- The vote of some tables on their tags: the sum of the weights under the mask. -/
def weigh : List WeightTable → List Bool → List UInt64 → Int
  | table :: tables, on :: mask, tag :: tags =>
    (if on then table.weight tag else 0) + weigh tables mask tags
  | _, _, _ => 0

/-- Touches in every table its tag. -/
def touchAll : List WeightTable → List UInt64 → List WeightTable
  | table :: tables, tag :: tags => table.touch tag :: touchAll tables tags
  | tables, _ => tables

/-- Trains every table on its tag. -/
def trainAll (taken : Bool) : List WeightTable → List UInt64 → Except Violation (List WeightTable)
  | table :: tables, tag :: tags => do
    let table ← table.train tag taken
    let tables ← trainAll taken tables tags
    return table :: tables
  | tables, _ => .ok tables

theorem weigh_touchAll (tables : List WeightTable) (mask : List Bool) (tags others : List UInt64) :
    weigh (touchAll tables tags) mask others = weigh tables mask others := by
  induction tables generalizing mask tags others with
  | nil => cases tags <;> rfl
  | cons table tables ih =>
    cases tags with
    | nil => rfl
    | cons tag tags =>
      cases mask with
      | nil => rfl
      | cons on mask =>
        cases others with
        | nil => rfl
        | cons other others => simp [touchAll, weigh, ih, WeightTable.weight_touch]

@[simp]
theorem length_touchAll (tables : List WeightTable) (tags : List UInt64) :
    (touchAll tables tags).length = tables.length := by
  induction tables generalizing tags with
  | nil => cases tags <;> rfl
  | cons table tables ih => cases tags <;> simp [touchAll, ih]

namespace Correlator

/-- Empty tables for all knobs, with theta at the number of knobs that vote. -/
def ofConfig (config : CorrelatorConfig) : Correlator where
  tables := Knob.all.map fun knob =>
    { name := knob.name, foldedBits := config.foldedTagBits, counterBits := config.counterBits }
  mask := config.featureMask
  threshold := Threshold.start config.enabledFeatures config.trainingCounterBits
  useTheta := config.useTheta

/-- The correlator without entries and checkpoints, and with its first threshold. -/
def reset (correlator : Correlator) : Correlator :=
  { correlator with
    tables := correlator.tables.map WeightTable.clear
    checkpoints := ∅
    threshold := correlator.threshold.reset }

/-- The vote on a vector of tags. -/
def vote (correlator : Correlator) (tags : List UInt64) : Int :=
  weigh correlator.tables correlator.mask tags

/-- The direction that a vote predicts. -/
def favours (sum : Int) : Bool :=
  decide (0 ≤ sum)

/-- Gives every tag of a vector an entry. -/
def touch (correlator : Correlator) (tags : List UInt64) : Correlator :=
  { correlator with tables := touchAll correlator.tables tags }

theorem vote_touch (correlator : Correlator) (tags others : List UInt64) :
    (correlator.touch tags).vote others = correlator.vote others :=
  weigh_touchAll ..

/-- Refuses tags that are not one per table, or tables that cannot fold theirs. -/
def checkTags (correlator : Correlator) (tags : List UInt64) : Except Violation Unit := do
  if tags.length ≠ correlator.tables.length then
    throw (.tagCount tags.length correlator.tables.length)
  correlator.tables.forM WeightTable.checkWidth

/-- The vote on any list of tags, paired with the tables and the mask for as long as all
three last. -/
def sum (correlator : Correlator) (tags : List UInt64) : Except Violation Int := do
  let voters := (correlator.tables.zip correlator.mask).take tags.length
  (voters.filter (·.2)).forM (·.1.checkWidth)
  return correlator.vote tags

/-- The vote on tags that stay without a checkpoint. -/
def rawPredict (correlator : Correlator) (tags : List UInt64) :
    Except Violation (Int × Correlator) := do
  correlator.checkTags tags
  return (correlator.vote tags, correlator.touch tags)

/-- Predicts the direction of a branch and keeps the tags as its checkpoint. -/
def predict (correlator : Correlator) (tags : List UInt64) (key : BranchKey) :
    Except Violation (Bool × Correlator) := do
  correlator.checkTags tags
  if correlator.checkpoints.contains key then throw (.checkpointLive key)
  let touched := correlator.touch tags
  return (favours (correlator.vote tags),
    { touched with checkpoints := correlator.checkpoints.insert key tags })

/-- Trains on the direction that a branch took, and consumes its checkpoint. A vote is
confident if its magnitude exceeds theta as this update leaves it. -/
def update (correlator : Correlator) (taken : Bool) (key : BranchKey) :
    Except Violation (Training × Correlator) :=
  match correlator.checkpoints[key]? with
  | none => .error (.updateWithoutCheckpoint key)
  | some tags => do
    let sum := correlator.vote tags
    let correct := taken == favours sum
    let (threshold, change) := correlator.threshold.update correct sum
    let confident := decide (threshold.theta < Threshold.magnitude sum)
    let trained := !(correlator.useTheta && confident && correct)
    let tables ←
      if trained then trainAll taken correlator.tables tags else .ok correlator.tables
    return (⟨correct, sum, trained, change, threshold.theta⟩,
      { correlator with
        tables
        checkpoints := correlator.checkpoints.erase key
        threshold })

def killCheckpoint (correlator : Correlator) (key : BranchKey) : Except Violation Correlator :=
  if correlator.checkpoints.contains key then
    .ok { correlator with checkpoints := correlator.checkpoints.erase key }
  else .error (.killWithoutCheckpoint key)

def hasCheckpoint (correlator : Correlator) (key : BranchKey) : Bool :=
  correlator.checkpoints.contains key

def liveCheckpoints (correlator : Correlator) : Nat :=
  correlator.checkpoints.size

def table? (correlator : Correlator) (knob : Knob) : Option WeightTable :=
  correlator.tables[Knob.all.idxOf knob]?

/-- The bits that the tables of the voting knobs take when they are full. -/
def storageBits (correlator : Correlator) : Nat :=
  (correlator.tables.zip correlator.mask).foldl (fun bits (table, on) =>
    if on then bits + table.storageBits else bits) 0

/-- The text of the correlator: every table on a line of its own, between braces, and a
line with the threshold. -/
def text (correlator : Correlator) : String :=
  String.join (correlator.tables.map fun table => "\x7b" ++ table.text ++ " \x7d\n")
    ++ s!"pred params: theta: {correlator.threshold.theta} "
    ++ s!"TC: {correlator.threshold.counter} N_FEATURES: {correlator.tables.length}"

end Correlator

end BranchSelector
