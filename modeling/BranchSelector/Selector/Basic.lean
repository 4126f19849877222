import BranchSelector.Baseline.Basic
import BranchSelector.Correlator
import BranchSelector.Filter.Basic
import BranchSelector.Stats.Basic
import BranchSelector.Window

/-!
# The selector

The selector holds a correlator and a baseline predictor and decides for each
conditional branch which of the two to follow. Its host calls it three times per
branch. At *prediction* both vote and the selection mode picks one. At *fetch*, right
afterwards and for branches of every class, the knobs, the windows and the baseline's
history move on. At *resolution* the correlator is trained, a mispredicted address may
enter the membership filter, and the baseline is trained if the address is a member
and otherwise discards its checkpoint. A branch on a wrong path is *squashed* in place
of being resolved.
-/

namespace BranchSelector

/-- The largest register index that the baseline is notified of. -/
def maxNotifiedRegister : UInt64 := 64

/-- The range of the hysteresis on the use of the correlator. -/
def useRange : CounterRange := ⟨-8, 7⟩

/-- The hysteresis at the start: full trust. -/
def fullTrust : Counter := Counter.ofRange useRange 7

/-- The selector around a baseline predictor with states in `β`. -/
structure Selector (β : Type) where
  config : Config
  correlator : Correlator
  windows : Windows
  /-- The addresses that have mispredicted. -/
  filter : Filter
  /-- The knobs, as of the last prediction and the fetches since. -/
  knobs : Knobs := {}
  /-- Hysteresis on the use of the correlator. -/
  useCounter : Counter := fullTrust
  epoch : Nat := 0
  epochInsertions : Nat := 0
  /-- The provider of each prediction that has not resolved. -/
  inFlight : Std.ExtTreeMap BranchKey Provider := ∅
  stats : Stats := {}
  baseline : β

/-- A prediction: both votes, and the provider that was followed. -/
structure Prediction where
  key : BranchKey
  pc : UInt64
  /-- The correlator's signed vote. -/
  raw : Int
  baselineVote : Bool
  correlatorVote : Bool
  provider : Provider
  deriving DecidableEq, Repr

def Prediction.direction (prediction : Prediction) : Bool :=
  match prediction.provider with
  | .correlator => prediction.correlatorVote
  | .baseline => prediction.baselineVote

/-- A resolution: what became of a prediction. -/
structure Resolution where
  key : BranchKey
  pc : UInt64
  predicted : Bool
  taken : Bool
  provider : Provider
  training : Training
  /-- Whether the address is a member of the filter, so that the baseline was trained. -/
  member : Bool
  deriving DecidableEq, Repr

def Resolution.mispredicted (resolution : Resolution) : Bool :=
  resolution.predicted != resolution.taken

namespace Selector

variable {β : Type}

/-- A selector in its first state, built from a configuration that is not checked. -/
def ofConfig (config : Config) (baseline : β) : Selector β where
  config
  correlator := Correlator.ofConfig config.correlator
  windows := Windows.ofConfig config.windows
  filter := Filter.empty config.effectiveFilterKind config.filter
  baseline

/-- A selector in its first state, if the configuration is valid. -/
def create (config : Config) (baseline : β) : Except ConfigError (Selector β) := do
  config.validate
  return ofConfig config baseline

/-- Brings every part back to its first state, and sets the baseline up. -/
def setup [Baseline β] (s : Selector β) : Selector β where
  config := s.config
  correlator := s.correlator.reset
  windows := s.windows.reset
  filter := s.filter.clear
  baseline := Baseline.setup s.baseline

/-! ## Prediction -/

/-- Whether the selection mode trusts the correlator on a vote of some strength. -/
def trustsCorrelator (s : Selector β) (pc : UInt64) (strength : Nat) : Bool :=
  match s.config.arbiter.mode with
  | .bloom | .oracle => !s.filter.contains pc
  | .rawStrength =>
    s.config.arbiter.correlatorEnabled && decide (0 < s.useCounter.value)
      && decide (s.config.useThreshold ≤ strength)

/-- Predicts the direction of a conditional branch. -/
def predict [Baseline β] (s : Selector β) (seqNo : UInt64) (piece : UInt8) (pc : UInt64) :
    Except Violation (Prediction × Selector β) := do
  let key ← BranchKey.ofParts seqNo piece
  let (baselineVote, baseline) := Baseline.predict s.baseline key pc
  let knobs := s.knobs.refresh s.windows.counts
  let (correlatorVote, correlator) ← s.correlator.predict knobs.tags key
  let (raw, correlator) ← correlator.rawPredict knobs.tags
  -- Strength is judged by the raw vote, and the direction by the vote that was kept.
  let provider :=
    if s.trustsCorrelator pc raw.natAbs then Provider.correlator else Provider.baseline
  -- The correlator has refused a key in flight by now, if both agree on what is in flight.
  if s.inFlight.contains key then throw (.alreadyInFlight key)
  return (⟨key, pc, raw, baselineVote, correlatorVote, provider⟩,
    { s with
      correlator
      knobs
      inFlight := s.inFlight.insert key provider
      stats := s.stats.recordPrediction provider
      baseline })

/-! ## Fetch -/

/-- What the class of a fetched branch does to the knobs. -/
def fetchKnobs (knobs : Knobs) (kind : BranchClass) (taken : Bool) : Knobs :=
  match kind with
  | .condBranch => knobs.onConditional taken
  | .callDirect | .callIndirect => knobs.onCall
  | .callReturn => knobs.onReturn
  | .uncondDirect | .uncondIndirect => knobs

def fetchWindows (windows : Windows) (branch : Branch) : Windows :=
  let seqNo := branch.seqNo.toNat
  let entered := windows.recordBranch seqNo branch.opensBlock branch.pc branch.nextPc
  (entered.recordClass seqNo branch.kind).prune seqNo

def fetchBaseline [Baseline β] (baseline : β) (branch : Branch) (key : BranchKey)
    (predicted : Bool) : β :=
  let code := branch.kind.typeCode
  if branch.kind.isConditional then
    Baseline.updateHistory baseline key branch.pc code predicted branch.taken branch.nextPc
  else Baseline.trackOther baseline branch.pc code predicted branch.taken branch.nextPc

/-- A branch was fetched, predicted to go some way. The direction that it will take is
known already and drives the knobs and the histories. -/
def fetch [Baseline β] (s : Selector β) (branch : Branch) (predicted : Bool) :
    Except Violation (Selector β) := do
  let key ← branch.key
  return { s with
    windows := fetchWindows s.windows branch
    knobs := fetchKnobs s.knobs branch.kind branch.taken
    baseline := fetchBaseline s.baseline branch key predicted }

/-! ## Resolution -/

/-- Whether the filter takes a mispredicted address in. A Bloom filter does so in even
epochs and only if the address is not a member already. -/
def admits (s : Selector β) (pc : UInt64) : Bool :=
  match s.filter with
  | .bloom bits => !bits.contains pc && s.epoch % 2 == 0
  | .oracle _ => true

/-- Offers a mispredicted address to the filter, and counts it if it is new. -/
def recordMisprediction (s : Selector β) (pc : UInt64) : Selector β :=
  if s.admits pc then
    let entered := { s with filter := s.filter.insert pc }
    -- An exact set takes members in again, and they are not counted twice.
    if s.filter.contains pc then entered
    else { entered with
      epochInsertions := s.epochInsertions + 1
      stats := { s.stats with filterInsertions := s.stats.filterInsertions + 1 } }
  else s

/-- Takes a branch out of flight and counts how its prediction turned out. -/
def settle (s : Selector β) (key : BranchKey) (provider : Provider) (right : Bool) : Selector β :=
  { s with
    inFlight := s.inFlight.erase key
    stats := s.stats.recordResolution provider right
    useCounter := if provider = .correlator then s.useCounter.update right else s.useCounter }

/-- The first half of a resolution: the branch goes out of flight, its address is offered
to the filter if it was mispredicted, and the correlator is trained. Answers the provider
of the prediction and what the correlator did. -/
def train (s : Selector β) (key : BranchKey) (pc : UInt64) (predicted taken : Bool) :
    Except Violation (Provider × Training × Selector β) :=
  match s.inFlight[key]? with
  | none => .error (.resolveUnpredicted key)
  | some provider => do
    let right := predicted == taken
    let settled := s.settle key provider right
    let offered := if right then settled else settled.recordMisprediction pc
    -- The correlator is trained whoever made the prediction.
    let (training, correlator) ← offered.correlator.update taken key
    let skips := offered.stats.thresholdSkips + if training.trained then 0 else 1
    return (provider, training,
      { offered with correlator, stats := { offered.stats with thresholdSkips := skips } })

/-- The second half of a resolution: the baseline is trained if the address is a member of
the filter by now, and discards its checkpoint otherwise. Answers which it was. -/
def route [Baseline β] (s : Selector β) (key : BranchKey) (pc : UInt64) (predicted taken : Bool)
    (nextPc : UInt64) : Except Violation (Bool × Selector β) := do
  -- An address that has entered the filter just now counts as a member.
  let member := s.filter.contains pc
  let baseline ←
    if member then Baseline.update s.baseline key pc taken predicted nextPc
    else Baseline.killCheckpoint s.baseline key
  return (member, { s with baseline })

/-- A conditional branch was executed: trains on the direction that it took. -/
def resolve [Baseline β] (s : Selector β) (seqNo : UInt64) (piece : UInt8) (pc : UInt64)
    (predicted taken : Bool) (nextPc : UInt64) :
    Except Violation (Resolution × Selector β) := do
  let key ← BranchKey.ofParts seqNo piece
  let (provider, training, trained) ← s.train key pc predicted taken
  let (member, resolved) ← trained.route key pc predicted taken nextPc
  return (⟨key, pc, predicted, taken, provider, training, member⟩, resolved)

/-- A predicted branch will never resolve: both predictors drop its checkpoint. Answers
its key. -/
def squash [Baseline β] (s : Selector β) (seqNo : UInt64) (piece : UInt8) :
    Except Violation (BranchKey × Selector β) := do
  let key ← BranchKey.ofParts seqNo piece
  if !s.inFlight.contains key then throw (.squashUnpredicted key)
  let correlator ← s.correlator.killCheckpoint key
  let baseline ← Baseline.killCheckpoint s.baseline key
  return (key, { s with correlator, inFlight := s.inFlight.erase key, baseline })

/-! ## Other calls -/

/-- Whether the baseline is notified of a register, and which. -/
def notified? (register : Option UInt64) : Option UInt64 :=
  register.filter fun r => decide (r ≤ maxNotifiedRegister)

def decode [Baseline β] (s : Selector β) (seqNo : UInt64) (piece : UInt8)
    (register : Option UInt64) : Except Violation (Selector β) :=
  match notified? register with
  | none => .ok s
  | some r => do
    let key ← BranchKey.ofParts seqNo piece
    return { s with baseline := Baseline.decodeNotify s.baseline key r }

def execute [Baseline β] (s : Selector β) (seqNo : UInt64) (piece : UInt8)
    (register : Option UInt64) (value : UInt64) : Except Violation (Selector β) :=
  match notified? register with
  | none => .ok s
  | some r => do
    let key ← BranchKey.ofParts seqNo piece
    return { s with baseline := Baseline.executeNotify s.baseline key r value }

def advanceEpoch (s : Selector β) : Selector β :=
  { s with epoch := s.epoch + 1, epochInsertions := 0 }

def clearFilter (s : Selector β) : Selector β :=
  { s with filter := s.filter.clear }

/-- Ends the run: the baseline is told, and the statistics are left. -/
def terminate [Baseline β] (s : Selector β) : Stats × β :=
  (s.stats, Baseline.terminate s.baseline)

end Selector

end BranchSelector
