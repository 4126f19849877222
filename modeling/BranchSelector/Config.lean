import BranchSelector.Knob

/-!
# Configuration

The sizes and policies of the selector. Every field has a default, and any natural
number can be written into it; `Config.validate` is the gate that a selector is built
behind. `Config.validate_eq_ok_iff` says what it lets through.
-/

namespace BranchSelector

/-- The policy that decides whether a prediction follows the correlator. -/
inductive SelectionMode where
  /-- The correlator is trusted at addresses that a Bloom filter does not hold. -/
  | bloom
  /-- The correlator is trusted at addresses that an exact set does not hold. -/
  | oracle
  /-- The correlator is trusted if it is enabled, has been useful lately and its vote
  is strong. -/
  | rawStrength
  deriving DecidableEq, Repr

def SelectionMode.name : SelectionMode → String
  | bloom => "Bloom"
  | oracle => "Oracle"
  | rawStrength => "RawStrength"

/-- The kinds of membership filter. -/
inductive FilterKind where
  /-- A Bloom filter, which can report an address that was never inserted. -/
  | bloom
  /-- An exact set. -/
  | oracle
  deriving DecidableEq, Repr

def FilterKind.name : FilterKind → String
  | bloom => "Bloom"
  | oracle => "Oracle"

/-- Sizes and training of the correlator. -/
structure CorrelatorConfig where
  foldedTagBits : Nat := 12
  counterBits : Nat := 12
  trainingCounterBits : Nat := 9
  /-- Whether a correct vote above the threshold leaves the weights alone. -/
  useTheta : Bool := false
  /-- Which knobs vote. The others are trained all the same. -/
  featureMask : List Bool := List.replicate Knob.count true
  deriving DecidableEq, Repr

namespace CorrelatorConfig

def counterMax (config : CorrelatorConfig) : Nat :=
  (1 <<< (config.counterBits - 1)) - 1

def enabledFeatures (config : CorrelatorConfig) : Nat :=
  config.featureMask.count true

end CorrelatorConfig

/-- Sizes of the membership filter. -/
structure FilterConfig where
  /-- The kind of filter, where the selection mode leaves it open. -/
  kind : FilterKind := .oracle
  bits : Nat := 174745
  hashRounds : Nat := 2
  deriving DecidableEq, Repr

/-- The selection policy. -/
structure ArbiterConfig where
  mode : SelectionMode := .rawStrength
  /-- Whether the raw-strength mode may trust the correlator at all. -/
  correlatorEnabled : Bool := false
  deriving DecidableEq, Repr

/-- Lengths of the recency windows. -/
structure WindowConfig where
  /-- How far back the short windows reach, in sequence numbers. -/
  shortWindow : Nat := 100
  longWindow : Nat := 1000
  /-- The distance in bytes beyond which a branch is long. -/
  longBranchDistance : Nat := 4096
  deriving DecidableEq, Repr

/-- Settings of a replay. -/
structure ReplayConfig where
  resolveDelay : Nat := 0
  deriving DecidableEq, Repr

/-- The whole configuration. -/
structure Config where
  correlator : CorrelatorConfig := {}
  filter : FilterConfig := {}
  arbiter : ArbiterConfig := {}
  windows : WindowConfig := {}
  replay : ReplayConfig := {}
  deriving DecidableEq, Repr

/-- What is wrong with a configuration. -/
inductive ConfigError where
  /-- A folded tag of no bits, or of more than 63. -/
  | foldedTagBits (bits : Nat)
  /-- A weight of fewer than two bits, or of more than 32. -/
  | counterBits (bits : Nat)
  /-- A training counter of fewer than two bits, or of more than 16. -/
  | trainingCounterBits (bits : Nat)
  | featureMaskLength (given expected : Nat)
  | emptyFilter
  | noHashRounds
  /-- A short window of no length, or one that is longer than the long window. -/
  | windows (short long : Nat)
  deriving DecidableEq, Repr

def ConfigError.message : ConfigError → String
  | foldedTagBits bits => s!"folded tag width {bits} out of range (1..=63)"
  | counterBits bits => s!"counter width {bits} out of range (2..=32)"
  | trainingCounterBits bits => s!"training counter width {bits} out of range (2..=16)"
  | featureMaskLength given expected => s!"feature mask has {given} entries, expected {expected}"
  | emptyFilter => "membership filter must have a non-zero bit count"
  | noHashRounds => "membership filter must use at least one hash round"
  | windows short long => s!"invalid recency windows: short={short}, long={long}"

namespace Config

/-- Refuses a configuration that no selector can be built from, for the first reason
in the order of the fields. -/
def validate (config : Config) : Except ConfigError Unit :=
  let c := config.correlator
  let w := config.windows
  if c.foldedTagBits < 1 ∨ 63 < c.foldedTagBits then
    .error (.foldedTagBits c.foldedTagBits)
  else if c.counterBits < 2 ∨ 32 < c.counterBits then
    .error (.counterBits c.counterBits)
  else if c.trainingCounterBits < 2 ∨ 16 < c.trainingCounterBits then
    .error (.trainingCounterBits c.trainingCounterBits)
  else if c.featureMask.length ≠ Knob.count then
    .error (.featureMaskLength c.featureMask.length Knob.count)
  else if config.filter.bits = 0 then .error .emptyFilter
  else if config.filter.hashRounds = 0 then .error .noHashRounds
  else if w.shortWindow = 0 ∨ w.longWindow < w.shortWindow then
    .error (.windows w.shortWindow w.longWindow)
  else .ok ()

/-- A configuration that a selector can be built from. -/
structure Valid (config : Config) : Prop where
  foldedTagBits : 1 ≤ config.correlator.foldedTagBits ∧ config.correlator.foldedTagBits ≤ 63
  counterBits : 2 ≤ config.correlator.counterBits ∧ config.correlator.counterBits ≤ 32
  trainingCounterBits :
    2 ≤ config.correlator.trainingCounterBits ∧ config.correlator.trainingCounterBits ≤ 16
  featureMask : config.correlator.featureMask.length = Knob.count
  filterBits : 1 ≤ config.filter.bits
  hashRounds : 1 ≤ config.filter.hashRounds
  windows :
    1 ≤ config.windows.shortWindow ∧ config.windows.shortWindow ≤ config.windows.longWindow

theorem validate_eq_ok_iff {config : Config} : config.validate = .ok () ↔ config.Valid := by
  constructor
  · intro h
    simp only [validate] at h
    repeat' split at h
    all_goals first | contradiction | constructor <;> omega
  · intro ⟨h₁, h₂, h₃, h₄, h₅, h₆, h₇⟩
    simp only [validate]
    grind

/-- The kind of filter that is built: the one that the selection mode implies, and the
configured one in the raw-strength mode. -/
def effectiveFilterKind (config : Config) : FilterKind :=
  match config.arbiter.mode with
  | .bloom => .bloom
  | .oracle => .oracle
  | .rawStrength => config.filter.kind

/-- The strength that a vote needs in the raw-strength mode: the greatest weight, once
for each knob but one. -/
def useThreshold (config : Config) : Nat :=
  config.correlator.counterMax * (Knob.count - 1)

end Config

end BranchSelector
