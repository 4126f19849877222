/-!
# Knobs

A knob is a scalar that describes the recent past of the fetched branches. Two knobs
are counted as branches are fetched: the depth of outstanding calls, which a return
never takes below zero, and a bias that conditional branches move between zero and
seven. The other four are counts of recent events, copied in before each prediction.
-/

namespace BranchSelector

/-- The knobs, one for each weight table. -/
inductive Knob where
  /-- Outstanding calls. -/
  | callDepth
  /-- Bias of recent conditional branches toward being taken. -/
  | globalBias
  | indirectShort
  | indirectLong
  | longBranchShort
  | longBranchLong
  deriving DecidableEq, Repr

namespace Knob

/-- All knobs, in the order of the weight tables. -/
def all : List Knob :=
  [callDepth, globalBias, indirectShort, indirectLong, longBranchShort, longBranchLong]

def count : Nat := all.length

def name : Knob → String
  | callDepth => "call_depth"
  | globalBias => "global_bias"
  | indirectShort => "indirect_100"
  | indirectLong => "indirect_1K"
  | longBranchShort => "long_br_100"
  | longBranchLong => "long_br_1K"

end Knob

/-- Counts of recent events, as the knobs take them. -/
structure EventCounts where
  indirectShort : Nat
  indirectLong : Nat
  longBranchShort : Nat
  longBranchLong : Nat
  deriving DecidableEq, Repr

/-- A value for every knob. -/
structure Knobs where
  callDepth : Nat := 0
  globalBias : Nat := 0
  indirectShort : Nat := 0
  indirectLong : Nat := 0
  longBranchShort : Nat := 0
  longBranchLong : Nat := 0
  deriving DecidableEq, Repr

namespace Knobs

def get (knobs : Knobs) : Knob → Nat
  | .callDepth => knobs.callDepth
  | .globalBias => knobs.globalBias
  | .indirectShort => knobs.indirectShort
  | .indirectLong => knobs.indirectLong
  | .longBranchShort => knobs.longBranchShort
  | .longBranchLong => knobs.longBranchLong

def set (knobs : Knobs) (knob : Knob) (value : Nat) : Knobs :=
  match knob with
  | .callDepth => { knobs with callDepth := value }
  | .globalBias => { knobs with globalBias := value }
  | .indirectShort => { knobs with indirectShort := value }
  | .indirectLong => { knobs with indirectLong := value }
  | .longBranchShort => { knobs with longBranchShort := value }
  | .longBranchLong => { knobs with longBranchLong := value }

theorem get_set (knobs : Knobs) (knob other : Knob) (value : Nat) :
    (knobs.set knob value).get other = if other = knob then value else knobs.get other := by
  cases knob <;> cases other <;> rfl

def toList (knobs : Knobs) : List Nat :=
  Knob.all.map knobs.get

/-- The values as 64-bit tags, in the order of the weight tables. -/
def tags (knobs : Knobs) : List UInt64 :=
  knobs.toList.map UInt64.ofNat

@[simp]
theorem length_tags (knobs : Knobs) : knobs.tags.length = Knob.count := rfl

/-- A call was fetched. -/
def onCall (knobs : Knobs) : Knobs :=
  { knobs with callDepth := knobs.callDepth + 1 }

/-- A return was fetched; the depth stays at zero once it is there. -/
def onReturn (knobs : Knobs) : Knobs :=
  { knobs with callDepth := knobs.callDepth - 1 }

/-- The greatest bias that a taken branch leads to. -/
def biasLimit : Nat := 7

/-- A conditional branch was fetched, and is or is not taken. -/
def onConditional (knobs : Knobs) (taken : Bool) : Knobs :=
  if taken then
    if knobs.globalBias < biasLimit then { knobs with globalBias := knobs.globalBias + 1 }
    else knobs
  else { knobs with globalBias := knobs.globalBias - 1 }

/-- Copies the counts of recent events in; the two running knobs keep their values. -/
def refresh (knobs : Knobs) (counts : EventCounts) : Knobs :=
  { knobs with
    indirectShort := counts.indirectShort
    indirectLong := counts.indirectLong
    longBranchShort := counts.longBranchShort
    longBranchLong := counts.longBranchLong }

end Knobs

end BranchSelector
