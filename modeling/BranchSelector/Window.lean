import BranchSelector.Branch.Basic
import BranchSelector.Config
import BranchSelector.Knob

/-!
# Recency windows

A recency window is a queue of the sequence numbers at which some kind of event
happened. Events enter at the back. Pruning for a sequence number takes those away
from the front that lie further back than the window reaches.

Each kind of event has a short and a long window. The windows of block starts are
accompanied by queues of the sizes of the blocks, which lose as many entries as they
do, so that the mean size of the recent blocks can be told.
-/

namespace BranchSelector

/-- The kinds of event that windows count. -/
inductive WindowKind where
  | indirect
  /-- Branches that open a block and go further than the long-branch distance. -/
  | longBranch
  | call
  | forward
  | backward
  /-- Branches that open a basic block. -/
  | blockStart
  deriving DecidableEq, Repr

def WindowKind.all : List WindowKind :=
  [indirect, longBranch, call, forward, backward, blockStart]

/-- The two reaches of a window. -/
inductive Span where
  | short
  | long
  deriving DecidableEq, Repr

/-- A queue of sequence numbers, the oldest first. -/
structure Window where
  span : Nat
  entries : List Nat := []
  deriving DecidableEq, Repr

namespace Window

def push (window : Window) (seqNo : Nat) : Window :=
  { window with entries := window.entries ++ [seqNo] }

/-- Whether an entry lies further back from `seqNo` than the window reaches. -/
def expired (window : Window) (seqNo entry : Nat) : Bool :=
  decide (entry < seqNo - window.span)

/-- Takes expired entries away from the front, up to the first that is not. -/
def prune (window : Window) (seqNo : Nat) : Window :=
  { window with entries := window.entries.dropWhile (window.expired seqNo) }

/-- How many entries pruning takes away. -/
def evicted (window : Window) (seqNo : Nat) : Nat :=
  (window.entries.takeWhile (window.expired seqNo)).length

def clear (window : Window) : Window :=
  { window with entries := [] }

def size (window : Window) : Nat :=
  window.entries.length

theorem entries_prune (window : Window) (seqNo : Nat) :
    (window.prune seqNo).entries = window.entries.drop (window.evicted seqNo) := by
  simp only [prune, evicted]
  induction window.entries with
  | nil => rfl
  | cons entry rest ih => by_cases h : window.expired seqNo entry <;> simp [h, ih]

end Window

/-- The short and the long window of one kind of event. -/
structure WindowPair where
  short : Window
  long : Window
  deriving DecidableEq, Repr

namespace WindowPair

/-- Two empty windows. -/
def ofSpans (short long : Nat) : WindowPair :=
  ⟨⟨short, []⟩, ⟨long, []⟩⟩

def get (pair : WindowPair) : Span → Window
  | .short => pair.short
  | .long => pair.long

/-- Changes both windows alike. -/
def map (f : Window → Window) (pair : WindowPair) : WindowPair :=
  ⟨f pair.short, f pair.long⟩

@[simp]
theorem get_map (f : Window → Window) (pair : WindowPair) (span : Span) :
    (pair.map f).get span = f (pair.get span) := by
  cases span <;> rfl

end WindowPair

/-- The windows of all kinds of event, and the sizes of the recent blocks. -/
structure Windows where
  indirect : WindowPair
  longBranch : WindowPair
  call : WindowPair
  forward : WindowPair
  backward : WindowPair
  blockStart : WindowPair
  /-- Sizes of the blocks in the short window of block starts. -/
  shortSizes : List Nat := []
  /-- Sizes of the blocks in the long window of block starts. -/
  longSizes : List Nat := []
  /-- Where the last block started. -/
  lastBlockStart : Option Nat := none
  longBranchDistance : Nat
  deriving DecidableEq, Repr

namespace Windows

def ofConfig (config : WindowConfig) : Windows :=
  let pair := WindowPair.ofSpans config.shortWindow config.longWindow
  { indirect := pair
    longBranch := pair
    call := pair
    forward := pair
    backward := pair
    blockStart := pair
    longBranchDistance := config.longBranchDistance }

def get (windows : Windows) : WindowKind → WindowPair
  | .indirect => windows.indirect
  | .longBranch => windows.longBranch
  | .call => windows.call
  | .forward => windows.forward
  | .backward => windows.backward
  | .blockStart => windows.blockStart

/-- Changes the windows of all kinds. -/
def map (f : WindowKind → WindowPair → WindowPair) (windows : Windows) : Windows :=
  { windows with
    indirect := f .indirect windows.indirect
    longBranch := f .longBranch windows.longBranch
    call := f .call windows.call
    forward := f .forward windows.forward
    backward := f .backward windows.backward
    blockStart := f .blockStart windows.blockStart }

@[simp]
theorem get_map (f : WindowKind → WindowPair → WindowPair) (windows : Windows)
    (kind : WindowKind) : (windows.map f).get kind = f kind (windows.get kind) := by
  cases kind <;> rfl

/-- The sizes of the blocks in the window of one reach. -/
def sizes (windows : Windows) : Span → List Nat
  | .short => windows.shortSizes
  | .long => windows.longSizes

def reset (windows : Windows) : Windows :=
  { windows.map fun _ pair => pair.map Window.clear with
    shortSizes := []
    longSizes := []
    lastBlockStart := none }

def record (windows : Windows) (kind : WindowKind) (seqNo : Nat) : Windows :=
  windows.map fun other pair => if other = kind then pair.map (·.push seqNo) else pair

/-- Enters the start of a block; the block that it ends began at the last start, or at
zero if there was none. -/
def recordBlock (windows : Windows) (seqNo : Nat) : Windows :=
  let size := seqNo - windows.lastBlockStart.getD 0
  { windows.record .blockStart seqNo with
    shortSizes := windows.shortSizes ++ [size]
    longSizes := windows.longSizes ++ [size]
    lastBlockStart := some seqNo }

/-- How far a branch goes: the difference of the two addresses as a signed word. -/
def displacement (pc nextPc : UInt64) : Int :=
  (nextPc - pc).toInt64.toInt

/-- Enters the direction of a branch; one that stays where it is has none. -/
def recordDirection (windows : Windows) (seqNo : Nat) (pc nextPc : UInt64) : Windows :=
  if 0 < displacement pc nextPc then windows.record .forward seqNo
  else if displacement pc nextPc < 0 then windows.record .backward seqNo
  else windows

/-- Enters what can be told of any fetched branch: the block it may open, its
direction, and whether it opens a block and goes far. -/
def recordBranch (windows : Windows) (seqNo : Nat) (opensBlock : Bool) (pc nextPc : UInt64) :
    Windows :=
  let opened := if opensBlock then windows.recordBlock seqNo else windows
  let directed := opened.recordDirection seqNo pc nextPc
  if opensBlock ∧ windows.longBranchDistance < (displacement pc nextPc).natAbs then
    directed.record .longBranch seqNo
  else directed

/-- Enters what the class of a branch says. -/
def recordClass (windows : Windows) (seqNo : Nat) : BranchClass → Windows
  | .uncondIndirect => windows.record .indirect seqNo
  | .callDirect | .callIndirect => windows.record .call seqNo
  | .condBranch | .uncondDirect | .callReturn => windows

def prune (windows : Windows) (seqNo : Nat) : Windows :=
  { windows.map fun _ pair => pair.map (·.prune seqNo) with
    shortSizes := windows.shortSizes.drop (windows.blockStart.short.evicted seqNo)
    longSizes := windows.longSizes.drop (windows.blockStart.long.evicted seqNo) }

/-- The number of entries in the window of one kind and reach. -/
def count (windows : Windows) (kind : WindowKind) (span : Span) : Nat :=
  ((windows.get kind).get span).size

def counts (windows : Windows) : EventCounts where
  indirectShort := windows.count .indirect .short
  indirectLong := windows.count .indirect .long
  longBranchShort := windows.count .longBranch .short
  longBranchLong := windows.count .longBranch .long

def hasBlocks (windows : Windows) (span : Span) : Bool :=
  decide (0 < windows.count .blockStart span)

/-- The mean size of the blocks in the window of one reach, rounded down. -/
def meanBlockSize (windows : Windows) (span : Span) : Except Violation Nat :=
  let sizes := windows.sizes span
  if sizes.isEmpty then .error .meanOfEmptyWindow
  else .ok (sizes.foldl (· + ·) 0 / sizes.length)

end Windows

end BranchSelector
