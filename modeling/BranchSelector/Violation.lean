import BranchSelector.Branch.Key

/-!
# Contract violations

The host that drives the selector promises an order of calls: a branch is
predicted before it resolves, resolves once, and is named by a valid key. A call
that breaks the promise has no answer. Each constructor of `Violation` is one way
to break it, and `Violation.message` is its wording.
-/

namespace BranchSelector

/-- A way in which a caller breaks the contract. -/
inductive Violation where
  | pieceOutOfRange (piece : UInt8)
  | emptyRange
  | foldWidth (width : Nat)
  /-- A folded tag that has more bits than its width. -/
  | foldedTooWide (folded : UInt64) (width : Nat)
  /-- Training a tag of a weight table that no prediction has touched. -/
  | untouchedTag (table : String) (index : Nat)
  /-- A tag vector that does not have one tag per weight table. -/
  | tagCount (given expected : Nat)
  /-- A second checkpoint for a branch that already has one. -/
  | checkpointLive (key : BranchKey)
  /-- A second prediction of a branch that is in flight. -/
  | alreadyInFlight (key : BranchKey)
  | updateWithoutCheckpoint (key : BranchKey)
  | killWithoutCheckpoint (key : BranchKey)
  | resolveUnpredicted (key : BranchKey)
  | squashUnpredicted (key : BranchKey)
  | bloomWithoutBits
  | bloomWithoutRounds
  /-- The mean block size of a window that holds no block. -/
  | meanOfEmptyWindow
  | gshareUpdate (key : BranchKey)
  | gshareKill (key : BranchKey)
  deriving DecidableEq, Repr

/-- A number in lower-case hexadecimal, marked by a leading `0x`. -/
def hexText (n : Nat) : String :=
  "0x" ++ String.ofList (Nat.toDigits 16 n)

def Violation.message : Violation → String
  | pieceOutOfRange piece => s!"piece index {piece.toNat} out of range (must be < 16)"
  | emptyRange => "assertion failed: min <= max"
  | foldWidth width => s!"folded tag width {width} out of range"
  | foldedTooWide folded width =>
    s!"folded tag {hexText folded.toNat} wider than {width} bits"
  | untouchedTag table index =>
    s!"feature {table}: training tag {hexText index} that was never predicted"
  | tagCount given expected =>
    "assertion `left == right` failed: tag vector length must match feature count\n"
      ++ s!"  left: {given}\n right: {expected}"
  | checkpointLive key => s!"branch {key} predicted twice without resolving"
  | alreadyInFlight key => s!"branch {key} predicted twice"
  | updateWithoutCheckpoint key =>
    s!"cannot update branch {key}: no checkpoint (never predicted or already consumed)"
  | killWithoutCheckpoint key => s!"cannot kill branch {key}: no checkpoint"
  | resolveUnpredicted key => s!"cannot resolve branch {key}: it was never predicted"
  | squashUnpredicted key => s!"cannot squash branch {key}: it was never predicted"
  | bloomWithoutBits => "bloom filter needs at least one bit"
  | bloomWithoutRounds => "bloom filter needs at least one hash round"
  | meanOfEmptyWindow => "mean block size of an empty window"
  | gshareUpdate key => s!"gshare: update for branch {key} without a prediction"
  | gshareKill key => s!"gshare: kill for branch {key} without a prediction"

/-- The key of a sequence number and a piece index; an index of sixteen or more
breaks the contract. -/
def BranchKey.ofParts (seqNo : UInt64) (piece : UInt8) : Except Violation BranchKey :=
  match BranchKey.ofParts? seqNo piece with
  | some key => .ok key
  | none => .error (.pieceOutOfRange piece)

end BranchSelector
