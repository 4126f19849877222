import BranchSelector.Branch.Basic
import BranchSelector.Json.Shape

/-!
# The record of a branch

A trace holds one record per dynamic branch. The JSON form of a record is an object of
its six fields, of which only the piece index may be absent.
-/

namespace BranchSelector

open Json Reader

def Branch.shape : Shape Branch where
  name := "TraceRecord"
  initial := ⟨0, 0, 0, .condBranch, false, 0⟩
  fields := [
    .mandatory "seq_no" word64 fun n b => { b with seqNo := n },
    .optional "piece" byte fun n b => { b with piece := n },
    .mandatory "pc" word64 fun n b => { b with pc := n },
    .mandatory "class" (choice BranchClass.options) fun c b => { b with kind := c },
    .mandatory "taken" boolean fun t b => { b with taken := t },
    .mandatory "next_pc" word64 fun n b => { b with nextPc := n }]

def Branch.ofJson (text : String) : Except Fault Branch :=
  Reader.decode Branch.shape.reader text

/-- Reads the name of a branch class, as it stands in a record, from a text of its own. -/
def BranchClass.ofJson (text : String) : Except Fault BranchClass :=
  Reader.decode (choice BranchClass.options) text

end BranchSelector
