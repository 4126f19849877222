import BranchSelector.File
import BranchSelector.Text.Blank
import BranchSelector.Trace.Document

/-!
# Reading a trace

A trace is a text of lines. A line that is blank, or whose first character other than
blanks is a number sign, says nothing; any other holds one record. The keys of the
records increase strictly.

Lines are read in order and the first fault decides. Within a line, the text has to
be UTF-8, the record has to be well formed, its piece index below 16 and its key above
the one before, and these are checked in this order.
-/

namespace BranchSelector

open Json

/-- What is wrong with a trace. Lines are counted from one, blank lines and remarks
included. -/
inductive TraceError where
  /-- The file of the trace, or one of its lines, cannot be read as a text. -/
  | unreadable (fault : FileFault)
  | malformed (line : Nat) (fault : Fault)
  | pieceOutOfRange (line : Nat) (piece : UInt8)
  | outOfOrder (line : Nat) (key previous : BranchKey)

def TraceError.message : TraceError → String
  | unreadable fault => s!"trace I/O error: {fault.message}"
  | malformed line fault => s!"malformed trace record at line {line}: {fault.message}"
  | pieceOutOfRange line piece =>
    s!"piece index {piece.toNat} at line {line} out of range (must be < 16)"
  | outOfOrder line key previous =>
    s!"branch {key} at line {line} does not follow branch {previous}"

namespace Trace

/-- The lines of a text, without the line feeds that end them. -/
def lines (bytes : List UInt8) : List (List UInt8) :=
  bytes.foldr
    (fun byte rest =>
      if byte = 10 then [] :: rest
      else
        match rest with
        | [] => [[byte]]
        | line :: later => (byte :: line) :: later)
    [[]]

/-- Whether a line without its outer blanks says nothing. -/
def isRemark (text : List Char) : Bool :=
  text.isEmpty || text.head? == some '#'

/-- Reads one line after the record of some key: no record if the line says nothing,
and otherwise the record with its key. -/
def readLine (line : Nat) (previous : Option BranchKey) (bytes : List UInt8) :
    Except TraceError (Option (Branch × BranchKey)) :=
  match decodeText bytes with
  | .error fault => .error (.unreadable fault)
  | .ok string =>
    let text := Text.trim string.toList
    if isRemark text then .ok none
    else
      match Branch.ofJson (String.ofList text) with
      | .error fault => .error (.malformed line fault)
      | .ok record =>
        match record.key?, previous with
        | none, _ => .error (.pieceOutOfRange line record.piece)
        | some key, none => .ok (some (record, key))
        | some key, some earlier =>
          if earlier < key then .ok (some (record, key))
          else .error (.outOfOrder line key earlier)

/-- The state of reading: how many lines are done, the key of the last record, and the
records so far, the last one first. -/
structure Progress where
  lines : Nat
  previous : Option BranchKey
  records : List Branch
  deriving DecidableEq

/-- Nothing is read yet. -/
def Progress.start : Progress := ⟨0, none, []⟩

def Progress.next (progress : Progress) (bytes : List UInt8) : Except TraceError Progress := do
  let line := progress.lines + 1
  match ← readLine line progress.previous bytes with
  | none => return { progress with lines := line }
  | some (record, key) => return ⟨line, some key, record :: progress.records⟩

/-- Reads the records of a trace. -/
def parse (bytes : List UInt8) : Except TraceError (List Branch) := do
  let progress ← (lines bytes).foldlM Progress.next Progress.start
  return progress.records.reverse

/-- Reads the records of a trace file. -/
def load (content : FileContent) : Except TraceError (List Branch) :=
  match content with
  | .ok bytes => parse bytes
  | .error fault => .error (.unreadable fault)

end Trace

end BranchSelector
