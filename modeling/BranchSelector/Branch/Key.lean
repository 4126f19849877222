import Std.Data.ExtTreeMap

/-!
# Branch keys

A dynamic branch is named by the sequence number of its instruction and by its
index within that instruction, the *piece*. Sixteen pieces share a sequence
number, so a key packs into one 64-bit word: the piece in the low four bits and
the sequence number above it, of which the top four bits are lost.

Keys are ordered as the program is: by sequence number, then by piece. The order
is total and lawful (`instTransOrdBranchKey`, `instLawfulEqOrdBranchKey`), so
keys can index the ordered maps of the other modules.
-/

namespace BranchSelector

/-- The name of one dynamic branch. -/
structure BranchKey where
  seqNo : UInt64
  /-- Index of the branch within its instruction. -/
  piece : Fin 16
  deriving DecidableEq, Repr

namespace BranchKey

/-- The key of a sequence number and a piece index, if the index is below 16. -/
def ofParts? (seqNo : UInt64) (piece : UInt8) : Option BranchKey :=
  if h : piece.toNat < 16 then some ⟨seqNo, ⟨piece.toNat, h⟩⟩ else none

theorem ofParts?_eq_none_iff {seqNo : UInt64} {piece : UInt8} :
    ofParts? seqNo piece = none ↔ 16 ≤ piece.toNat := by
  simp [ofParts?]

/-! ## Program order -/

instance : Ord BranchKey where
  compare := compareLex (compareOn seqNo) (compareOn piece)

instance instTransOrdBranchKey : Std.TransOrd BranchKey :=
  inferInstanceAs (Std.TransCmp (compareLex (compareOn seqNo) (compareOn piece)))

instance instLawfulEqOrdBranchKey : Std.LawfulEqOrd BranchKey where
  eq_of_compare {a b} h := by
    have h' : (compare a.seqNo b.seqNo).then (compare a.piece b.piece) = .eq := h
    rw [Ordering.then_eq_eq] at h'
    cases a
    cases b
    simp_all

/-- A key comes before another if its sequence number is smaller, or equal and
its piece is smaller. -/
instance : LT BranchKey where
  lt a b := a.seqNo < b.seqNo ∨ a.seqNo = b.seqNo ∧ a.piece < b.piece

instance (a b : BranchKey) : Decidable (a < b) :=
  inferInstanceAs (Decidable (a.seqNo < b.seqNo ∨ a.seqNo = b.seqNo ∧ a.piece < b.piece))

/-- The keys of a list in program order, repetitions kept. -/
def sort (keys : List BranchKey) : List BranchKey :=
  keys.mergeSort fun a b => (compare a b).isLE

/-! ## The packed form -/

/-- The packed word: the sequence number shifted up by four bits, the piece below. -/
def packed (key : BranchKey) : UInt64 :=
  (key.seqNo <<< 4) ||| UInt64.ofNat key.piece

/-- The key that a word packs. -/
def ofPacked (word : UInt64) : BranchKey :=
  ⟨word >>> 4, ⟨word.toNat % 16, Nat.mod_lt _ (by decide)⟩⟩

/-! ## Text -/

/-- A key is written as its sequence number and its piece, joined by a point. -/
def text (key : BranchKey) : String :=
  toString key.seqNo.toNat ++ "." ++ toString key.piece.val

instance : ToString BranchKey := ⟨text⟩

end BranchKey

end BranchSelector
