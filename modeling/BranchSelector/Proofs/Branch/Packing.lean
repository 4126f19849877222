import BranchSelector.Branch.Key
import Mathlib.Algebra.Group.Nat.Defs

/-!
# Packed keys

As a number, the packed word of a key is sixteen times its sequence number, of which only the
remainder modulo `2 ^ 60` is kept, plus its piece (`BranchKey.toNat_packed`). Taking a word apart
is division by sixteen (`BranchKey.toNat_seqNo_ofPacked`, `BranchKey.val_piece_ofPacked`). With
equality and order of keys read as facts about these numbers too, everything said of the packed
form is arithmetic with one quotient and one remainder.

No word is lost: each is the packed form of the key that it is taken apart into. A key is lost
exactly if its sequence number has one of the top four bits set, and among the other keys the
packed words are in program order (`BranchKey.packed_lt_packed_iff`).
-/

namespace BranchSelector

namespace BranchKey

variable {a b : BranchKey}

/-! ## Keys as pairs of numbers -/

theorem eq_iff_numbers :
    a = b ↔ a.seqNo.toNat = b.seqNo.toNat ∧ a.piece.val = b.piece.val := by
  obtain ⟨seqA, pieceA⟩ := a
  obtain ⟨seqB, pieceB⟩ := b
  rw [mk.injEq, UInt64.toNat_inj, Fin.val_inj]

theorem lt_iff_numbers :
    a < b ↔ a.seqNo.toNat < b.seqNo.toNat ∨
      a.seqNo.toNat = b.seqNo.toNat ∧ a.piece.val < b.piece.val := by
  show a.seqNo < b.seqNo ∨ a.seqNo = b.seqNo ∧ a.piece < b.piece ↔ _
  rw [UInt64.lt_iff_toNat_lt, UInt64.toNat_inj, Fin.lt_def]

/-- The comparison that ordered maps go by is program order. -/
theorem compare_eq_lt_iff : compare a b = .lt ↔ a < b := by
  show (compare a.seqNo b.seqNo).then (compare a.piece b.piece) = .lt ↔
    a.seqNo < b.seqNo ∨ a.seqNo = b.seqNo ∧ a.piece < b.piece
  have hpiece : compare a.piece b.piece = .lt ↔ a.piece < b.piece :=
    compareOfLessAndEq_eq_lt
  rw [Ordering.then_eq_lt, Std.compare_eq_lt, Std.LawfulEqCmp.compare_eq_iff_eq, hpiece]

/-! ## Words as numbers -/

theorem toNat_packed (key : BranchKey) :
    key.packed.toNat = key.seqNo.toNat % 2 ^ 60 * 16 + key.piece.val := by
  have hpiece : key.piece.val < 2 ^ 4 := key.piece.isLt
  have hlow : (UInt64.ofNat key.piece.val).toNat = key.piece.val :=
    UInt64.toNat_ofNat_of_lt' (Nat.lt_trans hpiece (by decide))
  have hhigh : (key.seqNo <<< 4).toNat = (key.seqNo.toNat % 2 ^ 60) <<< 4 := by
    rw [UInt64.toNat_shiftLeft, Nat.shiftLeft_eq, Nat.shiftLeft_eq]
    show key.seqNo.toNat * 2 ^ 4 % 2 ^ 64 = key.seqNo.toNat % 2 ^ 60 * 2 ^ 4
    omega
  -- The piece lies in the four bits that the shift has cleared.
  rw [packed, UInt64.toNat_or, hhigh, hlow, ← Nat.shiftLeft_add_eq_or_of_lt hpiece,
    Nat.shiftLeft_eq]

theorem toNat_seqNo_ofPacked (word : UInt64) :
    (ofPacked word).seqNo.toNat = word.toNat / 16 := by
  show (word >>> 4).toNat = word.toNat / 16
  rw [UInt64.toNat_shiftRight]
  exact Nat.shiftRight_eq_div_pow ..

theorem val_piece_ofPacked (word : UInt64) : (ofPacked word).piece.val = word.toNat % 16 := rfl

/-! ## There and back -/

/-- Each word is the packed form of a key. -/
@[simp]
theorem packed_ofPacked (word : UInt64) : (ofPacked word).packed = word := by
  have hword := word.toNat_lt
  rw [← UInt64.toNat_inj, toNat_packed, toNat_seqNo_ofPacked, val_piece_ofPacked]
  omega

/-- A key comes back without the top four bits of its sequence number. -/
theorem ofPacked_packed (key : BranchKey) :
    (ofPacked key.packed).seqNo.toNat = key.seqNo.toNat % 2 ^ 60 ∧
      (ofPacked key.packed).piece = key.piece := by
  have hpiece := key.piece.isLt
  rw [toNat_seqNo_ofPacked, ← Fin.val_inj, val_piece_ofPacked, toNat_packed]
  omega

theorem ofPacked_packed_eq_iff (key : BranchKey) :
    ofPacked key.packed = key ↔ key.seqNo.toNat < 2 ^ 60 := by
  obtain ⟨hseq, hpiece⟩ := ofPacked_packed key
  rw [eq_iff_numbers, hseq, hpiece]
  omega

/-- Keys are packed alike exactly if they differ in lost bits only. -/
theorem packed_eq_packed_iff :
    a.packed = b.packed ↔
      a.piece = b.piece ∧ a.seqNo.toNat % 2 ^ 60 = b.seqNo.toNat % 2 ^ 60 := by
  have ha := a.piece.isLt
  have hb := b.piece.isLt
  rw [← UInt64.toNat_inj, toNat_packed, toNat_packed, ← Fin.val_inj]
  omega

/-! ## Order -/

section Order

variable (ha : a.seqNo.toNat < 2 ^ 60) (hb : b.seqNo.toNat < 2 ^ 60)

include ha hb

theorem packed_lt_packed_iff : a.packed < b.packed ↔ a < b := by
  have hpieceA := a.piece.isLt
  have hpieceB := b.piece.isLt
  rw [UInt64.lt_iff_toNat_lt, toNat_packed, toNat_packed, lt_iff_numbers]
  omega

theorem compare_packed : compare a.packed b.packed = compare a b := by
  cases horder : compare a b with
  | lt => exact Std.compare_eq_lt.2 ((packed_lt_packed_iff ha hb).2 (compare_eq_lt_iff.1 horder))
  | eq =>
    rw [Std.LawfulEqOrd.eq_of_compare horder]
    exact Std.ReflCmp.compare_self
  | gt =>
    have hlt : b < a := compare_eq_lt_iff.1 (Std.OrientedCmp.gt_iff_lt.1 horder)
    exact Std.OrientedCmp.gt_iff_lt.2 (Std.compare_eq_lt.2 ((packed_lt_packed_iff hb ha).2 hlt))

end Order

/-- What the packed form keeps. Every word is the packed form of the key that it is taken apart
into. A key comes back from its packed form exactly if its sequence number is below `2 ^ 60`, and
two keys are packed alike exactly if their pieces are equal and their sequence numbers agree modulo
`2 ^ 60`. Between keys with sequence numbers below `2 ^ 60` the packed words are in the same order
as the keys are in the program, whether this is told by `<` or by comparing. -/
theorem packed_inverse_and_order :
    (∀ word, (ofPacked word).packed = word) ∧
    (∀ key, ofPacked key.packed = key ↔ key.seqNo.toNat < 2 ^ 60) ∧
    (∀ a b : BranchKey, a.packed = b.packed ↔
      a.piece = b.piece ∧ a.seqNo.toNat % 2 ^ 60 = b.seqNo.toNat % 2 ^ 60) ∧
    ∀ a b : BranchKey, a.seqNo.toNat < 2 ^ 60 → b.seqNo.toNat < 2 ^ 60 →
      (a.packed < b.packed ↔ a < b) ∧ compare a.packed b.packed = compare a b := by
  refine ⟨packed_ofPacked, ofPacked_packed_eq_iff, fun _ _ => packed_eq_packed_iff, ?_⟩
  intro a b ha hb
  exact ⟨packed_lt_packed_iff ha hb, compare_packed ha hb⟩

/-- Keys on both sides of the bound. The last piece of the last number but one below it is packed
just under the first piece of the last number. The number at the bound itself is packed as zero is,
so that a key with it is read as another one and comes before keys that it follows. -/
theorem packed_inverse_and_order_lastNumber :
    let before : BranchKey := ⟨0xFFFFFFFFFFFFFFE, 15⟩
    let last : BranchKey := ⟨0xFFFFFFFFFFFFFFF, 0⟩
    let beyond : BranchKey := ⟨0x1000000000000000, 0⟩
    before.seqNo.toNat < 2 ^ 60 ∧ last.seqNo.toNat < 2 ^ 60 ∧
      before.packed < last.packed ∧ ofPacked last.packed = last ∧
      ofPacked beyond.packed ≠ beyond ∧ beyond.packed = BranchKey.packed ⟨0, 0⟩ ∧
      last < beyond ∧ beyond.packed < last.packed := by
  intro before last beyond
  obtain ⟨-, hback, hsame, horder⟩ := packed_inverse_and_order
  have hbefore : before.seqNo.toNat < 2 ^ 60 := by decide
  have hlast : last.seqNo.toNat < 2 ^ 60 := by decide
  refine ⟨hbefore, hlast, (horder before last hbefore hlast).1.2 (by decide),
    (hback last).2 hlast, mt (hback beyond).1 (by decide), (hsame beyond ⟨0, 0⟩).2 (by decide),
    by decide, by decide⟩

end BranchKey

end BranchSelector
