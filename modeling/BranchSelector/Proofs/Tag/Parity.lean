import BranchSelector.Tag
import Mathlib.Algebra.Group.Nat.Defs
import Mathlib.Data.List.Count

/-!
# The bits of a folded tag

Bit number `place` of a folded tag is the exclusive or of the bits of the tag at `place`,
`place + width`, `place + 2 * width` and so on (`Tag.xorBits` over `Tag.places`). One slice takes
the first of these bits, and the others lie in the tag shifted down by the width
(`Tag.xorBits_places`). The loop of `Tag.fold` and the sum of slices `Tag.xorSlices` both go by this
equation, the one forward from what is left of the tag (`Tag.testBit_foldRest`) and the other back
from the slices so far (`Tag.testBit_xorSlices`). So they agree (`Tag.fold_eq`).

Nothing is left of a 64-bit tag once the bits are counted down, though the last slice may reach
beyond them. That is why the loop may end by the count, and why the check of its result never fails.
-/

namespace BranchSelector

namespace Tag

variable {width place : Nat}

/-! ## Bits at regular places -/

/-- The places of a tag that leave `place` as their remainder modulo `width`. -/
def places (width place : Nat) : List Nat :=
  (List.range 64).filter fun p => p % width = place

/-- The exclusive or of the bits of a number at some places. -/
def xorBits (n : Nat) (ps : List Nat) : Bool :=
  ps.foldr (fun p odd => n.testBit p ^^ odd) false

theorem xorBits_cons (n p : Nat) (ps : List Nat) :
    xorBits n (p :: ps) = (n.testBit p ^^ xorBits n ps) := rfl

theorem xorBits_append (n : Nat) (ps qs : List Nat) :
    xorBits n (ps ++ qs) = (xorBits n ps ^^ xorBits n qs) := by
  induction ps with
  | nil => exact (Bool.false_xor _).symm
  | cons p ps ih => rw [List.cons_append, xorBits_cons, xorBits_cons, ih, Bool.xor_assoc]

/-- Where no bit is set, nothing is added up. -/
theorem xorBits_eq_false {n : Nat} {ps : List Nat} (h : ∀ p ∈ ps, n.testBit p = false) :
    xorBits n ps = false := by
  induction ps with
  | nil => rfl
  | cons p ps ih =>
    rw [List.forall_mem_cons] at h
    rw [xorBits_cons, h.1, ih h.2]
    rfl

theorem xorBits_xor (a b : Nat) (ps : List Nat) :
    xorBits (a ^^^ b) ps = (xorBits a ps ^^ xorBits b ps) := by
  induction ps with
  | nil => rfl
  | cons p ps ih =>
    rw [xorBits_cons, xorBits_cons, xorBits_cons, ih, Nat.testBit_xor]
    cases a.testBit p <;> cases b.testBit p <;> simp

theorem xorBits_shiftRight (n width : Nat) (ps : List Nat) :
    xorBits (n >>> width) ps = xorBits n (ps.map (width + ·)) := by
  induction ps with
  | nil => rfl
  | cons p ps ih => rw [List.map_cons, xorBits_cons, xorBits_cons, ih, Nat.testBit_shiftRight]

/-- Among the places of one slice only one leaves a given remainder. -/
theorem filter_range_mod (hplace : place < width) :
    (List.range width).filter (fun p => p % width = place) = [place] := by
  have hself : ∀ p ∈ List.range width, decide (p % width = place) = (p == place) := by
    intro p hp
    rw [Nat.mod_eq_of_lt (List.mem_range.1 hp)]
    rfl
  rw [List.filter_congr hself, List.filter_beq, List.nodup_range.count,
    if_pos (List.mem_range.2 hplace)]
  rfl

/-- The first of the bits is that of the lowest slice, and the others are those of the tag without
this slice. -/
theorem xorBits_places (hwidth : width ≤ 64) (hplace : place < width) {n : Nat} (hn : n < 2 ^ 64) :
    xorBits n (places width place) =
      (n.testBit place ^^ xorBits (n >>> width) (places width place)) := by
  have hmod : ((fun p => decide (p % width = place)) ∘ fun p => width + p) =
      fun p => decide (p % width = place) := by
    funext p
    rw [Function.comp_apply, Nat.add_mod_left]
  have hfirst : places width place =
      [place] ++ ((List.range (64 - width)).filter fun p => p % width = place).map (width + ·) := by
    rw [places, ← Nat.add_sub_cancel' hwidth, List.range_add, List.filter_append,
      filter_range_mod hplace, List.filter_map, hmod, Nat.add_sub_cancel_left]
  -- A bit of the shifted number from `64 - width` on would be one from 64 on in the number itself.
  have hbeyond : xorBits (n >>> width)
      (((List.range width).map (64 - width + ·)).filter fun p => p % width = place) = false := by
    refine xorBits_eq_false fun p hp => ?_
    obtain ⟨q, -, rfl⟩ := List.mem_map.1 (List.mem_filter.1 hp).1
    rw [Nat.testBit_shiftRight]
    refine Nat.testBit_lt_two_pow (Nat.lt_of_lt_of_le hn (Nat.pow_le_pow_right (by decide) ?_))
    omega
  have hlast : xorBits (n >>> width) (places width place) =
      xorBits (n >>> width) ((List.range (64 - width)).filter fun p => p % width = place) := by
    rw [places, ← Nat.sub_add_cancel hwidth, List.range_add, List.filter_append, xorBits_append,
      Nat.add_sub_cancel, hbeyond, Bool.xor_false]
  rw [hlast, xorBits_shiftRight, ← xorBits_cons]
  exact congrArg (xorBits n) hfirst

/-- The bits of a number that is no wider than a slice. -/
theorem xorBits_places_of_lt (hwidth : width ≤ 64) (hplace : place < width) {n : Nat}
    (hn : n < 2 ^ width) : xorBits n (places width place) = n.testBit place := by
  have hwide : n < 2 ^ 64 := Nat.lt_of_lt_of_le hn (Nat.pow_le_pow_right (by decide) hwidth)
  have hshift : n >>> width = 0 := Nat.shiftRight_eq_zero n width hn
  rw [xorBits_places hwidth hplace hwide, hshift, xorBits_eq_false fun p _ => Nat.zero_testBit p,
    Bool.xor_false]

/-! ## The sum of the slices -/

theorem slice_lt (tag : UInt64) (width i : Nat) : slice tag width i < 2 ^ width := by
  rw [slice, Nat.one_shiftLeft]
  exact Nat.mod_lt _ (Nat.two_pow_pos width)

theorem testBit_slice (hplace : place < width) (tag : UInt64) (i : Nat) :
    (slice tag width i).testBit place = (tag.toNat >>> (i * width)).testBit place := by
  rw [slice, Nat.one_shiftLeft, Nat.testBit_mod_two_pow, decide_eq_true hplace, Bool.true_and]

/-- A folded tag has no more bits than its width. -/
theorem xorSlices_lt (tag : UInt64) (width : Nat) : xorSlices tag width < 2 ^ width := by
  have hslices (slices : List Nat) : ∀ folded < 2 ^ width,
      slices.foldl (fun folded i => folded ^^^ slice tag width i) folded < 2 ^ width := by
    induction slices with
    | nil => exact fun _ hfolded => hfolded
    | cons i slices ih =>
      intro folded hfolded
      exact ih _ (Nat.xor_lt_two_pow hfolded (slice_lt tag width i))
  exact hslices _ 0 (Nat.two_pow_pos width)

/-- The bits of a tag are those of its first slices and those that lie above them. -/
theorem xorBits_slices (hwidth : width ≤ 64) (hplace : place < width) (tag : UInt64) (count : Nat) :
    xorBits tag.toNat (places width place) =
      (((List.range count).foldl (fun folded i => folded ^^^ slice tag width i) 0).testBit place ^^
        xorBits (tag.toNat >>> (count * width)) (places width place)) := by
  induction count with
  | zero => rw [Nat.zero_mul, Nat.shiftRight_zero, List.range_zero, List.foldl_nil,
      Nat.zero_testBit, Bool.false_xor]
  | succ count ih =>
    have hrest : tag.toNat >>> (count * width) < 2 ^ 64 :=
      Nat.lt_of_le_of_lt (Nat.shiftRight_le _ _) tag.toNat_lt
    -- The next slice takes the lowest bit of what lies above, and the rest moves down.
    rw [ih, xorBits_places hwidth hplace hrest, ← testBit_slice hplace, ← Nat.shiftRight_add,
      ← Nat.succ_mul, List.range_succ, List.foldl_append, List.foldl_cons, List.foldl_nil,
      Nat.testBit_xor, Bool.xor_assoc]

theorem testBit_xorSlices (h : Foldable width) (hplace : place < width) (tag : UInt64) :
    (xorSlices tag width).testBit place = xorBits tag.toNat (places width place) := by
  -- The slices cover the tag, so that nothing lies above them.
  have hcover : 64 ≤ sliceCount width * width := by
    have hcount := Nat.div_add_mod (64 + width - 1) width
    have hrest := Nat.mod_lt (64 + width - 1) h.1
    rw [sliceCount, Nat.mul_comm]
    omega
  have hnone : tag.toNat >>> (sliceCount width * width) = 0 :=
    Nat.shiftRight_eq_zero _ _
      (Nat.lt_of_lt_of_le tag.toNat_lt (Nat.pow_le_pow_right (by decide) hcover))
  rw [xorBits_slices (Nat.le_of_lt h.2) hplace tag (sliceCount width), hnone,
    xorBits_eq_false fun p _ => Nat.zero_testBit p, Bool.xor_false]
  rfl

/-! ## The loop -/

theorem toNat_ofNat_width (h : Foldable width) : (UInt64.ofNat width).toNat % 64 = width := by
  have hlt := h.2
  rw [UInt64.toNat_ofNat']
  omega

theorem toNat_mask (h : Foldable width) : (mask width).toNat = 2 ^ width - 1 := by
  have hlt : 2 ^ width < 2 ^ 64 := Nat.pow_lt_pow_right (by decide) h.2
  have hbit : ((1 : UInt64) <<< UInt64.ofNat width).toNat = 2 ^ width := by
    rw [UInt64.toNat_shiftLeft, toNat_ofNat_width h, UInt64.toNat_one, Nat.one_shiftLeft,
      Nat.mod_eq_of_lt hlt]
  have hle : (1 : UInt64) ≤ 1 <<< UInt64.ofNat width := by
    rw [UInt64.le_iff_toNat_le, hbit]
    exact Nat.one_le_two_pow
  rw [mask, UInt64.toNat_sub_of_le _ _ hle, hbit, UInt64.toNat_one]

theorem le_mask_iff (h : Foldable width) (folded : UInt64) :
    folded ≤ mask width ↔ folded.toNat < 2 ^ width := by
  rw [UInt64.le_iff_toNat_le, toNat_mask h]
  exact Nat.le_sub_one_iff_lt (Nat.two_pow_pos width)

/-- With no bits left to count, and so none in what is left, the loop has added all of them up. -/
theorem testBit_foldRest (h : Foldable width) (hplace : place < width) (remaining : Nat)
    (rest folded : UInt64) (hrest : rest.toNat < 2 ^ remaining) :
    (foldRest width remaining rest folded).toNat.testBit place =
      (folded.toNat.testBit place ^^ xorBits rest.toNat (places width place)) := by
  fun_induction foldRest width remaining rest folded with
  | case1 remaining rest folded hmore ih =>
    have hshift : (rest >>> UInt64.ofNat width).toNat = rest.toNat >>> width := by
      rw [UInt64.toNat_shiftRight, toNat_ofNat_width h]
    have hfewer : rest.toNat >>> width < 2 ^ (remaining - width) := by
      rw [Nat.shiftRight_eq_div_pow, Nat.div_lt_iff_lt_mul (Nat.two_pow_pos width), ← Nat.pow_add]
      exact Nat.lt_of_lt_of_le hrest (Nat.pow_le_pow_right (by decide) (by omega))
    rw [ih (hshift ▸ hfewer), hshift, UInt64.toNat_xor, UInt64.toNat_and, toNat_mask h,
      Nat.testBit_xor, Nat.testBit_and, Nat.testBit_two_pow_sub_one, decide_eq_true hplace,
      Bool.and_true, xorBits_places (Nat.le_of_lt h.2) hplace rest.toNat_lt, Bool.xor_assoc]
  | case2 remaining rest folded hend =>
    have hnone : remaining = 0 := by
      have hwidth := h.1
      omega
    have hzero : rest.toNat = 0 := by
      rw [hnone] at hrest
      omega
    rw [hzero, xorBits_eq_false fun p _ => Nat.zero_testBit p, Bool.xor_false]

/-- Slices that are cut to the width leave a result of that width. -/
theorem foldRest_lt (h : Foldable width) (remaining : Nat) (rest folded : UInt64)
    (hfolded : folded.toNat < 2 ^ width) :
    (foldRest width remaining rest folded).toNat < 2 ^ width := by
  fun_induction foldRest width remaining rest folded with
  | case1 remaining rest folded hmore ih =>
    refine ih ?_
    have hmask : (mask width).toNat < 2 ^ width := by
      rw [toNat_mask h]
      exact Nat.sub_one_lt (Nat.ne_of_gt (Nat.two_pow_pos width))
    rw [UInt64.toNat_xor, UInt64.toNat_and]
    exact Nat.xor_lt_two_pow hfolded (Nat.and_lt_two_pow _ hmask)
  | case2 => exact hfolded

/-- Numbers of a width are told apart by the bits below it. -/
theorem eq_of_testBit_lt {a b : Nat} (ha : a < 2 ^ width) (hb : b < 2 ^ width)
    (hsame : ∀ place < width, a.testBit place = b.testBit place) : a = b := by
  refine Nat.eq_of_testBit_eq fun place => ?_
  by_cases hplace : place < width
  · exact hsame place hplace
  · have hle : 2 ^ width ≤ 2 ^ place :=
      Nat.pow_le_pow_right (by decide) (Nat.le_of_not_lt hplace)
    rw [Nat.testBit_lt_two_pow (Nat.lt_of_lt_of_le ha hle),
      Nat.testBit_lt_two_pow (Nat.lt_of_lt_of_le hb hle)]

/-- At a width that is allowed, folding answers the sum of the slices. -/
theorem fold_eq (h : Foldable width) (tag : UInt64) : fold tag width = .ok (xorSlices tag width) := by
  have hlt : (foldRest width 64 tag 0).toNat < 2 ^ width :=
    foldRest_lt h 64 tag 0 (Nat.two_pow_pos width)
  have hsame : (foldRest width 64 tag 0).toNat = xorSlices tag width := by
    refine eq_of_testBit_lt hlt (xorSlices_lt tag width) fun place hplace => ?_
    rw [testBit_foldRest h hplace 64 tag 0 tag.toNat_lt, testBit_xorSlices h hplace,
      UInt64.toNat_zero, Nat.zero_testBit, Bool.false_xor]
  rw [fold, if_pos h]
  show (if foldRest width 64 tag 0 ≤ mask width then _ else _) = _
  rw [if_pos ((le_mask_iff h _).2 hlt), hsame]

/-- A tag that fits the width is its own sum of slices. -/
theorem xorSlices_of_lt (h : Foldable width) {tag : UInt64} (hlt : tag.toNat < 2 ^ width) :
    xorSlices tag width = tag.toNat := by
  refine eq_of_testBit_lt (xorSlices_lt tag width) hlt fun place hplace => ?_
  rw [testBit_xorSlices h hplace, xorBits_places_of_lt (Nat.le_of_lt h.2) hplace hlt]

theorem xorSlices_xor (h : Foldable width) (a b : UInt64) :
    xorSlices (a ^^^ b) width = xorSlices a width ^^^ xorSlices b width := by
  refine eq_of_testBit_lt (xorSlices_lt _ width)
    (Nat.xor_lt_two_pow (xorSlices_lt a width) (xorSlices_lt b width)) fun place hplace => ?_
  rw [Nat.testBit_xor, testBit_xorSlices h hplace, testBit_xorSlices h hplace,
    testBit_xorSlices h hplace, UInt64.toNat_xor, xorBits_xor]

/-- At every width from 1 to 63 a tag can be folded, and what tables take as its index is what is
answered. Each bit of it is the exclusive or of the bits of the tag at the places that are in step
with it, and from the width on there are none. A tag that fits the width already is answered as it
is, as is one that was folded before, and folding goes through the exclusive or of two tags. -/
theorem parity_of_foldable (h : Foldable width) (tag : UInt64) :
    ∃ folded, fold tag width = .ok folded ∧ folded = xorSlices tag width ∧
      (∀ place < width, folded.testBit place = xorBits tag.toNat (places width place)) ∧
      (∀ place, width ≤ place → folded.testBit place = false) ∧
      (tag.toNat < 2 ^ width → folded = tag.toNat) ∧
      fold (UInt64.ofNat folded) width = .ok folded ∧
      ∀ other, ∃ foldedOther, fold other width = .ok foldedOther ∧
        fold (tag ^^^ other) width = .ok (folded ^^^ foldedOther) := by
  have hlt := xorSlices_lt tag width
  refine ⟨xorSlices tag width, fold_eq h tag, rfl, fun place hplace => testBit_xorSlices h hplace tag,
    fun place hplace => ?_, xorSlices_of_lt h, ?_,
    fun other => ⟨xorSlices other width, fold_eq h other, ?_⟩⟩
  · exact Nat.testBit_lt_two_pow
      (Nat.lt_of_lt_of_le hlt (Nat.pow_le_pow_right (by decide) hplace))
  · have hword : (UInt64.ofNat (xorSlices tag width)).toNat = xorSlices tag width :=
      UInt64.toNat_ofNat_of_lt'
        (Nat.lt_of_lt_of_le hlt (Nat.pow_le_pow_right (by decide) (Nat.le_of_lt h.2)))
    rw [fold_eq h, xorSlices_of_lt h (hword.symm ▸ hlt), hword]
  · rw [fold_eq h, xorSlices_xor h]

/-- A width that does not divide 64. Of a word with all bits set the last slice has four bits, so
that each of the low four bits is added up once more than any other. -/
theorem parity_of_foldable_ragged :
    Foldable 12 ∧ ∃ folded, fold 0xFFFFFFFFFFFFFFFF 12 = .ok folded ∧ folded = 0xFF0 ∧
      (∀ place < 12, folded.testBit place =
        xorBits (0xFFFFFFFFFFFFFFFF : UInt64).toNat (places 12 place)) ∧
      fold (UInt64.ofNat folded) 12 = .ok folded ∧
      ∃ foldedOther, fold 0xABC 12 = .ok foldedOther ∧
        fold (0xFFFFFFFFFFFFFFFF ^^^ 0xABC) 12 = .ok (folded ^^^ foldedOther) := by
  have h : Foldable 12 := by decide
  have hvalue : xorSlices 0xFFFFFFFFFFFFFFFF 12 = 0xFF0 := by decide
  obtain ⟨folded, hfold, hslices, hbits, -, -, hagain, hxor⟩ :=
    parity_of_foldable h 0xFFFFFFFFFFFFFFFF
  exact ⟨h, folded, hfold, hslices.trans hvalue, hbits, hagain, hxor 0xABC⟩

end Tag

end BranchSelector
