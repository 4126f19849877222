import BranchSelector.Proofs.Window.Contents
import Mathlib.Algebra.Group.Int.Defs
import Mathlib.Algebra.Group.Nat.Defs

/-!
# Directions and distances of branches

A branch that is fetched is classed by its displacement, the difference of two addresses read as a
signed word. As numbers the addresses may lie up to `2 ^ 64 - 1` apart (`Windows.gap`), which is
further than a signed word reaches. The displacement is the gap as long as that fits, and otherwise
goes the other way round the address space (`Windows.displacement_eq`).

So the windows of forward and backward branches follow the order of the addresses exactly where
the gap is that of a signed word, and a long branch is told by the shorter of the two ways round
(`Windows.direction_of_branch`). From one end of the address space to the other a branch upwards
counts as a backward one, and as a short one if it nearly goes full circle
(`Windows.not_entersIf_across`).
-/

namespace BranchSelector

namespace Windows

/-! ## The gap between two addresses -/

/-- How far the next address lies above that of a branch, as a difference of numbers. -/
def gap (pc nextPc : UInt64) : Int :=
  nextPc.toNat - pc.toNat

theorem natAbs_gap_lt (pc nextPc : UInt64) : (gap pc nextPc).natAbs < 2 ^ 64 := by
  have hpc := pc.toNat_lt
  have hnext := nextPc.toNat_lt
  unfold gap
  omega

theorem gap_pos_iff {pc nextPc : UInt64} : 0 < gap pc nextPc ↔ pc < nextPc := by
  rw [UInt64.lt_iff_toNat_lt]
  unfold gap
  omega

theorem gap_neg_iff {pc nextPc : UInt64} : gap pc nextPc < 0 ↔ nextPc < pc := by
  rw [UInt64.lt_iff_toNat_lt]
  unfold gap
  omega

/-- A gap that is too wide for a signed word is taken the other way round. -/
theorem displacement_eq (pc nextPc : UInt64) :
    displacement pc nextPc =
      if gap pc nextPc < -2 ^ 63 then gap pc nextPc + 2 ^ 64
      else if gap pc nextPc < 2 ^ 63 then gap pc nextPc
      else gap pc nextPc - 2 ^ 64 := by
  have hpc := pc.toNat_lt
  have hnext := nextPc.toNat_lt
  have hword : displacement pc nextPc = (nextPc - pc).toBitVec.toInt := rfl
  rw [hword, BitVec.toInt_eq_toNat_cond, UInt64.toNat_toBitVec, UInt64.toNat_sub, gap]
  split_ifs <;> omega

theorem displacement_pos_iff {pc nextPc : UInt64} :
    0 < displacement pc nextPc ↔
      0 < gap pc nextPc ∧ gap pc nextPc < 2 ^ 63 ∨ gap pc nextPc < -2 ^ 63 := by
  have hgap := natAbs_gap_lt pc nextPc
  rw [displacement_eq]
  split_ifs <;> omega

theorem displacement_neg_iff {pc nextPc : UInt64} :
    displacement pc nextPc < 0 ↔
      -2 ^ 63 ≤ gap pc nextPc ∧ gap pc nextPc < 0 ∨ 2 ^ 63 ≤ gap pc nextPc := by
  have hgap := natAbs_gap_lt pc nextPc
  rw [displacement_eq]
  split_ifs <;> omega

/-- Of the two ways round the address space a branch takes the shorter one. -/
theorem natAbs_displacement (pc nextPc : UInt64) :
    (displacement pc nextPc).natAbs =
      min (gap pc nextPc).natAbs (2 ^ 64 - (gap pc nextPc).natAbs) := by
  have hgap := natAbs_gap_lt pc nextPc
  rw [displacement_eq]
  split_ifs <;> omega

/-! ## The windows that a branch enters -/

/-- A branch enters both windows of a kind if some condition holds, and neither of them otherwise. -/
def EntersIf (windows : Windows) (branch : Branch) (kind : WindowKind) (condition : Prop)
    [Decidable condition] : Prop :=
  ∀ span,
    (windows.recordBranch branch.seqNo.toNat branch.opensBlock branch.pc branch.nextPc).entries
        kind span =
      windows.entries kind span ++ if condition then [branch.seqNo.toNat] else []

variable {windows : Windows} {branch : Branch}

/-- The condition is that the branch is recorded as an event of the kind, and no other one. -/
theorem entersIf_iff {kind : WindowKind} {condition : Prop} [Decidable condition] :
    windows.EntersIf branch kind condition ↔
      ((Call.branch branch.seqNo.toNat branch.opensBlock branch.pc branch.nextPc).records
        windows.longBranchDistance kind = true ↔ condition) := by
  unfold EntersIf
  have hprune : (Call.branch branch.seqNo.toNat branch.opensBlock branch.pc
    branch.nextPc).pruned? = none := rfl
  have hentries := entries_apply windows hprune Call.noConfusion kind
  constructor
  · intro henters
    have hsame := (hentries .short).symm.trans (henters .short)
    rw [List.append_cancel_left_eq] at hsame
    by_cases hcondition : condition
    · refine iff_of_true ?_ hcondition
      by_contra hrecords
      rw [if_neg hrecords, if_pos hcondition] at hsame
      cases hsame
    · refine iff_of_false (fun hrecords => ?_) hcondition
      rw [if_pos hrecords, if_neg hcondition] at hsame
      cases hsame
  · intro hiff span
    refine (hentries span).trans ?_
    simp only [hiff]
    rfl

theorem entersIf_forward_iff {condition : Prop} [Decidable condition] :
    windows.EntersIf branch .forward condition ↔
      (0 < displacement branch.pc branch.nextPc ↔ condition) := by
  rw [entersIf_iff, Call.records, decide_eq_true_eq]

theorem entersIf_backward_iff {condition : Prop} [Decidable condition] :
    windows.EntersIf branch .backward condition ↔
      (displacement branch.pc branch.nextPc < 0 ↔ condition) := by
  rw [entersIf_iff, Call.records, decide_eq_true_eq]

theorem entersIf_longBranch_iff {condition : Prop} [Decidable condition] :
    windows.EntersIf branch .longBranch condition ↔
      (branch.piece = 0 ∧
        windows.longBranchDistance < (displacement branch.pc branch.nextPc).natAbs ↔
          condition) := by
  rw [entersIf_iff, Call.records, Bool.and_eq_true, decide_eq_true_eq, Branch.opensBlock,
    beq_iff_eq]

/-- Which windows a branch enters, whatever they hold, wherever it goes and whatever counts as
long. It is a forward one if its gap is positive and fits a signed word, or if it lies so far below
that the way round upwards is shorter, and likewise a backward one. It is a long one if it opens a
block and even the shorter way round is long.

So the direction is that of the addresses exactly if the gap fits a signed word, and the distance
is the gap unless that alone is long. -/
theorem direction_of_branch (windows : Windows) (branch : Branch) :
    let far := gap branch.pc branch.nextPc
    windows.EntersIf branch .forward (0 < far ∧ far < 2 ^ 63 ∨ far < -2 ^ 63) ∧
    windows.EntersIf branch .backward (-2 ^ 63 ≤ far ∧ far < 0 ∨ 2 ^ 63 ≤ far) ∧
    windows.EntersIf branch .longBranch (branch.piece = 0 ∧
      windows.longBranchDistance < min far.natAbs (2 ^ 64 - far.natAbs)) ∧
    (windows.EntersIf branch .forward (branch.pc < branch.nextPc) ∧
        windows.EntersIf branch .backward (branch.nextPc < branch.pc) ↔
      -2 ^ 63 ≤ far ∧ far < 2 ^ 63) ∧
    (windows.EntersIf branch .longBranch (branch.piece = 0 ∧
        windows.longBranchDistance < far.natAbs) ↔
      ¬ (branch.piece = 0 ∧ windows.longBranchDistance < far.natAbs ∧
        2 ^ 64 - far.natAbs ≤ windows.longBranchDistance)) := by
  intro far
  refine ⟨?_, ?_, ?_, ?_, ?_⟩
  · exact entersIf_forward_iff.2 displacement_pos_iff
  · exact entersIf_backward_iff.2 displacement_neg_iff
  · rw [entersIf_longBranch_iff, natAbs_displacement]
  · rw [entersIf_forward_iff, entersIf_backward_iff, displacement_pos_iff, displacement_neg_iff,
      ← gap_pos_iff, ← gap_neg_iff]
    show (0 < far ∧ far < 2 ^ 63 ∨ far < -2 ^ 63 ↔ 0 < far) ∧
      (-2 ^ 63 ≤ far ∧ far < 0 ∨ 2 ^ 63 ≤ far ↔ far < 0) ↔ -2 ^ 63 ≤ far ∧ far < 2 ^ 63
    omega
  · rw [entersIf_longBranch_iff, natAbs_displacement, Nat.lt_min]
    show (branch.piece = 0 ∧ windows.longBranchDistance < far.natAbs ∧
        windows.longBranchDistance < 2 ^ 64 - far.natAbs ↔ _) ↔ _
    by_cases hblock : branch.piece = 0
    · simp only [hblock, true_and]
      omega
    · simp only [hblock, false_and, not_false_iff]

/-- A branch from the lowest address to nearly the highest one goes up and far. It is not among the
forward branches, and not among the long ones, but among those that go backward. -/
theorem not_entersIf_across :
    let windows := Windows.ofConfig {}
    let branch : Branch := ⟨1, 0, 0, .condBranch, true, 18446744073709551600⟩
    branch.pc < branch.nextPc ∧
      windows.longBranchDistance < (gap branch.pc branch.nextPc).natAbs ∧
      ¬ windows.EntersIf branch .forward (branch.pc < branch.nextPc) ∧
      ¬ windows.EntersIf branch .backward (branch.nextPc < branch.pc) ∧
      ¬ windows.EntersIf branch .longBranch (branch.piece = 0 ∧
        windows.longBranchDistance < (gap branch.pc branch.nextPc).natAbs) := by
  intro windows branch
  rw [entersIf_forward_iff, entersIf_backward_iff, entersIf_longBranch_iff]
  decide

end Windows

end BranchSelector
