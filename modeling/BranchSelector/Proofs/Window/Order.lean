import BranchSelector.Selector.Basic

/-!
# Order in the windows

Two things are expected of whoever drives the windows. An event enters at the back of a
window, so none that is in the window may be later (`Window.Accepts`), for pruning looks at
the front only. And the queues of block sizes lose their entries along with the windows of
block starts, so they must be as long as these (`Windows.Parallel`). `FetchChecks` states
what is expected at a fetch.

Fetching a branch enters its sequence number into the windows of some kinds
(`Windows.logs`), at most once into each (`Windows.entries_entered`), and then prunes. So
windows that hold nothing later than some sequence number and whose sizes are parallel,
`Windows.Orderly` ones, stay so when a branch up to that number is fetched
(`orderly_fetchWindows`), and a fetch of the branch of that number meets every expectation
(`fetchChecks_of_orderly`).
-/

namespace BranchSelector

/-- Nothing in the window is later than an event that is about to enter. -/
def Window.Accepts (window : Window) (seqNo : Nat) : Prop :=
  ∀ last, window.entries.getLast? = some last → last ≤ seqNo

namespace Windows

/-- The entries of the window of one kind and reach. -/
def entries (windows : Windows) (kind : WindowKind) (span : Span) : List Nat :=
  ((windows.get kind).get span).entries

theorem count_eq_length (windows : Windows) (kind : WindowKind) (span : Span) :
    windows.count kind span = (windows.entries kind span).length := rfl

theorem get_record (windows : Windows) (kind other : WindowKind) (seqNo : Nat) :
    (windows.record kind seqNo).get other =
      if other = kind then (windows.get other).map (·.push seqNo) else windows.get other := by
  rw [record, get_map]

theorem get_prune (windows : Windows) (seqNo : Nat) (kind : WindowKind) :
    (windows.prune seqNo).get kind = (windows.get kind).map (·.prune seqNo) := by
  cases kind <;> rfl

theorem get_reset (windows : Windows) (kind : WindowKind) :
    windows.reset.get kind = (windows.get kind).map Window.clear := by
  cases kind <;> rfl

/-- Entering an event changes the two windows of its kind. -/
theorem entries_record (windows : Windows) (kind other : WindowKind) (seqNo : Nat) (span : Span) :
    (windows.record kind seqNo).entries other span =
      if other = kind then windows.entries other span ++ [seqNo]
      else windows.entries other span := by
  unfold entries
  rw [get_record]
  split
  · rw [WindowPair.get_map]
    rfl
  · rfl

theorem entries_recordBlock (windows : Windows) (kind : WindowKind) (seqNo : Nat) (span : Span) :
    (windows.recordBlock seqNo).entries kind span =
      (windows.record .blockStart seqNo).entries kind span := by
  cases kind <;> rfl

theorem entries_recordDirection (windows : Windows) (seqNo : Nat) (pc nextPc : UInt64)
    (kind : WindowKind) (span : Span) :
    (windows.recordDirection seqNo pc nextPc).entries kind span =
      windows.entries kind span ++
        if (kind = .forward ∧ 0 < displacement pc nextPc) ∨
          (kind = .backward ∧ displacement pc nextPc < 0) then [seqNo] else [] := by
  unfold recordDirection
  split
  · rw [entries_record]
    cases kind <;> simp <;> omega
  · split
    · rw [entries_record]
      cases kind <;> simp <;> omega
    · cases kind <;> simp <;> omega

theorem entries_recordClass (windows : Windows) (seqNo : Nat) (branchKind : BranchClass)
    (kind : WindowKind) (span : Span) :
    (windows.recordClass seqNo branchKind).entries kind span =
      windows.entries kind span ++
        if (kind = .indirect ∧ branchKind = .uncondIndirect) ∨
          (kind = .call ∧ branchKind.isCall) then [seqNo] else [] := by
  cases branchKind <;> cases kind <;>
    simp [recordClass, entries_record, BranchClass.isCall]

theorem entries_prune (windows : Windows) (seqNo : Nat) (kind : WindowKind) (span : Span) :
    (windows.prune seqNo).entries kind span =
      (windows.entries kind span).drop (((windows.get kind).get span).evicted seqNo) := by
  unfold entries
  rw [get_prune, WindowPair.get_map, Window.entries_prune]

theorem entries_reset (windows : Windows) (kind : WindowKind) (span : Span) :
    windows.reset.entries kind span = [] := by
  unfold entries
  rw [get_reset, WindowPair.get_map]
  rfl

theorem entries_ofConfig (config : WindowConfig) (kind : WindowKind) (span : Span) :
    (ofConfig config).entries kind span = [] := by
  cases kind <;> cases span <;> rfl

/-! ## What a fetch does -/

/-- Whether a fetched branch enters the windows of a kind. -/
def logs (windows : Windows) (branch : Branch) : WindowKind → Bool
  | .indirect => branch.kind == .uncondIndirect
  | .longBranch => branch.opensBlock &&
    decide (windows.longBranchDistance < (displacement branch.pc branch.nextPc).natAbs)
  | .call => branch.kind.isCall
  | .forward => decide (0 < displacement branch.pc branch.nextPc)
  | .backward => decide (displacement branch.pc branch.nextPc < 0)
  | .blockStart => branch.opensBlock

/-- The windows of a fetch just before they are pruned. -/
def entered (windows : Windows) (branch : Branch) : Windows :=
  (windows.recordBranch branch.seqNo.toNat branch.opensBlock branch.pc
    branch.nextPc).recordClass branch.seqNo.toNat branch.kind

/-- A fetched branch enters each window at most once, at its back. -/
theorem entries_entered (windows : Windows) (branch : Branch) (kind : WindowKind)
    (span : Span) :
    (windows.entered branch).entries kind span =
      windows.entries kind span ++
        if windows.logs branch kind then [branch.seqNo.toNat] else [] := by
  unfold entered recordBranch logs
  rw [entries_recordClass]
  dsimp only
  -- No two of the records that one branch may make are of the same kind.
  cases branch.opensBlock <;> split <;> cases kind <;>
    simp_all [entries_record, entries_recordDirection, entries_recordBlock]

theorem sizes_record (windows : Windows) (kind : WindowKind) (seqNo : Nat) (span : Span) :
    (windows.record kind seqNo).sizes span = windows.sizes span := by
  cases span <;> rfl

theorem sizes_recordDirection (windows : Windows) (seqNo : Nat) (pc nextPc : UInt64)
    (span : Span) :
    (windows.recordDirection seqNo pc nextPc).sizes span = windows.sizes span := by
  unfold recordDirection
  split
  · exact sizes_record ..
  · split
    · exact sizes_record ..
    · rfl

theorem sizes_recordBlock (windows : Windows) (seqNo : Nat) (span : Span) :
    (windows.recordBlock seqNo).sizes span =
      windows.sizes span ++ [seqNo - windows.lastBlockStart.getD 0] := by
  cases span <;> rfl

/-- A branch that opens a block brings one size along. -/
theorem sizes_recordBranch (windows : Windows) (seqNo : Nat) (opensBlock : Bool)
    (pc nextPc : UInt64) (span : Span) :
    (windows.recordBranch seqNo opensBlock pc nextPc).sizes span =
      windows.sizes span ++
        if opensBlock then [seqNo - windows.lastBlockStart.getD 0] else [] := by
  have hopened : (if opensBlock then windows.recordBlock seqNo else windows).sizes span =
      windows.sizes span ++
        if opensBlock then [seqNo - windows.lastBlockStart.getD 0] else [] := by
    split
    · exact sizes_recordBlock windows seqNo span
    · exact (List.append_nil _).symm
  unfold recordBranch
  dsimp only
  split
  · rw [sizes_record, sizes_recordDirection, hopened]
  · rw [sizes_recordDirection, hopened]

/-- Sizes are taken away with the block starts they belong to. -/
theorem sizes_prune (windows : Windows) (seqNo : Nat) (span : Span) :
    (windows.prune seqNo).sizes span =
      (windows.sizes span).drop ((windows.blockStart.get span).evicted seqNo) := by
  cases span <;> rfl

theorem length_sizes_entered (windows : Windows) (branch : Branch) (span : Span) :
    ((windows.entered branch).sizes span).length =
      (windows.sizes span).length + if branch.opensBlock then 1 else 0 := by
  have hclass (w : Windows) :
      (w.recordClass branch.seqNo.toNat branch.kind).sizes span = w.sizes span := by
    cases branch.kind <;> rfl
  unfold entered
  rw [hclass, sizes_recordBranch, List.length_append]
  split <;> rfl

/-! ## Orderly windows -/

/-- There is one block size for each entry in the windows of block starts. -/
def Parallel (windows : Windows) : Prop :=
  ∀ span, (windows.sizes span).length = windows.count .blockStart span

/-- Nothing in the windows is later than a sequence number, and the sizes are parallel. -/
structure Orderly (bound : Nat) (windows : Windows) : Prop where
  le : ∀ kind span, ∀ entry ∈ windows.entries kind span, entry ≤ bound
  parallel : windows.Parallel

theorem orderly_ofConfig (config : WindowConfig) (bound : Nat) :
    (ofConfig config).Orderly bound where
  le kind span entry he := by
    rw [entries_ofConfig] at he
    cases he
  parallel span := by cases span <;> rfl

namespace Orderly

variable {bound seqNo : Nat} {windows : Windows} {branch : Branch}

theorem reset (windows : Windows) (bound : Nat) : windows.reset.Orderly bound where
  le kind span entry he := by
    rw [entries_reset] at he
    cases he
  parallel span := by
    rw [count_eq_length, entries_reset]
    cases span <;> rfl

theorem accepts (h : windows.Orderly seqNo) (kind : WindowKind) (span : Span) :
    ((windows.get kind).get span).Accepts seqNo := fun last hlast =>
  h.le kind span last (List.mem_of_getLast? hlast)

theorem entered (h : windows.Orderly bound) (hle : branch.seqNo.toNat ≤ bound) :
    (windows.entered branch).Orderly bound where
  le kind span entry he := by
    rw [entries_entered] at he
    rcases List.mem_append.1 he with hold | hnew
    · exact h.le kind span entry hold
    · split at hnew
      · exact List.mem_singleton.1 hnew ▸ hle
      · cases hnew
  parallel span := by
    rw [count_eq_length, entries_entered, length_sizes_entered, h.parallel span,
      count_eq_length, List.length_append]
    show _ = _ + (if branch.opensBlock then [branch.seqNo.toNat] else []).length
    split <;> rfl

/-- The sizes that pruning takes away are there. -/
theorem evicted_le (h : windows.Orderly bound) (seqNo : Nat) (span : Span) :
    (windows.blockStart.get span).evicted seqNo ≤ (windows.sizes span).length := by
  rw [h.parallel span]
  exact (List.takeWhile_sublist _).length_le

theorem prune (h : windows.Orderly bound) (seqNo : Nat) : (windows.prune seqNo).Orderly bound where
  le kind span entry he := by
    rw [entries_prune] at he
    exact h.le kind span entry (List.mem_of_mem_drop he)
  parallel span := by
    rw [count_eq_length, entries_prune, sizes_prune, List.length_drop, List.length_drop,
      h.parallel span]
    rfl

end Orderly

end Windows

namespace Selector

open Windows

/-- What is expected of the windows at a fetch: whichever of them the branch enters accepts
it, pruning takes away no more sizes than there are, and the sizes are parallel to the block
starts afterwards. -/
structure FetchChecks (windows : Windows) (branch : Branch) : Prop where
  accepts : ∀ kind span, ((windows.get kind).get span).Accepts branch.seqNo.toNat
  evicted : ∀ span, ((windows.entered branch).blockStart.get span).evicted
    branch.seqNo.toNat ≤ ((windows.entered branch).sizes span).length
  parallel : (fetchWindows windows branch).Parallel

variable {bound : Nat} {windows : Windows} {branch : Branch}

/-- A fetch keeps the windows orderly. -/
theorem orderly_fetchWindows (h : windows.Orderly bound) (hle : branch.seqNo.toNat ≤ bound) :
    (fetchWindows windows branch).Orderly bound :=
  (h.entered hle).prune branch.seqNo.toNat

/-- A fetch that is not earlier than what the windows hold meets the expectations. -/
theorem fetchChecks_of_orderly (h : windows.Orderly branch.seqNo.toNat) :
    FetchChecks windows branch where
  accepts := h.accepts
  evicted := (h.entered (Nat.le_refl _)).evicted_le branch.seqNo.toNat
  parallel := (orderly_fetchWindows h (Nat.le_refl _)).parallel

/-- A fetch makes a window longer by at most one. -/
theorem count_fetchWindows_le (windows : Windows) (branch : Branch) (kind : WindowKind)
    (span : Span) :
    (fetchWindows windows branch).count kind span ≤ windows.count kind span + 1 := by
  have hpruned : ((fetchWindows windows branch).entries kind span).length ≤
      ((windows.entered branch).entries kind span).length := by
    rw [show fetchWindows windows branch = (windows.entered branch).prune _ from rfl,
      entries_prune, List.length_drop]
    exact Nat.sub_le _ _
  rw [entries_entered, List.length_append] at hpruned
  have hone : (if windows.logs branch kind then [branch.seqNo.toNat] else []).length ≤ 1 := by
    split <;> simp
  rw [count_eq_length, count_eq_length]
  omega

end Selector

end BranchSelector
