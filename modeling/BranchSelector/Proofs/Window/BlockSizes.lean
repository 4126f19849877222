import BranchSelector.Proofs.Window.Contents
import Mathlib.Algebra.Order.BigOperators.Group.List
import Mathlib.Algebra.Order.Ring.Nat

/-!
# Sizes of blocks

The queues of block sizes are filled where the windows of block starts are, and emptied by as
many entries as these are. A size is the distance from one block start to the next, taken when
the later one is recorded. So the sizes that are left are the distances between the block starts
that are left (`gaps`), the first of them from the last start that was taken away, or from zero
if none was (`Windows.Trails`). No order of the sequence numbers is needed for this.

In order, distances add up to the way from the first to the last, which is what makes the mean
size of the recent blocks a matter of two block starts (`Windows.blockSizes_of_calls`).
-/

namespace BranchSelector

/-- The last number of two lists in a row is that of the first one where the second is empty. -/
theorem getLastD_append (starts later : List Nat) (previous : Nat) :
    (starts ++ later).getLastD previous = later.getLastD (starts.getLastD previous) := by
  simp only [List.getLastD_eq_getLast?, List.getLast?_append]
  cases later.getLast? <;> rfl

/-- How far each number of a list lies beyond the one before it, and the first of them beyond
`previous`. -/
def gaps (previous : Nat) : List Nat → List Nat
  | [] => []
  | start :: starts => (start - previous) :: gaps start starts

theorem length_gaps (previous : Nat) (starts : List Nat) :
    (gaps previous starts).length = starts.length := by
  induction starts generalizing previous with
  | nil => rfl
  | cons start starts ih => exact congrArg (· + 1) (ih start)

theorem gaps_append (previous : Nat) (starts later : List Nat) :
    gaps previous (starts ++ later) =
      gaps previous starts ++ gaps (starts.getLastD previous) later := by
  induction starts generalizing previous with
  | nil => rfl
  | cons start starts ih =>
    rw [List.getLastD_cons]
    exact congrArg (List.cons _) (ih start)

/-- Without its first numbers, a list begins where the last of them was. -/
theorem drop_gaps (previous : Nat) (starts : List Nat) (n : Nat) :
    (gaps previous starts).drop n =
      gaps ((starts.take n).getLastD previous) (starts.drop n) := by
  induction starts generalizing previous n with
  | nil => simp only [gaps, List.drop_nil]
  | cons start starts ih =>
    cases n with
    | zero => rfl
    | succ n =>
      rw [List.take_succ_cons, List.getLastD_cons]
      exact ih start n

/-- The distances between numbers in order add up. -/
theorem add_sum_gaps {previous : Nat} {starts : List Nat}
    (sorted : (previous :: starts).Pairwise (· ≤ ·)) :
    previous + (gaps previous starts).sum = starts.getLastD previous := by
  induction starts generalizing previous with
  | nil => rfl
  | cons start starts ih =>
    obtain ⟨hle, hstarts⟩ := List.pairwise_cons.1 sorted
    have hstart := hle start List.mem_cons_self
    have hsum := ih hstarts
    rw [gaps, List.sum_cons, List.getLastD_cons]
    omega

namespace Windows

variable {calls : List Call} {call : Call} {windows : Windows}

/-- Where blocks have started since the last reset. A branch opens a block however far it
goes, so no distance matters. -/
def blockStarts (calls : List Call) : List Nat :=
  events 0 .blockStart calls

/-! ## What a call does to the sizes -/

theorem records_blockStart (distance : Nat) (call : Call) :
    call.records distance .blockStart = call.records 0 .blockStart := by
  cases call <;> rfl

theorem lastBlockStart_recordDirection (windows : Windows) (seqNo : Nat) (pc nextPc : UInt64) :
    (windows.recordDirection seqNo pc nextPc).lastBlockStart = windows.lastBlockStart := by
  unfold recordDirection
  split
  · rfl
  · split <;> rfl

theorem lastBlockStart_recordBranch (windows : Windows) (seqNo : Nat) (opensBlock : Bool)
    (pc nextPc : UInt64) :
    (windows.recordBranch seqNo opensBlock pc nextPc).lastBlockStart =
      if opensBlock then some seqNo else windows.lastBlockStart := by
  have hopened : (if opensBlock then windows.recordBlock seqNo else windows).lastBlockStart =
      if opensBlock then some seqNo else windows.lastBlockStart := by
    split <;> rfl
  unfold recordBranch
  dsimp only
  split
  · exact (lastBlockStart_recordDirection _ seqNo pc nextPc).trans hopened
  · exact (lastBlockStart_recordDirection _ seqNo pc nextPc).trans hopened

/-- A call that neither prunes nor resets enters a size where it enters a block start. -/
theorem sizes_apply (windows : Windows) (hprune : call.pruned? = none) (hreset : call ≠ .reset)
    (span : Span) :
    (windows.apply call).sizes span = windows.sizes span ++
      if call.records 0 .blockStart then
        call.seqNo?.toList.map (· - windows.lastBlockStart.getD 0) else [] := by
  cases call with
  | branch seqNo opensBlock pc nextPc => exact sizes_recordBranch ..
  | indirect | call =>
    show (windows.record _ _).sizes span = _
    rw [sizes_record]
    exact (List.append_nil _).symm
  | prune => cases hprune
  | reset => exact absurd rfl hreset

theorem lastBlockStart_apply (windows : Windows) (hreset : call ≠ .reset) :
    (windows.apply call).lastBlockStart =
      if call.records 0 .blockStart then call.seqNo? else windows.lastBlockStart := by
  cases call with
  | branch seqNo opensBlock pc nextPc => exact lastBlockStart_recordBranch ..
  | indirect | call | prune => rfl
  | reset => exact absurd rfl hreset

/-! ## Sizes and block starts side by side -/

/-- The sizes are the distances between the block starts that are left: those of one span go on
from the last start that went out of its window. -/
structure Trails (calls : List Call) (windows : Windows) : Prop where
  last : windows.lastBlockStart = (blockStarts calls).getLast?
  spans : ∀ span, ∃ gone, blockStarts calls = gone ++ windows.entries .blockStart span ∧
    windows.sizes span = gaps (gone.getLastD 0) (windows.entries .blockStart span)

namespace Trails

theorem ofConfig (config : WindowConfig) : (ofConfig config).Trails [] where
  last := rfl
  spans span := ⟨[], by cases span <;> rfl, by cases span <;> rfl⟩

theorem reset (windows : Windows) (calls : List Call) :
    (windows.apply .reset).Trails (calls ++ [.reset]) where
  last := by
    rw [blockStarts, events_concat_reset]
    rfl
  spans span := by
    refine ⟨[], ?_, ?_⟩
    · rw [blockStarts, events_concat_reset]
      exact (entries_reset windows .blockStart span).symm
    · show windows.reset.sizes span = gaps 0 (windows.reset.entries .blockStart span)
      rw [entries_reset]
      cases span <;> rfl

/-- A block start that is recorded comes after the last one, in view or not. -/
theorem enter (h : windows.Trails calls) (hprune : call.pruned? = none) (hreset : call ≠ .reset) :
    (windows.apply call).Trails (calls ++ [call]) where
  last := by
    rw [lastBlockStart_apply windows hreset, blockStarts, events_concat hreset]
    split
    · rename_i hrecords
      cases call with
      | branch => exact List.getLast?_concat.symm
      | indirect | call | prune | reset => cases hrecords
    · rw [List.append_nil]
      exact h.last
  spans span := by
    obtain ⟨gone, hstarts, hsizes⟩ := h.spans span
    have hlast : windows.lastBlockStart.getD 0 =
        (windows.entries .blockStart span).getLastD (gone.getLastD 0) := by
      rw [h.last, hstarts, ← List.getLastD_eq_getLast?, getLastD_append]
    refine ⟨gone, ?_, ?_⟩
    · rw [entries_apply windows hprune hreset, records_blockStart, ← List.append_assoc, ← hstarts]
      exact events_concat hreset
    · rw [entries_apply windows hprune hreset, records_blockStart, gaps_append, ← hsizes,
        sizes_apply windows hprune hreset, hlast]
      congr 1
      split
      · cases call.seqNo? <;> rfl
      · rfl

/-- Pruning moves block starts from one side of the last that went to the other. -/
theorem prune (h : windows.Trails calls) (seqNo : Nat) :
    (windows.apply (.prune seqNo)).Trails (calls ++ [.prune seqNo]) := by
  have hcalls : blockStarts (calls ++ [.prune seqNo]) = blockStarts calls :=
    (events_concat (by simp)).trans (List.append_nil _)
  refine ⟨by rw [hcalls]; exact h.last, fun span => ?_⟩
  obtain ⟨gone, hstarts, hsizes⟩ := h.spans span
  let evicted := (windows.blockStart.get span).evicted seqNo
  have hentries : (windows.apply (.prune seqNo)).entries .blockStart span =
      (windows.entries .blockStart span).drop evicted :=
    entries_prune windows seqNo .blockStart span
  refine ⟨gone ++ (windows.entries .blockStart span).take evicted, ?_, ?_⟩
  · rw [hcalls, hentries, List.append_assoc, List.take_append_drop]
    exact hstarts
  · show (windows.prune seqNo).sizes span = _
    rw [hentries, sizes_prune, hsizes, drop_gaps, getLastD_append]

theorem apply (h : windows.Trails calls) (call : Call) :
    (windows.apply call).Trails (calls ++ [call]) := by
  cases call with
  | reset => exact reset windows calls
  | prune seqNo => exact h.prune seqNo
  | branch | indirect | call => exact h.enter rfl (by simp)

/-- After any calls, in whatever order their sequence numbers are. -/
theorem applyAll (config : WindowConfig) (calls : List Call) :
    ((Windows.ofConfig config).applyAll calls).Trails calls := by
  induction calls using List.reverseRecOn with
  | nil => exact ofConfig config
  | append_singleton calls call ih =>
    have hlast := ih.apply call
    rw [Windows.applyAll, List.foldl_concat]
    exact hlast

theorem length_sizes (h : windows.Trails calls) (span : Span) :
    (windows.sizes span).length = windows.count .blockStart span := by
  obtain ⟨gone, -, hsizes⟩ := h.spans span
  rw [hsizes, length_gaps]
  rfl

/-- There are as many sizes to take away as block starts. -/
theorem evicted_le (h : windows.Trails calls) (seqNo : Nat) (span : Span) :
    (windows.blockStart.get span).evicted seqNo ≤ (windows.sizes span).length := by
  rw [h.length_sizes span]
  exact (List.takeWhile_sublist _).length_le

/-- Between block starts in order the sizes add up. -/
theorem add_sum_sizes (h : windows.Trails calls) (span : Span)
    (sorted : (blockStarts calls).Pairwise (· ≤ ·)) {last : Nat}
    (hlast : (windows.entries .blockStart span).getLast? = some last) :
    ∃ gone, blockStarts calls = gone ++ windows.entries .blockStart span ∧
      gone.getLastD 0 + (windows.sizes span).sum = last := by
  obtain ⟨gone, hstarts, hsizes⟩ := h.spans span
  rw [hstarts, List.pairwise_append] at sorted
  obtain ⟨-, hentries, hgone⟩ := sorted
  have hle : ∀ start ∈ windows.entries .blockStart span, gone.getLastD 0 ≤ start := by
    intro start hstart
    rw [List.getLastD_eq_getLast?]
    cases hevicted : gone.getLast? with
    | none => exact Nat.zero_le start
    | some evicted => exact hgone evicted (List.mem_of_getLast? hevicted) start hstart
  have hend : (windows.entries .blockStart span).getLastD (gone.getLastD 0) = last := by
    rw [List.getLastD_eq_getLast?, hlast, Option.getD_some]
  have hsum := add_sum_gaps (List.pairwise_cons.2 ⟨hle, hentries⟩)
  rw [← hsizes, hend] at hsum
  exact ⟨gone, hstarts, hsum⟩

end Trails

/-! ## The mean size -/

theorem hasBlocks_iff (windows : Windows) (span : Span) :
    windows.hasBlocks span = true ↔ windows.entries .blockStart span ≠ [] := by
  rw [hasBlocks, decide_eq_true_eq, count_eq_length, List.length_pos_iff]

theorem meanBlockSize_of_hasBlocks (h : windows.Trails calls) {span : Span}
    (hblocks : windows.hasBlocks span = true) :
    windows.meanBlockSize span =
      .ok ((windows.sizes span).sum / windows.count .blockStart span) := by
  rw [hasBlocks, decide_eq_true_eq, ← h.length_sizes span, List.length_pos_iff] at hblocks
  rw [meanBlockSize, if_neg (by simpa using hblocks), ← List.sum_eq_foldl, h.length_sizes span]

theorem meanBlockSize_of_not_hasBlocks (h : windows.Trails calls) {span : Span}
    (hblocks : windows.hasBlocks span = false) :
    windows.meanBlockSize span = .error .meanOfEmptyWindow := by
  rw [hasBlocks, decide_eq_false_iff_not, ← h.length_sizes span, List.length_pos_iff,
    not_not] at hblocks
  rw [meanBlockSize, if_pos (by simpa using hblocks)]

/-- Whatever calls have been made, there are as many sizes of blocks as block starts in the window,
so that pruning finds those it takes away, and only an empty window has no mean size.

If the sequence numbers never decrease, the sizes in a window that is not empty add up to the
distance of the last block start from the last one that has left the window, or from zero if none
has since the last reset. On the way there no sum outgrows a word, if no sequence number does.
Only the block starts since the last reset matter for this: a reset may start the numbers again,
and pruning may come late. -/
theorem blockSizes_of_calls (config : WindowConfig) (calls : List Call) (span : Span) :
    let windows := (Windows.ofConfig config).applyAll calls
    (windows.sizes span).length = windows.count .blockStart span ∧
    (∀ seqNo, (windows.blockStart.get span).evicted seqNo ≤ (windows.sizes span).length) ∧
    (∀ violation, windows.meanBlockSize span = .error violation ↔
      windows.hasBlocks span = false ∧ violation = .meanOfEmptyWindow) ∧
    ((blockStarts calls).Pairwise (· ≤ ·) → windows.hasBlocks span = true →
      ∃ gone last, blockStarts calls = gone ++ windows.entries .blockStart span ∧
        windows.lastBlockStart = some last ∧ gone.getLastD 0 ≤ last ∧
        (windows.sizes span).sum = last - gone.getLastD 0 ∧
        ((∀ start ∈ blockStarts calls, start < 2 ^ 64) →
          ∀ n, ((windows.sizes span).take n).sum < 2 ^ 64) ∧
        windows.meanBlockSize span =
          .ok ((last - gone.getLastD 0) / windows.count .blockStart span)) := by
  intro windows
  have htrails : windows.Trails calls := .applyAll config calls
  refine ⟨htrails.length_sizes span, fun seqNo => htrails.evicted_le seqNo span,
    fun violation => ?_, fun ordered hblocks => ?_⟩
  · cases hblocks : windows.hasBlocks span with
    | true =>
      rw [meanBlockSize_of_hasBlocks htrails hblocks]
      simp
    | false =>
      rw [meanBlockSize_of_not_hasBlocks htrails hblocks]
      simp [eq_comm]
  · obtain ⟨last, hlast⟩ := Option.ne_none_iff_exists'.1
      (mt List.getLast?_eq_none_iff.1 ((hasBlocks_iff windows span).1 hblocks))
    obtain ⟨gone, hstarts, hsum⟩ := htrails.add_sum_sizes span ordered hlast
    have hlastStart : windows.lastBlockStart = some last := by
      rw [htrails.last, hstarts, List.getLast?_append, hlast, Option.some_or]
    have hway : (windows.sizes span).sum = last - gone.getLastD 0 := by omega
    refine ⟨gone, last, hstarts, hlastStart, by omega, hway, fun words n => ?_, ?_⟩
    · have hword : last < 2 ^ 64 := by
        refine words last ?_
        rw [hstarts]
        exact List.mem_append_right gone (List.mem_of_getLast? hlast)
      have hle := (List.take_sublist n (windows.sizes span)).sum_le_sum
        fun size _ => Nat.zero_le size
      omega
    · rw [meanBlockSize_of_hasBlocks htrails hblocks, hway]

/-- After a reset the numbers start again. Three blocks start, the first two of which leave the
short window: the size of the third one goes back to the start of the second. -/
def threeBlocks : List Call :=
  [.branch 90 true 0 0, .reset, .branch 3 true 0x40 0x80, .indirect 4, .branch 7 true 0x80 0x40,
    .branch 20 false 0x40 0x44, .prune 7, .call 20, .branch 30 true 0x44 0x80, .prune 20]

theorem blockSizes_of_calls_threeBlocks :
    let windows := (Windows.ofConfig ⟨10, 1000, 512⟩).applyAll threeBlocks
    (blockStarts threeBlocks).Pairwise (· ≤ ·) ∧ windows.hasBlocks .short = true ∧
      (windows.sizes .short).sum = 30 - 7 ∧ windows.meanBlockSize .short = .ok ((30 - 7) / 1) := by
  intro windows
  have hordered : (blockStarts threeBlocks).Pairwise (· ≤ ·) := by decide
  have hblocks : windows.hasBlocks .short = true := by decide
  obtain ⟨-, -, -, hsizes⟩ := blockSizes_of_calls ⟨10, 1000, 512⟩ threeBlocks .short
  obtain ⟨gone, last, hstarts, hlast, -, hsum, -, hmean⟩ := hsizes hordered hblocks
  obtain rfl : last = 30 := Option.some.inj (hlast.symm.trans (by decide))
  obtain rfl : gone = [3, 7] := by
    refine List.append_cancel_right (hstarts.symm.trans ?_)
    decide
  exact ⟨hordered, hblocks, hsum, hmean⟩

end Windows

end BranchSelector
