import BranchSelector.Proofs.Window.BlockSizes

/-!
# Short windows within long ones

The two windows of a kind are filled alike, and each is pruned for itself, up to the first entry
that it spares. The long window spares whatever the short one does. So at no time has the long
window lost an entry that the short one still holds: the entries of the short window are the last
ones of the long window (`Windows.Nested`). What the order of the sequence numbers is does not
matter, and out of order the long window may keep entries that are older than it reaches back.

The queues of block sizes are both a rest of the same distances (`Windows.Trails.sizes_suffix`), and
the short one is not longer, so that they are nested too (`Windows.nested_of_calls`).
-/

namespace BranchSelector

/-- What is taken away from the front by the stricter test is more, and leaves a rest of what the
other one leaves. -/
theorem dropWhile_suffix_dropWhile {α : Type} {lax strict : α → Bool}
    (himp : ∀ a, lax a = true → strict a = true) {short long : List α} (h : short <:+ long) :
    short.dropWhile strict <:+ long.dropWhile lax := by
  induction long generalizing short with
  | nil =>
    rw [List.suffix_nil.1 h]
    exact List.nil_suffix
  | cons a long ih =>
    cases hlax : lax a with
    | false =>
      -- The longer list loses nothing more.
      rw [List.dropWhile_cons_of_neg (Bool.eq_false_iff.1 hlax)]
      exact (List.dropWhile_suffix strict).trans h
    | true =>
      rw [List.dropWhile_cons_of_pos hlax]
      rcases List.suffix_cons_iff.1 h with rfl | h
      · rw [List.dropWhile_cons_of_pos (himp a hlax)]
        exact ih (List.suffix_refl long)
      · exact ih h

namespace Windows

variable {config : WindowConfig} {calls : List Call} {call : Call} {windows : Windows}

theorem Framed.applyAll (config : WindowConfig) (calls : List Call) :
    ((Windows.ofConfig config).applyAll calls).Framed config := by
  induction calls using List.reverseRecOn with
  | nil => exact ofConfig config
  | append_singleton calls call ih =>
    rw [Windows.applyAll, List.foldl_concat]
    exact ih.apply call

/-- Of each kind, the entries of the short window are the last ones of the long window. -/
def Nested (windows : Windows) : Prop :=
  ∀ kind, windows.entries kind .short <:+ windows.entries kind .long

namespace Nested

theorem ofConfig (config : WindowConfig) : (ofConfig config).Nested := by
  intro kind
  rw [entries_ofConfig]
  exact List.nil_suffix

theorem reset (windows : Windows) : (windows.apply .reset).Nested := by
  intro kind
  show windows.reset.entries kind .short <:+ windows.reset.entries kind .long
  rw [entries_reset]
  exact List.nil_suffix

/-- What is recorded enters both windows at the back. -/
theorem enter (h : windows.Nested) (hprune : call.pruned? = none) (hreset : call ≠ .reset) :
    (windows.apply call).Nested := by
  intro kind
  rw [entries_apply windows hprune hreset, entries_apply windows hprune hreset]
  obtain ⟨older, holder⟩ := h kind
  exact ⟨older, by rw [← List.append_assoc, holder]⟩

/-- What has expired for the long window has expired for the short one. -/
theorem prune (h : windows.Nested) (framed : windows.Framed config)
    (spans : config.shortWindow ≤ config.longWindow) (seqNo : Nat) :
    (windows.apply (.prune seqNo)).Nested := by
  intro kind
  have hentries : ∀ span, (windows.apply (.prune seqNo)).entries kind span =
      (windows.entries kind span).dropWhile
        (((windows.get kind).get span).expired seqNo) := by
    intro span
    show (windows.prune seqNo).entries kind span = _
    rw [entries, get_prune, WindowPair.get_map]
    rfl
  rw [hentries, hentries]
  refine dropWhile_suffix_dropWhile (fun entry hexpired => ?_) (h kind)
  rw [Window.expired, decide_eq_true_eq, framed.reach] at hexpired ⊢
  have hlong : entry < seqNo - config.longWindow := hexpired
  show entry < seqNo - config.shortWindow
  omega

theorem apply (h : windows.Nested) (framed : windows.Framed config)
    (spans : config.shortWindow ≤ config.longWindow) (call : Call) :
    (windows.apply call).Nested := by
  cases call with
  | reset => exact reset windows
  | prune seqNo => exact h.prune framed spans seqNo
  | branch | indirect | call => exact h.enter rfl (by simp)

/-- After any calls, in whatever order their sequence numbers are. -/
theorem applyAll (spans : config.shortWindow ≤ config.longWindow) (calls : List Call) :
    ((Windows.ofConfig config).applyAll calls).Nested := by
  induction calls using List.reverseRecOn with
  | nil => exact ofConfig config
  | append_singleton calls call ih =>
    have hlast := ih.apply (.applyAll config calls) spans call
    rw [Windows.applyAll, List.foldl_concat]
    exact hlast

theorem count_le (h : windows.Nested) (kind : WindowKind) :
    windows.count kind .short ≤ windows.count kind .long := by
  rw [count_eq_length, count_eq_length]
  exact (h kind).length_le

end Nested

/-- The sizes of one span are the last of the distances between all block starts. -/
theorem Trails.sizes_suffix (h : windows.Trails calls) (span : Span) :
    windows.sizes span <:+ gaps 0 (blockStarts calls) := by
  obtain ⟨gone, hstarts, hsizes⟩ := h.spans span
  rw [hstarts, gaps_append, ← hsizes]
  exact List.suffix_append _ _

/-- If the short windows reach no further back than the long ones, then whatever calls have been
made, with sequence numbers in order or not, the entries of a short window are the last ones of the
long window of its kind, and the short queue of block sizes is the end of the long one. So no short
count exceeds its long counterpart, and neither does a knob that is a short count. -/
theorem nested_of_calls {config : WindowConfig} (spans : config.shortWindow ≤ config.longWindow)
    (calls : List Call) :
    let windows := (Windows.ofConfig config).applyAll calls
    (∀ kind, windows.entries kind .short <:+ windows.entries kind .long) ∧
    windows.sizes .short <:+ windows.sizes .long ∧
    (∀ kind, windows.count kind .short ≤ windows.count kind .long) ∧
    ∀ knobs : Knobs,
      (knobs.refresh windows.counts).indirectShort ≤
        (knobs.refresh windows.counts).indirectLong ∧
      (knobs.refresh windows.counts).longBranchShort ≤
        (knobs.refresh windows.counts).longBranchLong := by
  intro windows
  have hnested : windows.Nested := .applyAll spans calls
  have htrails : windows.Trails calls := .applyAll config calls
  have hlength : (windows.sizes .short).length ≤ (windows.sizes .long).length := by
    rw [htrails.length_sizes, htrails.length_sizes]
    exact hnested.count_le .blockStart
  exact ⟨hnested,
    List.suffix_of_suffix_length_le (htrails.sizes_suffix .short) (htrails.sizes_suffix .long)
      hlength,
    hnested.count_le,
    fun _ => ⟨hnested.count_le .indirect, hnested.count_le .longBranch⟩⟩

/-- Out of order, the long window spares its first entry and with it the one behind, which lies
further back than it reaches. The short window loses both. -/
theorem nested_of_calls_unsorted :
    let config : WindowConfig := ⟨100, 200, 512⟩
    let windows := (Windows.ofConfig config).applyAll
      [.branch 500 true 0 0, .branch 10 true 0 0, .branch 600 true 0 0, .prune 620]
    config.shortWindow ≤ config.longWindow ∧
      windows.entries .blockStart .short = [600] ∧
      windows.entries .blockStart .long = [500, 10, 600] ∧
      windows.entries .blockStart .short <:+ windows.entries .blockStart .long ∧
      windows.sizes .short <:+ windows.sizes .long := by
  intro config windows
  have hspans : config.shortWindow ≤ config.longWindow := by decide
  obtain ⟨hentries, hsizes, -, -⟩ := nested_of_calls hspans
    [.branch 500 true 0 0, .branch 10 true 0 0, .branch 600 true 0 0, .prune 620]
  exact ⟨hspans, by decide, by decide, hentries .blockStart, hsizes⟩

end Windows

end BranchSelector
