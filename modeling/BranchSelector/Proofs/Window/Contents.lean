import BranchSelector.Proofs.Window.Order
import BranchSelector.Window.Call
import Mathlib.Data.List.DropRight

/-!
# What the windows hold

Calls say which events have happened: those of a kind that were recorded since the last reset
(`Windows.events`). They also say how far back a window looks: to the sequence number of the last
pruning, less the reach of the window (`Windows.horizon`).

Pruning takes entries away from the front of a window up to the first that it spares. Nothing
behind that one is looked at. As long as the sequence numbers of the calls never decrease, the
entries of a window are in order, so that nothing is missed, and the horizon never moves back, so
that nothing was taken away that would be in view. Then a window holds exactly the events from
its horizon on (`Windows.entries_applyAll`).
-/

namespace BranchSelector

/-- How far back the windows of a configuration look. -/
def WindowConfig.reach (config : WindowConfig) : Span → Nat
  | .short => config.shortWindow
  | .long => config.longWindow

/-- From a list in order, what is taken away from the front is all that is too small. -/
theorem dropWhile_lt_eq_filter {entries : List Nat} (sorted : entries.Pairwise (· ≤ ·))
    (least : Nat) :
    entries.dropWhile (fun entry => decide (entry < least)) =
      entries.filter fun entry => decide (least ≤ entry) := by
  induction entries with
  | nil => rfl
  | cons entry entries ih =>
    obtain ⟨hle, hrest⟩ := List.pairwise_cons.1 sorted
    by_cases hentry : entry < least
    · rw [List.dropWhile_cons_of_pos (by simpa using hentry),
        List.filter_cons_of_neg (by simpa using hentry)]
      exact ih hrest
    · -- The first entry that is spared is the least of those that are left.
      have hspared : ∀ later ∈ entry :: entries, decide (least ≤ later) = true := by
        intro later hlater
        rw [decide_eq_true_eq]
        rcases List.mem_cons.1 hlater with rfl | hlater
        · omega
        · have hlater := hle later hlater
          omega
      rw [List.dropWhile_cons_of_neg (by simpa using hentry), List.filter_eq_self.2 hspared]

namespace Windows

/-! ## What the calls say -/

namespace Call

/-- The sequence number that a call is given. -/
def seqNo? : Call → Option Nat
  | .branch seqNo _ _ _ | .indirect seqNo | .call seqNo | .prune seqNo => some seqNo
  | .reset => none

/-- The sequence number that a call prunes for. -/
def pruned? : Call → Option Nat
  | .prune seqNo => some seqNo
  | .branch _ _ _ _ | .indirect _ | .call _ | .reset => none

/-- Whether a call records an event of a kind. Only a branch that opens a block and goes further
than some distance is long. -/
def records (distance : Nat) (kind : WindowKind) : Call → Bool
  | .branch _ opensBlock pc nextPc =>
    match kind with
    | .forward => decide (0 < displacement pc nextPc)
    | .backward => decide (displacement pc nextPc < 0)
    | .blockStart => opensBlock
    | .longBranch => opensBlock && decide (distance < (displacement pc nextPc).natAbs)
    | .indirect | .call => false
  | .indirect _ => kind == .indirect
  | .call _ => kind == .call
  | .prune _ | .reset => false

end Call

/-- The calls since the last reset. -/
def sinceReset (calls : List Call) : List Call :=
  calls.rtakeWhile (· != .reset)

/-- The sequence numbers of the events of a kind that were recorded since the last reset, in the
order of the calls. -/
def events (distance : Nat) (kind : WindowKind) (calls : List Call) : List Nat :=
  ((sinceReset calls).filter (Call.records distance kind)).filterMap Call.seqNo?

/-- The least sequence number in view of a window: that of the last pruning, less the reach of the
window. Before the first pruning everything is in view. -/
def horizon (reach : Nat) (calls : List Call) : Nat :=
  (calls.filterMap Call.pruned?).getLast?.elim 0 (· - reach)

variable {distance reach : Nat} {kind : WindowKind} {span : Span} {calls : List Call} {call : Call}

theorem events_concat (hreset : call ≠ .reset) :
    events distance kind (calls ++ [call]) = events distance kind calls ++
      if call.records distance kind then call.seqNo?.toList else [] := by
  have hsince : sinceReset (calls ++ [call]) = sinceReset calls ++ [call] :=
    List.rtakeWhile_concat_pos _ _ _ (by simpa using hreset)
  unfold events
  rw [hsince, List.filter_append, List.filterMap_append]
  congr 1
  by_cases hrecords : call.records distance kind = true
  · rw [if_pos hrecords, List.filter_cons_of_pos hrecords]
    cases call <;> rfl
  · rw [if_neg hrecords, List.filter_cons_of_neg hrecords]
    rfl

theorem events_concat_reset : events distance kind (calls ++ [.reset]) = [] := by
  have hsince : sinceReset (calls ++ [.reset]) = [] :=
    List.rtakeWhile_concat_neg _ _ _ (by simp)
  rw [events, hsince]
  rfl

theorem horizon_concat_prune (seqNo : Nat) :
    horizon reach (calls ++ [.prune seqNo]) = seqNo - reach := by
  rw [horizon, List.filterMap_append]
  show (calls.filterMap Call.pruned? ++ [seqNo]).getLast?.elim 0 _ = _
  rw [List.getLast?_concat]
  rfl

theorem horizon_concat (hprune : call.pruned? = none) :
    horizon reach (calls ++ [call]) = horizon reach calls := by
  rw [horizon, List.filterMap_append, List.filterMap_cons_none hprune, List.filterMap_nil,
    List.append_nil]
  rfl

/-- The sequence numbers of the events are among those of the calls, in the same order. -/
theorem events_sublist (distance : Nat) (kind : WindowKind) (calls : List Call) :
    (events distance kind calls).Sublist (calls.filterMap Call.seqNo?) :=
  (List.filter_sublist.trans (List.rtakeWhile_suffix _ _).sublist).filterMap _

/-- The horizon does not lie beyond that of a later pruning. -/
theorem horizon_le (reach : Nat) {seqNo : Nat}
    (hle : ∀ earlier ∈ calls.filterMap Call.seqNo?, earlier ≤ seqNo) :
    horizon reach calls ≤ seqNo - reach := by
  unfold horizon
  cases hlast : (calls.filterMap Call.pruned?).getLast? with
  | none => exact Nat.zero_le _
  | some pruned =>
    obtain ⟨call, hcall, hpruned⟩ := List.mem_filterMap.1 (List.mem_of_getLast? hlast)
    have hseqNo : call.seqNo? = some pruned := by
      cases call with
      | prune => exact hpruned
      | branch | indirect | call | reset => cases hpruned
    have hearlier := hle pruned (List.mem_filterMap.2 ⟨call, hcall, hseqNo⟩)
    exact Nat.sub_le_sub_right hearlier reach

/-! ## The frame of the windows -/

/-- Windows of a configuration, whatever they hold. -/
structure Framed (config : WindowConfig) (windows : Windows) : Prop where
  distance : windows.longBranchDistance = config.longBranchDistance
  reach : ∀ kind span, ((windows.get kind).get span).span = config.reach span

namespace Framed

variable {config : WindowConfig} {windows : Windows}

theorem ofConfig (config : WindowConfig) : (ofConfig config).Framed config where
  distance := rfl
  reach kind span := by cases kind <;> cases span <;> rfl

theorem record (h : windows.Framed config) (kind : WindowKind) (seqNo : Nat) :
    (windows.record kind seqNo).Framed config where
  distance := h.distance
  reach other span := by
    rw [get_record]
    split
    · rw [WindowPair.get_map]
      exact h.reach other span
    · exact h.reach other span

theorem recordBlock (h : windows.Framed config) (seqNo : Nat) :
    (windows.recordBlock seqNo).Framed config where
  distance := h.distance
  reach kind span := by
    have hreach := (h.record .blockStart seqNo).reach kind span
    cases kind <;> exact hreach

theorem recordDirection (h : windows.Framed config) (seqNo : Nat) (pc nextPc : UInt64) :
    (windows.recordDirection seqNo pc nextPc).Framed config := by
  unfold Windows.recordDirection
  split
  · exact h.record _ _
  · split
    · exact h.record _ _
    · exact h

theorem recordBranch (h : windows.Framed config) (seqNo : Nat) (opensBlock : Bool)
    (pc nextPc : UInt64) : (windows.recordBranch seqNo opensBlock pc nextPc).Framed config := by
  have hopened : (if opensBlock then windows.recordBlock seqNo else windows).Framed config := by
    split
    · exact h.recordBlock seqNo
    · exact h
  unfold Windows.recordBranch
  dsimp only
  split
  · exact (hopened.recordDirection seqNo pc nextPc).record _ _
  · exact hopened.recordDirection seqNo pc nextPc

theorem prune (h : windows.Framed config) (seqNo : Nat) : (windows.prune seqNo).Framed config where
  distance := h.distance
  reach kind span := by
    rw [get_prune, WindowPair.get_map]
    exact h.reach kind span

theorem reset (h : windows.Framed config) : windows.reset.Framed config where
  distance := h.distance
  reach kind span := by
    rw [get_reset, WindowPair.get_map]
    exact h.reach kind span

theorem apply (h : windows.Framed config) (call : Call) : (windows.apply call).Framed config := by
  cases call with
  | branch seqNo opensBlock pc nextPc => exact h.recordBranch seqNo opensBlock pc nextPc
  | indirect seqNo | call seqNo => exact h.record _ seqNo
  | prune seqNo => exact h.prune seqNo
  | reset => exact h.reset

end Framed

/-! ## What the windows hold -/

/-- A call that neither prunes nor resets enters what it records at the back. -/
theorem entries_apply (windows : Windows) (hprune : call.pruned? = none) (hreset : call ≠ .reset)
    (kind : WindowKind) (span : Span) :
    (windows.apply call).entries kind span = windows.entries kind span ++
      if call.records windows.longBranchDistance kind then call.seqNo?.toList else [] := by
  cases call with
  | branch seqNo opensBlock pc nextPc =>
    show (windows.recordBranch seqNo opensBlock pc nextPc).entries kind span = _
    unfold recordBranch Call.records
    dsimp only
    -- No two of the events that one branch may be are of the same kind.
    cases opensBlock <;> split <;> cases kind <;>
      simp_all [entries_record, entries_recordDirection, entries_recordBlock, Call.seqNo?]
  | indirect seqNo | call seqNo =>
    show (windows.record _ seqNo).entries kind span = _
    rw [entries_record]
    cases kind <;> simp [Call.records, Call.seqNo?]
  | prune seqNo => cases hprune
  | reset => exact absurd rfl hreset

/-- What is not in view of a call that prunes goes out of the windows. -/
theorem entries_prune_of_sorted (windows : Windows) (seqNo : Nat) {kind : WindowKind} {span : Span}
    (sorted : (windows.entries kind span).Pairwise (· ≤ ·)) :
    (windows.prune seqNo).entries kind span = (windows.entries kind span).filter fun entry =>
      decide (seqNo - ((windows.get kind).get span).span ≤ entry) := by
  rw [← dropWhile_lt_eq_filter sorted, entries, get_prune, WindowPair.get_map]
  rfl

/-- The windows hold the events in view of some calls. -/
structure Views (config : WindowConfig) (calls : List Call) (windows : Windows) : Prop where
  framed : windows.Framed config
  entries : ∀ kind span, windows.entries kind span =
    (events config.longBranchDistance kind calls).filter fun seqNo =>
      decide (horizon (config.reach span) calls ≤ seqNo)

namespace Views

variable {config : WindowConfig} {windows : Windows}

/-- Before the first call nothing has happened. -/
theorem ofConfig (config : WindowConfig) : (ofConfig config).Views config [] where
  framed := .ofConfig config
  entries kind span := entries_ofConfig config kind span

theorem reset (h : windows.Views config calls) :
    (windows.apply .reset).Views config (calls ++ [.reset]) where
  framed := h.framed.reset
  entries kind span := by
    rw [events_concat_reset]
    exact entries_reset windows kind span

/-- What is recorded is in view, as it is not earlier than the last pruning. -/
theorem enter (h : windows.Views config calls) (hprune : call.pruned? = none)
    (hreset : call ≠ .reset)
    (hle : ∀ seqNo, call.seqNo? = some seqNo →
      ∀ earlier ∈ calls.filterMap Call.seqNo?, earlier ≤ seqNo) :
    (windows.apply call).Views config (calls ++ [call]) where
  framed := h.framed.apply call
  entries kind span := by
    have hview : ∀ seqNo ∈ (if call.records config.longBranchDistance kind then
        call.seqNo?.toList else []), decide (horizon (config.reach span) calls ≤ seqNo) = true := by
      intro seqNo hseqNo
      split at hseqNo
      · have hlater := hle seqNo (Option.mem_toList.1 hseqNo)
        exact decide_eq_true (Nat.le_trans (horizon_le _ hlater) (Nat.sub_le seqNo _))
      · cases hseqNo
    rw [entries_apply windows hprune hreset, h.framed.distance, h.entries, events_concat hreset,
      horizon_concat hprune, List.filter_append, List.filter_eq_self.2 hview]

/-- What pruning leaves is what was in view before and still is. -/
theorem prune (h : windows.Views config calls)
    (hcalls : (calls.filterMap Call.seqNo?).Pairwise (· ≤ ·)) {seqNo : Nat}
    (hle : ∀ earlier ∈ calls.filterMap Call.seqNo?, earlier ≤ seqNo) :
    (windows.apply (.prune seqNo)).Views config (calls ++ [.prune seqNo]) where
  framed := h.framed.prune seqNo
  entries kind span := by
    have hevents := hcalls.sublist (events_sublist config.longBranchDistance kind calls)
    have hsorted : (windows.entries kind span).Pairwise (· ≤ ·) := by
      rw [h.entries]
      exact hevents.sublist List.filter_sublist
    have hhorizon := horizon_le (config.reach span) hle
    have hnone : (Call.prune seqNo).records config.longBranchDistance kind = false := rfl
    rw [events_concat (by simp), hnone, horizon_concat_prune]
    show (windows.prune seqNo).entries kind span = _
    rw [entries_prune_of_sorted windows seqNo hsorted, h.framed.reach, h.entries,
      List.filter_filter]
    simp only [Bool.false_eq_true, if_false, List.append_nil]
    refine List.filter_congr fun entry _ => ?_
    rw [Bool.and_eq_left_iff_imp, decide_eq_true_eq, decide_eq_true_eq]
    omega

/-- A call keeps the events in view, if none before it was given a later sequence number. -/
theorem apply (h : windows.Views config calls)
    (ordered : ((calls ++ [call]).filterMap Call.seqNo?).Pairwise (· ≤ ·)) :
    (windows.apply call).Views config (calls ++ [call]) := by
  rw [List.filterMap_append, List.pairwise_append] at ordered
  obtain ⟨hcalls, -, hlater⟩ := ordered
  have hle : ∀ seqNo, call.seqNo? = some seqNo →
      ∀ earlier ∈ calls.filterMap Call.seqNo?, earlier ≤ seqNo := by
    intro seqNo hseqNo earlier hearlier
    exact hlater earlier hearlier seqNo
      (List.mem_filterMap.2 ⟨call, List.mem_singleton_self call, hseqNo⟩)
  cases call with
  | reset => exact h.reset
  | prune seqNo => exact h.prune hcalls (hle seqNo rfl)
  | branch | indirect | call => exact h.enter rfl (by simp) hle

/-- After any calls in order of their sequence numbers, the windows hold the events in view. -/
theorem applyAll (config : WindowConfig) {calls : List Call}
    (ordered : (calls.filterMap Call.seqNo?).Pairwise (· ≤ ·)) :
    ((Windows.ofConfig config).applyAll calls).Views config calls := by
  induction calls using List.reverseRecOn with
  | nil => exact ofConfig config
  | append_singleton calls call ih =>
    have hcalls := ordered.sublist ((List.sublist_append_left calls [call]).filterMap _)
    have hlast := (ih hcalls).apply ordered
    rw [Windows.applyAll, List.foldl_concat]
    exact hlast

end Views

end Windows

end BranchSelector
