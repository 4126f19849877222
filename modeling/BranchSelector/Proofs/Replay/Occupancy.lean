import BranchSelector.Proofs.Replay.Lookback
import Mathlib.Data.List.Perm.Subperm

/-!
# How full the windows get

A window of a replay holds the records of its kind that are in view of the last one, and these lie
no further back than the window reaches (`Replay.le_lookback_start`). So their sequence numbers are
few. Branches with valid keys in program order have a place each, of which there are sixteen for a
sequence number (`Branch.Before.place_lt`). Those that open a block are the first of their sequence
number, and have one for themselves. So there is room for few branches in view, however long the
trace is (`Branch.Ordered.length_le`, `Branch.Ordered.length_le_of_opensBlock`), and the windows
stay small (`Replay.occupancy_of_run`).
-/

namespace BranchSelector

/-- Increasing numbers within a range are no more than the range has. -/
theorem length_le_of_increasing {numbers : List Nat} (least : Nat) {size : Nat}
    (increasing : numbers.Pairwise (· < ·))
    (inside : ∀ n ∈ numbers, least ≤ n ∧ n < least + size) : numbers.length ≤ size := by
  have hdistinct : numbers.Nodup := increasing.imp Nat.ne_of_lt
  have hrange : numbers ⊆ List.range' least size := fun n hn => List.mem_range'_1.2 (inside n hn)
  have hlength := (List.subperm_of_subset hdistinct hrange).length_le
  rwa [List.length_range'] at hlength

namespace Branch

variable {a b : Branch} {branches : List Branch} {n : Nat}

/-- Where a branch stands in program order, with sixteen places for a sequence number. -/
def place (branch : Branch) : Nat :=
  16 * branch.seqNo.toNat + branch.piece.toNat

theorem Before.place_lt (h : a.Before b) (ha : a.piece.toNat < 16) : a.place < b.place := by
  unfold place
  rcases h with hseq | ⟨hseq, hpiece⟩
  · have hlt := UInt64.lt_iff_toNat_lt.1 hseq
    omega
  · have hlt := UInt8.lt_iff_toNat_lt.1 hpiece
    rw [hseq]
    omega

/-- Of two branches that open a block the earlier one has the smaller sequence number. -/
theorem Before.seqNo_lt (h : a.Before b) (ha : a.opensBlock = true) (hb : b.opensBlock = true) :
    a.seqNo.toNat < b.seqNo.toNat := by
  rcases h with hseq | ⟨-, hpiece⟩
  · exact UInt64.lt_iff_toNat_lt.1 hseq
  · rw [beq_iff_eq.1 ha, beq_iff_eq.1 hb] at hpiece
    exact absurd hpiece (UInt8.lt_irrefl 0)

/-- Sixteen branches have room in each of some sequence numbers in a row. -/
theorem Ordered.length_le (ordered : Ordered branches) (least : Nat)
    (inside : ∀ branch ∈ branches,
      least ≤ branch.seqNo.toNat ∧ branch.seqNo.toNat ≤ least + n) :
    branches.length ≤ 16 * (n + 1) := by
  have hincreasing : (branches.map place).Pairwise (· < ·) := by
    rw [List.pairwise_map]
    exact ordered.increasing.imp_of_mem fun ha _ hbefore =>
      hbefore.place_lt (ordered.pieces _ ha)
  rw [← List.length_map (f := place)]
  refine length_le_of_increasing (16 * least) hincreasing fun number hnumber => ?_
  obtain ⟨branch, hbranch, rfl⟩ := List.mem_map.1 hnumber
  have hseq := inside branch hbranch
  have hpiece := ordered.pieces branch hbranch
  unfold place
  omega

/-- One branch that opens a block has room in each of some sequence numbers in a row. -/
theorem Ordered.length_le_of_opensBlock (ordered : Ordered branches)
    (opens : ∀ branch ∈ branches, branch.opensBlock = true) (least : Nat)
    (inside : ∀ branch ∈ branches,
      least ≤ branch.seqNo.toNat ∧ branch.seqNo.toNat ≤ least + n) :
    branches.length ≤ n + 1 := by
  have hincreasing : (branches.map fun branch => branch.seqNo.toNat).Pairwise (· < ·) := by
    rw [List.pairwise_map]
    exact ordered.increasing.imp_of_mem fun ha hb hbefore =>
      hbefore.seqNo_lt (opens _ ha) (opens _ hb)
  rw [← List.length_map (f := fun branch : Branch => branch.seqNo.toNat)]
  refine length_le_of_increasing least hincreasing fun number hnumber => ?_
  obtain ⟨branch, hbranch, rfl⟩ := List.mem_map.1 hnumber
  have hseq := inside branch hbranch
  omega

end Branch

namespace Replay

open Branch

variable {config : WindowConfig} {kind : WindowKind} {done : List Branch}

/-- No record lies further ahead of where a look back starts than the window reaches. -/
theorem le_lookback_start (reach : Nat) (ordered : Ordered done) {branch : Branch}
    (hbranch : branch ∈ done) :
    branch.seqNo.toNat ≤ done.getLast?.elim 0 (·.seqNo.toNat - reach) + reach := by
  obtain rfl | ⟨front, last, rfl⟩ := done.eq_nil_or_concat'
  · cases hbranch
  · have hle : branch.seqNo.toNat ≤ last.seqNo.toNat := by
      rcases List.mem_append.1 hbranch with hfront | hlast
      · have hbefore := (List.pairwise_append.1 ordered.increasing).2.2
        exact (hbefore branch hfront last (List.mem_singleton_self _)).seqNo_le
      · exact Nat.le_of_eq (congrArg (·.seqNo.toNat) (List.mem_singleton.1 hlast))
    rw [List.getLast?_concat]
    show _ ≤ last.seqNo.toNat - reach + reach
    omega

/-- A look back finds no more branches than have room as far back as the window reaches. -/
theorem lookback_le (config : WindowConfig) (kind : WindowKind) (span : Span)
    (ordered : Ordered done) : lookback config kind span done ≤ 16 * (config.reach span + 1) := by
  rw [lookback, List.countP_eq_length_filter]
  refine (ordered.sublist List.filter_sublist).length_le
    (done.getLast?.elim 0 (·.seqNo.toNat - config.reach span)) fun branch hbranch => ?_
  obtain ⟨hdone, hview⟩ := List.mem_filter.1 hbranch
  exact ⟨of_decide_eq_true (Bool.and_eq_true_iff.1 hview).2,
    le_lookback_start (config.reach span) ordered hdone⟩

/-- Of the kinds that only a branch that opens a block has, a look back finds fewer. -/
theorem lookback_le_of_opensBlock
    (opens : ∀ branch, (Windows.ofConfig config).logs branch kind = true →
      branch.opensBlock = true)
    (span : Span) (ordered : Ordered done) :
    lookback config kind span done ≤ config.reach span + 1 := by
  rw [lookback, List.countP_eq_length_filter]
  refine (ordered.sublist List.filter_sublist).length_le_of_opensBlock
    (fun branch hbranch => ?_) (done.getLast?.elim 0 (·.seqNo.toNat - config.reach span))
    fun branch hbranch => ?_
  · exact opens branch (Bool.and_eq_true_iff.1 (List.mem_filter.1 hbranch).2).1
  · obtain ⟨hdone, hview⟩ := List.mem_filter.1 hbranch
    exact ⟨of_decide_eq_true (Bool.and_eq_true_iff.1 hview).2,
      le_lookback_start (config.reach span) ordered hdone⟩

variable {β : Type} [Baseline β]

/-- Wherever a replay may be found, its windows count what a look back finds. -/
theorem Reaches.count_eq_lookback {C : Baseline.Contract β} {config : Config} {baseline : β}
    {delay : Nat} {settled : List Resolution} {r : Replay β}
    (h : Reaches (start (Selector.ofConfig config baseline) delay) done settled r)
    (ordered : Ordered done) (hs : (Selector.ofConfig config baseline).setup.Coherent C)
    (kind : WindowKind) (span : Span) :
    r.selector.windows.count kind span = lookback config.windows kind span done := by
  have hfront := congrArg Front.windows (h.front_eq ordered hs)
  rw [windows_foldl_feed] at hfront
  rw [show r.selector.windows = _ from hfront]
  exact Replay.count_eq_lookback config.windows ordered kind span

/-- Around any predictor and with any delay, feeding the front part of records in order is stopped
by nothing but a refusal of the predictor. If it is not stopped, then however many records there
were, a window that reaches back `n` sequence numbers holds at most sixteen entries for each of the
`n + 1` sequence numbers in its view, and at most one if it is a window of block starts or of long
branches. -/
theorem occupancy_of_run {config : Config} {baseline : β} {s : Selector β} {records : List Branch}
    (created : Selector.create config baseline = .ok s) (ordered : Ordered records) (delay : Nat)
    {done : List Branch} (fed : done <+: records) :
    Ends ((start s delay).run done)
      (fun answer => ∀ span,
        let windows := answer.2.selector.windows
        let n := config.windows.reach span
        windows.count .blockStart span ≤ n + 1 ∧
        windows.count .longBranch span ≤ n + 1 ∧
        windows.count .indirect span ≤ 16 * (n + 1) ∧
        windows.count .call span ≤ 16 * (n + 1) ∧
        windows.count .forward span ≤ 16 * (n + 1) ∧
        windows.count .backward span ≤ 16 * (n + 1))
      (Baseline.Refuses β) := by
  obtain ⟨valid, rfl⟩ := Selector.create_eq_ok created
  have hs : (Selector.ofConfig config baseline).setup.Coherent (Baseline.anyContract β) :=
    (Selector.coherent_ofConfig valid trivial).setup
  have hdone := ordered.sublist fed.sublist
  refine (Reaches.refl.run_ends hs hdone (Nat.zero_le delay)).mono fun answer hanswer span => ?_
  have hcount : ∀ kind, answer.2.selector.windows.count kind span =
      lookback config.windows kind span done :=
    fun kind => hanswer.1.count_eq_lookback hdone hs kind span
  have hlong : ∀ branch, (Windows.ofConfig config.windows).logs branch .longBranch = true →
      branch.opensBlock = true := fun branch hlogs => (Bool.and_eq_true_iff.1 hlogs).1
  have hany := fun kind => lookback_le config.windows kind span hdone
  simp only [hcount]
  exact ⟨lookback_le_of_opensBlock (fun _ => id) span hdone,
    lookback_le_of_opensBlock hlong span hdone, hany .indirect, hany .call, hany .forward,
    hany .backward⟩

/-- Three block starts are in view of the last record, which is as many as there is room for. A
second branch of the first instruction goes forward as well. -/
theorem occupancy_of_run_shortTrace :
    let config : Config := { windows := { shortWindow := 2, longWindow := 2 } }
    Selector.create config (Gshare.fresh 4) = .ok (Selector.ofConfig config (Gshare.fresh 4)) ∧
      Ordered shortTrace ∧ shortTrace <+: shortTrace ∧
      ∃ feds r, (start (Selector.ofConfig config (Gshare.fresh 4)) 1).run shortTrace =
          .ok (feds, r) ∧
        r.selector.windows.count .blockStart .short = 3 ∧
        r.selector.windows.count .blockStart .short ≤ 2 + 1 ∧
        r.selector.windows.count .forward .short = 4 ∧
        r.selector.windows.count .forward .short ≤ 16 * (2 + 1) := by
  intro config
  have hcreated : Selector.create config (Gshare.fresh 4) =
    .ok (Selector.ofConfig config (Gshare.fresh 4)) := rfl
  have hprefix := List.prefix_refl shortTrace
  obtain ⟨⟨feds, r⟩, hrun, hcounts⟩ := map_eq_ok_iff.1
    (show ((start (Selector.ofConfig config (Gshare.fresh 4)) 1).run shortTrace).map (fun answer =>
        (answer.2.selector.windows.count .blockStart .short,
          answer.2.selector.windows.count .forward .short)) = .ok (3, 4) by decide +kernel)
  obtain ⟨hblocks, hforward⟩ := Prod.mk.inj hcounts
  have hbounds := (occupancy_of_run hcreated ordered_shortTrace 1 hprefix).of_ok hrun
  obtain ⟨hblocksLe, -, -, -, hforwardLe, -⟩ := hbounds .short
  exact ⟨hcreated, ordered_shortTrace, hprefix, feds, r, hrun, hblocks, hblocksLe, hforward,
    hforwardLe⟩

end Replay

end BranchSelector
