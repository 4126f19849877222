import BranchSelector.Proofs.Replay.Account
import BranchSelector.Proofs.Selector.History

/-!
# A replay completes

From the bytes of a trace to the statistics: a trace that is read is in order, so a replay of it
is stopped by nothing but the baseline, and gshare does not stop it. In the end no branch is in
flight, neither predictor keeps a checkpoint, and the accounts are balanced (`finish_of_parse`).

The moves of a replay are made of hooks, so what every hook keeps holds wherever a replay may be
found (`Reaches.of_steps`). This is how votes, counters and windows stay within what the selector
relies on.
-/

namespace BranchSelector

open Branch

/-- A resolution tells nothing that a host should look into. -/
theorem Resolution.level_ne_warn {resolution : Resolution} {event : Event}
    (h : event ∈ resolution.events) : event.level ≠ .warn := by
  unfold events Training.events at h
  rcases List.mem_append.1 h with htraining | hresolve
  · rcases List.mem_append.1 htraining with hchange | hupdate
    · split at hchange
      · exact List.mem_singleton.1 hchange ▸ nofun
      · exact List.mem_singleton.1 hchange ▸ nofun
      · cases hchange
    · exact List.mem_singleton.1 hupdate ▸ nofun
  · exact List.mem_singleton.1 hresolve ▸ nofun

/-- The end of a run warns of branches that have not resolved, and of nothing else. -/
theorem Selector.level_endEvents_ne_warn {β : Type} {s : Selector β} (hflight : s.inFlight = ∅)
    (hcheckpoints : s.correlator.checkpoints = ∅) {event : Event} (h : event ∈ s.endEvents) :
    event.level ≠ .warn := by
  have hnone : s.inFlight.isEmpty ∧ s.correlator.liveCheckpoints = 0 := by
    rw [Correlator.liveCheckpoints, hflight, hcheckpoints]
    exact ⟨Std.ExtTreeMap.isEmpty_empty, Std.ExtTreeMap.size_empty⟩
  unfold endEvents at h
  rw [if_pos hnone] at h
  exact List.mem_singleton.1 h ▸ nofun

namespace Replay

section Steps

variable {β : Type} [Baseline β] {C : Baseline.Contract β} {s : Selector β} {delay : Nat}
  {done : List Branch} {settled : List Resolution} {r : Replay β}

/-- What every hook keeps holds wherever a replay may be found. No hook of it fetches a branch
that is not among the records so far. -/
theorem Reaches.of_steps {P : Selector β → Prop}
    (h : Reaches (start s delay) done settled r) (ordered : Ordered done)
    (hs : s.setup.Coherent C) (hstart : P s.setup)
    (keeps : ∀ {t t' : Selector β} {hook : Hook} {outcome : Outcome}, t.Coherent C →
      t.Step hook outcome t' →
      (∀ seqNo ∈ hook.fetchedSeqNo?, ∃ branch ∈ done, branch.seqNo.toNat = seqNo) →
        P t → P t') :
    P r.selector := by
  refine (h.induction (P := fun before _ r => before ⊆ done → P r.selector) ordered hs
    (fun _ => hstart) ?_ ?_ ?_).2 (List.Subset.refl done)
  · -- A launch is two hooks, a prediction and a fetch.
    intro before settled r branch queued ordered _ _ ih hbefore
    have hkey := key_eq_ok (ordered.pieces branch (by simp))
    have hbranch : branch ∈ done := hbefore (by simp)
    have hpredict : r.selector.Step (.predict branch.seqNo branch.piece branch.pc) _ _ :=
      .predict hkey (queued.idle ordered)
    have hpredicted := keeps queued.coherent hpredict (fun _ hnone => nomatch hnone)
      (ih (List.Subset.trans (List.subset_append_left _ _) hbefore))
    refine keeps (hpredict.coherent queued.coherent) (.fetch hkey) ?_ hpredicted
    exact fun seqNo hseqNo => ⟨branch, hbranch, Option.some.inj hseqNo⟩
  · intro before settled r branch queued ordered _ ih hbefore
    have hkey := key_eq_ok (ordered.pieces branch (by simp))
    have hbranch : branch ∈ done := hbefore (by simp)
    refine keeps queued.coherent (.fetch hkey) ?_
      (ih (List.Subset.trans (List.subset_append_left _ _) hbefore))
    exact fun seqNo hseqNo => ⟨branch, hbranch, Option.some.inj hseqNo⟩
  · intro before settled r p ps provider tags baseline queued ordered hretires ih hbefore
    have hmem : p ∈ r.pending := hretires.pending ▸ List.mem_cons_self
    have hkey := key_eq_ok (ordered.pieces _ (queued.mem_done hmem))
    exact keeps queued.coherent
      (.resolve hkey hretires.provider hretires.tags hretires.consumed)
      (fun _ hnone => nomatch hnone) (ih hbefore)

/-- Votes and the training counter fit into their words. -/
theorem Reaches.fits (h : Reaches (start s delay) done settled r) (ordered : Ordered done)
    (hs : s.setup.Coherent C) (valid : s.config.Valid)
    (range : s.setup.correlator.InRange) : r.selector.correlator.Fits := by
  obtain ⟨hconfig, hrange⟩ := h.of_steps
    (P := fun t => t.config = s.config ∧ t.correlator.InRange) ordered hs ⟨rfl, range⟩
    fun hcoherent hstep _ ⟨hconfig, hrange⟩ =>
      ⟨hstep.config_eq.trans hconfig, hstep.inRange hcoherent (hconfig ▸ valid) hrange⟩
  have hsound := (h.queued ordered hs).coherent.correlator
  rw [hconfig] at hsound
  exact hrange.fits hsound valid.counterBits.2 valid.trainingCounterBits.2

/-- The next record meets what is expected of the windows at its fetch. -/
theorem Reaches.fetchChecks (h : Reaches (start s delay) done settled r)
    (hs : s.setup.Coherent C) {branch : Branch} (ordered : Ordered (done ++ [branch])) :
    Selector.FetchChecks r.selector.windows branch := by
  have hbefore := ordered.sublist (List.sublist_append_left done [branch])
  refine Selector.fetchChecks_of_orderly (h.of_steps
    (P := fun t => t.windows.Orderly branch.seqNo.toNat) hbefore hs
    (.reset s.windows _) fun _ hstep hfetched horderly => hstep.orderly horderly ?_)
  intro seqNo hseqNo
  obtain ⟨earlier, hearlier, rfl⟩ := hfetched seqNo hseqNo
  have hlater := (List.pairwise_append.1 ordered.increasing).2.2 earlier hearlier branch
    (List.mem_singleton_self _)
  exact hlater.seqNo_le

end Steps

/-- What finishing a replay tells warns of nothing once no branch waits. -/
theorem level_finish_ne_warn {resolutions : List Resolution} {complete event : Event}
    {β : Type} {s : Selector β} (hcomplete : complete.level ≠ .warn) (hflight : s.inFlight = ∅)
    (hcheckpoints : s.correlator.checkpoints = ∅)
    (h : event ∈ resolutions.flatMap Resolution.events ++ complete :: s.endEvents) :
    event.level ≠ .warn := by
  rcases List.mem_append.1 h with hresolved | hend
  · obtain ⟨resolution, -, hevent⟩ := List.mem_flatMap.1 hresolved
    exact resolution.level_ne_warn hevent
  · rcases List.mem_cons.1 hend with rfl | hend
    · exact hcomplete
    · exact Selector.level_endEvents_ne_warn hflight hcheckpoints hend

/-- From the bytes of a trace to the statistics, around gshare of any size and with any delay.
Running and finishing give an answer. At the end no branch is in flight, neither predictor
keeps a checkpoint and nothing is warned of; each provider has as many predictions as it has
resolutions, and both together have as many as there are conditional records. Wherever the
replay may be found before, what the selector relies on without checking it is the case, with
no count above the number of records. -/
theorem finish_of_parse {bytes : List UInt8} {records : List Branch} {config : Config} {bits : Nat}
    {g : Gshare bits} {s : Selector (Gshare bits)} (parsed : Trace.parse bytes = .ok records)
    (created : Selector.create config g = .ok s) (delay : Nat) :
    (∃ feds r resolutions drained stats g' events,
      (start s delay).run records = .ok (feds, r) ∧
      r.drain = .ok (resolutions, drained) ∧
      r.finish = .ok (stats, g', events) ∧
      drained.selector.inFlight = ∅ ∧
      drained.selector.correlator.checkpoints = ∅ ∧
      drained.selector.baseline.checkpoints = ∅ ∧
      (∀ event ∈ events, event.level ≠ .warn) ∧
      stats = drained.selector.stats ∧
      stats.fromCorrelator = stats.correlatorRight + stats.correlatorWrong ∧
      stats.fromBaseline = stats.baselineRight + stats.baselineWrong ∧
      stats.fromCorrelator + stats.fromBaseline =
        records.countP fun branch => decide (branch.kind = .condBranch)) ∧
    ∀ done settled r, Reaches (start s delay) done settled r → done <+: records →
      r.selector.correlator.Fits ∧
      r.selector.CountsLe records.length ∧
      ∀ branch, done ++ [branch] <+: records →
        Selector.FetchChecks r.selector.windows branch := by
  have ordered := Trace.ordered_of_parse parsed
  obtain ⟨valid, rfl⟩ := Selector.create_eq_ok created
  have hs := Selector.coherent_setup_gshare valid g
  constructor
  · -- Gshare refuses nothing, so neither running nor draining can be stopped.
    obtain ⟨⟨feds, r⟩, hrun, hreaches, -⟩ :=
      (Reaches.refl.run_ends hs ordered (Nat.zero_le delay)).exists_ok
    obtain ⟨⟨resolutions, drained⟩, hdrain, hdrained, hpending⟩ :=
      (hreaches.drain_ends ordered hs).exists_ok
    have queued := hdrained.queued ordered hs
    have accounted := hdrained.accounted ordered hs
    obtain ⟨hflight, hcheckpoints⟩ := queued.eq_empty hpending
    -- Gshare serves exactly the branches in flight, of which there are none.
    have hgshare : drained.selector.baseline.checkpoints = ∅ :=
      Std.ExtTreeMap.eq_empty_iff_forall_not_mem.2 fun key hkept => by
        have hlive : key ∈ drained.selector.inFlight := (queued.coherent.baseline key).1 hkept
        rw [hflight] at hlive
        exact Std.ExtTreeMap.not_mem_empty hlive
    have hnone (provider : Provider) : drained.waiting provider (fun _ => true) = 0 := by
      rw [waiting, hpending]
      rfl
    have hcorrelator := accounted.each .correlator
    have hbaseline := accounted.each .baseline
    rw [hnone, Nat.add_zero] at hcorrelator hbaseline
    have hcomplete : Level.debug ≠ .warn := by decide
    refine ⟨feds, r, resolutions, drained, _, _, _, hrun, hdrain, finish_eq hdrain, hflight,
      hcheckpoints, hgshare, fun event => level_finish_ne_warn hcomplete hflight hcheckpoints, rfl,
      hcorrelator, hbaseline, accounted.total.trans (List.countP_congr fun branch _ => ?_)⟩
    cases branch.kind <;> decide
  · -- The front parts of the records are in order too.
    intro done settled r hreaches hprefix
    have hdone := ordered.sublist hprefix.sublist
    have hrange : (Selector.ofConfig config g).setup.correlator.InRange := by
      show (Correlator.ofConfig config.correlator).reset.InRange
      rw [Correlator.reset_ofConfig]
      exact Correlator.inRange_ofConfig valid.trainingCounterBits.1
    refine ⟨hreaches.fits hdone hs valid hrange, ?_, fun branch hnext => ?_⟩
    · exact (hreaches.accounted hdone hs).countsLe.mono hprefix.length_le
    · exact hreaches.fetchChecks hs (ordered.sublist hnext.sublist)

/-- A trace of two conditional branches, the second of them not taken. -/
def twoLines : String :=
  "\x7b\"seq_no\":1,\"pc\":64,\"class\":\"cond_branch\",\"taken\":true,\"next_pc\":128\x7d\n" ++
  "\x7b\"seq_no\":2,\"pc\":128,\"class\":\"cond_branch\",\"taken\":false,\"next_pc\":132\x7d\n"

/-- Two lines give two records, and a delay of two keeps both waiting until the replay is
finished. -/
theorem finish_of_parse_twoLines :
    ∃ records feds r stats g events,
      Trace.parse twoLines.toByteArray.toList = .ok records ∧
      (start (Selector.ofConfig {} (Gshare.fresh 4)) 2).run records = .ok (feds, r) ∧
      r.finish = .ok (stats, g, events) ∧
      stats.fromCorrelator + stats.fromBaseline =
        records.countP fun branch => decide (branch.kind = .condBranch) := by
  obtain ⟨records, hparsed⟩ := exists_eq_ok_of_isOk
    (by decide +kernel : (Trace.parse twoLines.toByteArray.toList).isOk = true)
  have hcreated : Selector.create {} (Gshare.fresh 4) =
    .ok (Selector.ofConfig {} (Gshare.fresh 4)) := rfl
  obtain ⟨⟨feds, r, _, _, stats, g, events, hrun, _, hfinish, _, _, _, _, _, _, _, htotal⟩, _⟩ :=
    finish_of_parse hparsed hcreated 2
  exact ⟨records, feds, r, stats, g, events, hparsed, hrun, hfinish, htotal⟩

end Replay

end BranchSelector
