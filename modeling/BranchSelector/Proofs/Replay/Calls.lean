import BranchSelector.Proofs.Baseline.Protocol
import BranchSelector.Proofs.Replay.Run
import BranchSelector.Proofs.Selector.Routing

/-!
# Calls of a replay

Around a recorded predictor a replay leaves a list of calls behind. A launch adds the calls of
a predicted record, a pass those of any other record, and a retirement adds the call that
consumes the branch, which the filter chooses. As the oldest branch is always the one to retire,
the calls are a dialogue at every moment (`Reaches.observed`) and observe the protocol in the
end (`protocol_of_run`).
-/

namespace BranchSelector

open Branch Baseline

variable {β : Type} [Baseline β]

/-- A recorded predictor keeps the call that consumes a branch. -/
theorem Selector.exists_call_of_consume {s : Selector (Recorded β)} {branch : Branch}
    {direction : Bool} {baseline : Recorded β}
    (h : s.consume branch.ident branch.pc direction branch.taken branch.nextPc = .ok baseline) :
    ∃ call, BaselineCall.Consumes branch direction call ∧
      baseline.calls = s.baseline.calls ++ [call] := by
  refine ⟨_, ?_, calls_of_consume h⟩
  unfold consumingCall
  split
  · exact .trained
  · exact .discarded

namespace Replay

variable {C : Contract (Recorded β)} {fetched : List (Branch × Option Prediction)}
  {settled : List Resolution} {r : Replay (Recorded β)} {branch : Branch}

/-- The calls after the setup are those of a dialogue, in which the branches that wait have
still to be consumed. -/
def Observed (fetched : List (Branch × Option Prediction)) (r : Replay (Recorded β)) : Prop :=
  ∃ past waiting calls, Dialogue fetched past waiting calls ∧
    r.pending = waiting.map (fun entry => ⟨entry.1, entry.2.direction⟩) ∧
    r.selector.baseline.calls = .setup :: calls

/-! ## Moves -/

theorem calls_launched (hkind : branch.kind.isConditional = true) :
    (r.launched branch).selector.baseline.calls = r.selector.baseline.calls ++
      fetchCalls branch (some (r.selector.prediction branch.ident branch.pc)) := by
  show (Selector.fetchBaseline (Baseline.predict r.selector.baseline branch.ident branch.pc).2
    branch branch.ident _).calls = _
  rw [Selector.fetchBaseline, if_pos hkind]
  show ((r.selector.baseline.after _ _).after _ _).calls = _
  rw [Recorded.calls_after, Recorded.calls_after, List.append_assoc]
  rfl

theorem calls_passed (hkind : branch.kind.isConditional = false) :
    (r.passed branch).selector.baseline.calls =
      r.selector.baseline.calls ++ fetchCalls branch none := by
  show (Selector.fetchBaseline r.selector.baseline branch branch.ident true).calls = _
  rw [Selector.fetchBaseline, if_neg (Bool.eq_false_iff.1 hkind)]
  exact r.selector.baseline.calls_after _ _

/-- The key of a new record is not that of an earlier one. -/
theorem fresh_of_ordered (ordered : Ordered (fetched.map Prod.fst ++ [branch])) :
    branch.ident ∉ fetched.map fun entry => entry.1.ident := by
  intro hmem
  obtain ⟨entry, hentry, hsame⟩ := List.mem_map.1 hmem
  exact ordered.ident_ne (List.mem_map_of_mem hentry) hsame

theorem Observed.launched (h : Observed fetched r)
    (ordered : Ordered (fetched.map Prod.fst ++ [branch]))
    (hkind : branch.kind.isConditional = true) :
    Observed (fetched ++ [(branch, some (r.selector.prediction branch.ident branch.pc))])
      (r.launched branch) := by
  obtain ⟨past, waiting, calls, hdialogue, hpending, hcalls⟩ := h
  refine ⟨past, _, _, hdialogue.fetch (fresh_of_ordered ordered) hkind.symm, ?_, ?_⟩
  · show r.pending ++ [_] = _
    rw [hpending, List.map_append]
    rfl
  · rw [calls_launched hkind, hcalls, List.cons_append]

theorem Observed.passed (h : Observed fetched r)
    (ordered : Ordered (fetched.map Prod.fst ++ [branch]))
    (hkind : branch.kind.isConditional = false) :
    Observed (fetched ++ [(branch, none)]) (r.passed branch) := by
  obtain ⟨past, waiting, calls, hdialogue, hpending, hcalls⟩ := h
  refine ⟨past, _, _, hdialogue.fetch (fresh_of_ordered ordered) hkind.symm, ?_, ?_⟩
  · show r.pending = _
    rw [hpending]
    exact congrArg _ (List.append_nil waiting).symm
  · rw [calls_passed hkind, hcalls, List.cons_append]

/-- The branch that retires is the one that has waited for longest in the dialogue. -/
theorem Observed.retired {p : Pending} {ps : List Pending} {provider : Provider}
    {tags : List UInt64} {baseline : Recorded β} (h : Observed fetched r)
    (hretires : r.Retires p ps provider tags baseline) :
    Observed fetched (r.retired p ps provider tags baseline) := by
  obtain ⟨past, waiting, calls, hdialogue, hpending, hcalls⟩ := h
  cases waiting with
  | nil =>
    rw [hretires.pending] at hpending
    cases hpending
  | cons entry waiting =>
    rw [hretires.pending, List.map_cons] at hpending
    obtain ⟨rfl, rfl⟩ := List.cons.inj hpending
    obtain ⟨call, hcall, hbaseline⟩ := Selector.exists_call_of_consume hretires.consumed
    refine ⟨_, waiting, calls ++ [call], hdialogue.consume hcall, rfl, ?_⟩
    show baseline.calls = _
    rw [hbaseline, hcalls, List.cons_append]

/-! ## Runs -/

theorem Course.observed {s : Selector (Recorded β)} {delay : Nat}
    (h : Course (start s delay) fetched settled r) (ordered : Ordered (fetched.map Prod.fst))
    (hs : s.setup.Coherent C) (hlog : s.baseline.log = []) : Observed fetched r := by
  have hstart : Observed [] (start s delay) := by
    refine ⟨[], [], [], dialogue_nil, rfl, ?_⟩
    show (s.baseline.after .setup _).calls = _
    rw [Recorded.calls_after, Recorded.calls, hlog]
    rfl
  exact (h.induction (P := fun fetched _ r => Observed fetched r) ordered hs hstart
    (fun _ ordered _ hkind hobserved => hobserved.launched ordered hkind)
    (fun _ ordered hkind hobserved => hobserved.passed ordered hkind)
    (fun _ _ hretires hobserved => hobserved.retired hretires)).2

/-- Around any predictor, with any delay and for records in order, running and finishing are
stopped by nothing but a refusal of the predictor. If they are not stopped, the calls that the
predictor was given are one setup at first and one termination at last, and in between those
of the protocol, with the predictions that the run has answered. -/
theorem protocol_of_run {config : Config} {inner : β} {s : Selector (Recorded β)}
    {records : List Branch} (created : Selector.create config ⟨inner, []⟩ = .ok s)
    (ordered : Ordered records) (delay : Nat) :
    Ends ((start s delay).run records)
      (fun answer => answer.1.length = records.length ∧
        Ends answer.2.finish
          (fun last => ∃ calls, last.2.1.calls = .setup :: calls ++ [.terminate] ∧
            Protocol (records.zip (answer.1.map Fed.prediction)) calls)
          (Refuses β))
      (Refuses β) := by
  obtain ⟨valid, rfl⟩ := Selector.create_eq_ok created
  have hs : (Selector.ofConfig config (⟨inner, []⟩ : Recorded β)).setup.Coherent
      (anyContract (Recorded β)) :=
    (Selector.coherent_ofConfig valid trivial).setup
  have hruns := Reaches.refl.run_ends hs ordered (Nat.zero_le delay)
  cases hrun : (start (Selector.ofConfig config (⟨inner, []⟩ : Recorded β)) delay).run records with
  | error violation => exact refuses_of_recorded (hruns.of_error hrun)
  | ok answer =>
    obtain ⟨hcourse, hlength⟩ := Course.refl.run (Nat.zero_le _) hrun
    refine ⟨hlength, ?_⟩
    have hdrains := (hruns.of_ok hrun).1.drain_ends ordered hs
    unfold finish
    cases hdrain : answer.2.drain with
    | error violation => exact refuses_of_recorded (hdrains.of_error hdrain)
    | ok drained =>
      -- Draining leaves no branch waiting, so that the dialogue is over.
      have hrecords : ([] ++ records.zip (answer.1.map Fed.prediction)).map Prod.fst = records := by
        rw [List.nil_append, List.map_fst_zip]
        rw [List.length_map, hlength]
      obtain ⟨past, waiting, calls, hdialogue, hpending, hcalls⟩ :=
        (hcourse.settleDown hdrain).1.observed (hrecords.symm ▸ ordered) hs rfl
      rw [(hdrains.of_ok hdrain).2] at hpending
      obtain rfl := List.map_eq_nil_iff.1 hpending.symm
      refine ⟨calls, ?_, hdialogue.protocol⟩
      show (drained.2.selector.baseline.after .terminate _).calls = _
      rw [Recorded.calls_after, hcalls]

/-- A trace in which branches overlap, around a predictor that goes by the address. -/
theorem protocol_of_run_shortTrace :
    Selector.create {} (⟨.addressBit 2, []⟩ : Recorded Static) =
        .ok (Selector.ofConfig {} ⟨.addressBit 2, []⟩) ∧
      Ordered shortTrace ∧
      ∃ feds r stats baseline events calls,
        (start (Selector.ofConfig {} (⟨.addressBit 2, []⟩ : Recorded Static)) 2).run shortTrace =
          .ok (feds, r) ∧
        r.finish = .ok (stats, baseline, events) ∧
        baseline.calls = .setup :: calls ++ [.terminate] ∧
        Protocol (shortTrace.zip (feds.map Fed.prediction)) calls := by
  have hcreated : Selector.create {} (⟨.addressBit 2, []⟩ : Recorded Static) =
    .ok (Selector.ofConfig {} ⟨.addressBit 2, []⟩) := rfl
  obtain ⟨answer, hrun, -, hfinishes⟩ :=
    (protocol_of_run hcreated ordered_shortTrace 2).exists_ok_of_not not_refuses_static
  obtain ⟨last, hfinish, calls, hcalls, hprotocol⟩ :=
    hfinishes.exists_ok_of_not not_refuses_static
  exact ⟨hcreated, ordered_shortTrace, answer.1, answer.2, _, _, _, calls, hrun, hfinish, hcalls,
    hprotocol⟩

end Replay

end BranchSelector
