import BranchSelector.Proofs.Baseline.Protocol
import BranchSelector.Proofs.Replay.Run

/-!
# The delay of a replay

Branches wait in the order of their records, and the one that has waited for longest resolves. So
the records that were predicted fall into those that have resolved and, behind them, those that wait
(`Replay.InTurn`). This is kept by every move, and says which branches these are once it is known
how many wait.

That number is known after every record (`Replay.length_pending_run`). A branch resolves only if
more are waiting than the delay allows, and then as many do as are too many. Records of other
branches leave the queue alone, so the delay is one in conditional records: of these, the last ones
wait, as many as the delay is or as there are, and all of the earlier ones have resolved
(`Replay.delay_of_run`).
-/

namespace BranchSelector

open Branch Baseline

/-- A predicted record, as it waits. -/
def Pending.ofLaunch (launch : Branch × Prediction) : Pending :=
  ⟨launch.1, launch.2.direction⟩

/-- A resolution settles a predicted record: it names the branch, and tells which way the branch was
predicted to go and which way it went. -/
structure Settles (launch : Branch × Prediction) (resolution : Resolution) : Prop where
  key : resolution.key = launch.1.ident
  pc : resolution.pc = launch.1.pc
  predicted : resolution.predicted = launch.2.direction
  taken : resolution.taken = launch.1.taken

/-- No two branches in program order have the same key. -/
theorem Branch.Ordered.nodup_ident {branches : List Branch} (ordered : Ordered branches) :
    (branches.map ident).Nodup := by
  rw [List.Nodup, List.pairwise_map]
  exact ordered.increasing.imp_of_mem fun ha hb hbefore =>
    hbefore.ident_ne (ordered.pieces _ ha) (ordered.pieces _ hb)

/-- The resolutions of predicted records have their keys. -/
theorem keys_of_settles {launched : List (Branch × Prediction)} {resolutions : List Resolution}
    (h : List.Forall₂ Settles launched resolutions) :
    resolutions.map Resolution.key = (launched.map Prod.fst).map ident := by
  induction h with
  | nil => rfl
  | cons hsettles _ ih =>
    rw [List.map_cons, List.map_cons, List.map_cons, hsettles.key, ih]

namespace Replay

/-! ## How many branches wait -/

section Length

variable {β : Type} [Baseline β] {r r' : Replay β} {branch : Branch}
  {prediction : Option Prediction} {resolutions : List Resolution} {allowed : Nat} {fed : Fed}

/-- A conditional record makes the queue longer by one, and any other leaves it alone. -/
theorem length_pending_enter (henter : r.enter branch = .ok (prediction, r')) :
    r'.pending.length = r.pending.length + (if branch.kind.isConditional then 1 else 0) ∧
      r'.resolveDelay = r.resolveDelay := by
  unfold enter at henter
  cases hkind : branch.kind.isConditional with
  | true =>
    rw [if_pos hkind] at henter
    obtain ⟨answer, -, hlater⟩ := bind_eq_ok_iff.1 henter
    obtain ⟨selector, -, hanswer⟩ := bind_eq_ok_iff.1 hlater
    obtain ⟨-, rfl⟩ := Prod.mk.inj (Except.ok.inj hanswer)
    exact ⟨List.length_append, rfl⟩
  | false =>
    rw [if_neg (Bool.eq_false_iff.1 hkind)] at henter
    obtain ⟨selector, -, hanswer⟩ := bind_eq_ok_iff.1 henter
    obtain ⟨-, rfl⟩ := Prod.mk.inj (Except.ok.inj hanswer)
    exact ⟨rfl, rfl⟩

/-- As many branches resolve as are too many, and the others stay. -/
theorem length_pending_settleDown (hsettle : r.settleDown allowed = .ok (resolutions, r')) :
    r'.pending.length = min allowed r.pending.length ∧ r'.resolveDelay = r.resolveDelay := by
  obtain ⟨⟨resolved, selector⟩, -, hanswer⟩ := bind_eq_ok_iff.1 hsettle
  obtain ⟨-, rfl⟩ := Prod.mk.inj (Except.ok.inj hanswer)
  refine ⟨?_, rfl⟩
  show (r.pending.drop (r.pending.length - allowed)).length = _
  rw [List.length_drop]
  omega

theorem length_pending_step (hstep : r.step branch = .ok (fed, r')) :
    r'.pending.length = min r.resolveDelay
        (r.pending.length + if branch.kind.isConditional then 1 else 0) ∧
      r'.resolveDelay = r.resolveDelay := by
  obtain ⟨⟨prediction, entered⟩, henter, hlater⟩ := bind_eq_ok_iff.1 hstep
  obtain ⟨⟨resolutions, last⟩, hsettle, hanswer⟩ := bind_eq_ok_iff.1 hlater
  obtain ⟨-, rfl⟩ := Prod.mk.inj (Except.ok.inj hanswer)
  obtain ⟨hentered, hdelay⟩ := length_pending_enter henter
  obtain ⟨hsettled, hlast⟩ := length_pending_settleDown hsettle
  rw [hdelay, hentered] at hsettled
  exact ⟨hsettled, hlast.trans hdelay⟩

/-- Of the branches that wait already and the conditional records that are fed, as many wait in the
end as the delay allows, or all of them. -/
theorem length_pending_run {records : List Branch} {feds : List Fed}
    (hrun : r.run records = .ok (feds, r')) (hroom : r.pending.length ≤ r.resolveDelay) :
    r'.pending.length =
      min r.resolveDelay (r.pending.length + records.countP (·.kind.isConditional)) := by
  induction records generalizing r feds with
  | nil =>
    obtain ⟨-, rfl⟩ := Prod.mk.inj (Except.ok.inj hrun)
    exact (Nat.min_eq_right hroom).symm
  | cons branch records ih =>
    obtain ⟨⟨fed, middle⟩, hstep, hlater⟩ := bind_eq_ok_iff.1 hrun
    obtain ⟨⟨later, last⟩, hrest, hanswer⟩ := bind_eq_ok_iff.1 hlater
    obtain ⟨-, rfl⟩ := Prod.mk.inj (Except.ok.inj hanswer)
    obtain ⟨hmiddle, hdelay⟩ := length_pending_step hstep
    have hlast := ih hrest (by omega)
    rw [hdelay, hmiddle] at hlast
    rw [hlast, List.countP_cons]
    omega

end Length

/-! ## Which branches wait -/

/-- The records that were predicted: those in `past` have resolved, and behind them those in
`waiting` wait, both in the order of the records. -/
structure InTurn {β : Type} (fetched : List (Branch × Option Prediction))
    (settled : List Resolution) (past waiting : List (Branch × Prediction)) (r : Replay β) :
    Prop where
  launches_eq : launches fetched = past ++ waiting
  conditional : (launches fetched).map Prod.fst =
    (fetched.map Prod.fst).filter (·.kind.isConditional)
  /-- Each prediction was made for its own record. -/
  key : ∀ launch ∈ launches fetched, launch.2.key = launch.1.ident
  pending : r.pending = waiting.map Pending.ofLaunch
  settles : List.Forall₂ Settles past settled

namespace InTurn

variable {β : Type} {fetched : List (Branch × Option Prediction)} {settled : List Resolution}
  {past waiting : List (Branch × Prediction)} {r : Replay β} {branch : Branch}

/-- Once no branch waits, all records that were predicted have resolved, each of them once. -/
theorem settles_all (h : InTurn fetched settled past waiting r)
    (ordered : Ordered (fetched.map Prod.fst)) (hpending : r.pending = []) :
    List.Forall₂ Settles (launches fetched) settled ∧ (settled.map Resolution.key).Nodup := by
  obtain rfl := List.map_eq_nil_iff.1 (h.pending.symm.trans hpending)
  have hsettles := h.settles
  rw [← List.append_nil past, ← h.launches_eq] at hsettles
  refine ⟨hsettles, ?_⟩
  rw [keys_of_settles hsettles, h.conditional]
  exact (ordered.sublist List.filter_sublist).nodup_ident

/-- The branches that wait are the last ones that were predicted, and the others have resolved. -/
theorem split (h : InTurn fetched settled past waiting r) {n : Nat}
    (hlength : n + r.pending.length = (launches fetched).length) :
    r.pending = ((launches fetched).drop n).map Pending.ofLaunch ∧
      List.Forall₂ Settles ((launches fetched).take n) settled := by
  have hpast : past.length = n := by
    rw [h.launches_eq, List.length_append, h.pending, List.length_map] at hlength
    omega
  rw [h.launches_eq, List.drop_left' hpast, List.take_left' hpast]
  exact ⟨h.pending, h.settles⟩

variable [Baseline β]

/-- A branch that is launched waits behind all others. -/
theorem launched (h : InTurn fetched settled past waiting r)
    (hkind : branch.kind.isConditional = true) :
    let prediction := r.selector.prediction branch.ident branch.pc
    InTurn (fetched ++ [(branch, some prediction)]) settled past
      (waiting ++ [(branch, prediction)]) (r.launched branch) where
  launches_eq := by
    rw [launches_concat, h.launches_eq, List.append_assoc]
    rfl
  conditional := by
    rw [launches_concat, List.map_append, List.map_append, List.filter_append, h.conditional]
    simp [hkind]
  key launch hlaunch := by
    rw [launches_concat] at hlaunch
    rcases List.mem_append.1 hlaunch with hold | hnew
    · exact h.key launch hold
    · rw [List.mem_singleton.1 hnew]
      rfl
  pending := by
    show r.pending ++ [_] = _
    rw [h.pending, List.map_append]
    rfl
  settles := h.settles

/-- A branch that is not conditional changes nothing. -/
theorem passed (h : InTurn fetched settled past waiting r)
    (hkind : branch.kind.isConditional = false) :
    InTurn (fetched ++ [(branch, none)]) settled past waiting (r.passed branch) where
  launches_eq := by
    rw [launches_concat, h.launches_eq]
    exact List.append_nil _
  conditional := by
    rw [launches_concat, List.map_append, List.map_append, List.filter_append, h.conditional]
    simp [hkind]
  key launch hlaunch := by
    rw [launches_concat] at hlaunch
    rcases List.mem_append.1 hlaunch with hold | hnew
    · exact h.key launch hold
    · cases hnew
  pending := h.pending
  settles := h.settles

/-- The branch that retires is the one that has waited for longest. -/
theorem retired {p : Pending} {ps : List Pending} {provider : Provider} {tags : List UInt64}
    {baseline : β} (h : InTurn fetched settled past waiting r)
    (hretires : r.Retires p ps provider tags baseline) :
    ∃ launch rest, InTurn fetched
      (settled ++ [r.selector.resolution p.branch.ident provider tags p.branch.pc p.direction
        p.branch.taken])
      (past ++ [launch]) rest (r.retired p ps provider tags baseline) := by
  have hpending := h.pending
  rw [hretires.pending] at hpending
  cases waiting with
  | nil => cases hpending
  | cons launch rest =>
    obtain ⟨rfl, rfl⟩ := List.cons.inj hpending
    refine ⟨launch, rest, ?_, h.conditional, h.key, rfl, ?_⟩
    · rw [h.launches_eq, List.append_assoc]
      rfl
    · exact List.rel_append h.settles (.cons ⟨rfl, rfl, rfl, rfl⟩ .nil)

end InTurn

section Runs

variable {β : Type} [Baseline β] {C : Baseline.Contract β}
  {fetched : List (Branch × Option Prediction)} {settled : List Resolution} {r : Replay β}

/-- Branches are in turn wherever a replay of records in order may be found. -/
theorem Course.inTurn {s : Selector β} {delay : Nat} (h : Course (start s delay) fetched settled r)
    (ordered : Ordered (fetched.map Prod.fst)) (hs : s.setup.Coherent C) :
    ∃ past waiting, InTurn fetched settled past waiting r := by
  refine (h.induction
    (P := fun fetched settled r => ∃ past waiting, InTurn fetched settled past waiting r) ordered hs
    ⟨[], [], rfl, rfl, nofun, rfl, .nil⟩ ?_ ?_ ?_).2
  · rintro fetched settled r branch - - - hkind ⟨past, waiting, hturn⟩
    exact ⟨_, _, hturn.launched hkind⟩
  · rintro fetched settled r branch - - hkind ⟨past, waiting, hturn⟩
    exact ⟨_, _, hturn.passed hkind⟩
  · rintro fetched settled r p ps provider tags baseline - - hretires ⟨past, waiting, hturn⟩
    obtain ⟨launch, rest, hturn⟩ := hturn.retired hretires
    exact ⟨_, _, hturn⟩

end Runs

variable {β : Type} [Baseline β]

/-- Around any predictor and with any delay, feeding the front part of records in order is stopped
by nothing but a refusal of the predictor, and so is draining afterwards.

If feeding is not stopped, exactly the conditional ones of its records were predicted. If there are
`c` of them, the last `min delay c` wait, in the order of their records and with the directions that
were predicted. The branches in flight are those that wait. The resolutions so far are those of the
first `c - min delay c`, in the same order, one for each.

If draining is not stopped either, no branch waits any more, none is in flight, and all `c` have
resolved, in the order of their records and once each. -/
theorem delay_of_run {config : Config} {baseline : β} {s : Selector β} {records : List Branch}
    (created : Selector.create config baseline = .ok s) (ordered : Ordered records) (delay : Nat)
    {done : List Branch} (fed : done <+: records) :
    Ends ((start s delay).run done)
      (fun answer =>
        let launched := launches (done.zip (answer.1.map Fed.prediction))
        let resolved := answer.1.flatMap Fed.resolutions
        let c := done.countP (·.kind.isConditional)
        answer.1.length = done.length ∧
        launched.map Prod.fst = done.filter (·.kind.isConditional) ∧
        (∀ launch ∈ launched, launch.2.key = launch.1.ident) ∧
        answer.2.pending.length = min delay c ∧
        answer.2.pending = (launched.drop (c - min delay c)).map Pending.ofLaunch ∧
        (∀ key, key ∈ answer.2.selector.inFlight ↔
          ∃ p ∈ answer.2.pending, p.branch.ident = key) ∧
        List.Forall₂ Settles (launched.take (c - min delay c)) resolved ∧
        Ends answer.2.drain
          (fun drained => drained.2.pending = [] ∧ drained.2.selector.inFlight = ∅ ∧
            List.Forall₂ Settles launched (resolved ++ drained.1) ∧
            ((resolved ++ drained.1).map Resolution.key).Nodup)
          (Refuses β))
      (Refuses β) := by
  obtain ⟨valid, rfl⟩ := Selector.create_eq_ok created
  have hs : (Selector.ofConfig config baseline).setup.Coherent (anyContract β) :=
    (Selector.coherent_ofConfig valid trivial).setup
  have hdone := ordered.sublist fed.sublist
  have hruns := Reaches.refl.run_ends hs hdone (Nat.zero_le delay)
  cases hrun : (start (Selector.ofConfig config baseline) delay).run done with
  | error violation => exact hruns.of_error hrun
  | ok answer =>
    obtain ⟨hreaches, -⟩ := hruns.of_ok hrun
    obtain ⟨hcourse, hlength⟩ := Course.refl.run (Nat.zero_le _) hrun
    have hfetched : (done.zip (answer.1.map Fed.prediction)).map Prod.fst = done := by
      rw [List.map_fst_zip]
      rw [List.length_map, hlength]
    rw [List.nil_append] at hcourse
    obtain ⟨past, waiting, hturn⟩ := hcourse.inTurn (hfetched.symm ▸ hdone) hs
    have hconditional := hturn.conditional
    rw [hfetched] at hconditional
    have hpending : answer.2.pending.length = min delay (done.countP (·.kind.isConditional)) := by
      rw [length_pending_run hrun (Nat.zero_le _)]
      exact congrArg (min delay) (Nat.zero_add _)
    have hcount : (launches (done.zip (answer.1.map Fed.prediction))).length =
        done.countP (·.kind.isConditional) := by
      rw [← List.length_map (f := Prod.fst), hconditional, List.countP_eq_length_filter]
    obtain ⟨hwaiting, hresolved⟩ := hturn.split
      (n := done.countP (·.kind.isConditional) - min delay (done.countP (·.kind.isConditional)))
      (by omega)
    refine ⟨hlength, hconditional, hturn.key, hpending, hwaiting, (hreaches.queued hdone hs).live,
      hresolved, ?_⟩
    have hdrains := hreaches.drain_ends hdone hs
    cases hdrain : answer.2.drain with
    | error violation => exact hdrains.of_error hdrain
    | ok drained =>
      obtain ⟨hend, hempty⟩ := hdrains.of_ok hdrain
      obtain ⟨past, waiting, hturn⟩ :=
        (hcourse.settleDown hdrain).1.inTurn (hfetched.symm ▸ hdone) hs
      obtain ⟨hall, honce⟩ := hturn.settles_all (hfetched.symm ▸ hdone) hempty
      exact ⟨hempty, ((hend.queued hdone hs).eq_empty hempty).1, hall, honce⟩

/-- With a delay of one, the second of two conditional records waits and has let the first resolve.
The call that comes behind them lets nobody resolve. -/
theorem delay_of_run_shortTrace :
    Selector.create {} (.addressBit 2 : Static) =
        .ok (Selector.ofConfig {} (.addressBit 2 : Static)) ∧
      Ordered shortTrace ∧ shortTrace.take 3 <+: shortTrace ∧
      ∃ feds r resolutions drained,
        (start (Selector.ofConfig {} (.addressBit 2 : Static)) 1).run (shortTrace.take 3) =
          .ok (feds, r) ∧
        r.pending.length = 1 ∧
        (feds.flatMap Fed.resolutions).map Resolution.key = [⟨1, 0⟩] ∧
        r.drain = .ok (resolutions, drained) ∧
        drained.pending = [] ∧
        ((feds.flatMap Fed.resolutions ++ resolutions).map Resolution.key) = [⟨1, 0⟩, ⟨1, 1⟩] := by
  have hcreated : Selector.create {} (.addressBit 2 : Static) =
    .ok (Selector.ofConfig {} (.addressBit 2 : Static)) := rfl
  have hprefix : shortTrace.take 3 <+: shortTrace := List.take_prefix 3 shortTrace
  obtain ⟨⟨feds, r⟩, hrun, -, hconditional, -, hlength, -, -, hresolved, hdrains⟩ :=
    (delay_of_run hcreated ordered_shortTrace 1 hprefix).exists_ok_of_not not_refuses_static
  obtain ⟨⟨resolutions, drained⟩, hdrain, hempty, -, hall, -⟩ :=
    hdrains.exists_ok_of_not not_refuses_static
  refine ⟨hcreated, ordered_shortTrace, hprefix, feds, r, resolutions, drained, hrun,
    hlength.trans rfl, ?_, hdrain, hempty, ?_⟩
  · rw [keys_of_settles hresolved, List.map_take, hconditional]
    rfl
  · rw [keys_of_settles hall, hconditional]
    rfl

end Replay

end BranchSelector
