import BranchSelector.Baseline.Static
import BranchSelector.Proofs.Replay.Staleness
import BranchSelector.Proofs.Replay.Waiting
import BranchSelector.Proofs.Selector.Membership

/-!
# What an insertion pays for

Where membership selects, a prediction follows the correlator only at an address that is not a
member of the filter, and a misprediction makes its address a member. But while a mispredicted
branch waits, others of the same address can be predicted, and a Bloom filter can take in an
address that was never inserted. So several mispredictions of the correlator can go along with
one insertion: no more than the branches that wait when it happens.

The argument charges them to the insertion. A waiting branch that follows the correlator is
*owed* once its address is a member, whether by an insertion of its own or not, for its
misprediction will not insert anything. An insertion pays for the misprediction that causes it
and for all branches that wait behind, one more than the delay allows in all; those that are
launched later at a member follow the baseline. `Replay.Charged` is this account, for all
addresses together and for each of them, and each move keeps it.

The account is kept by the resolutions, each of which names a provider. That it is the one that the
prediction of the branch followed, and that no prediction is left out once the replay is drained, is
told by `Prediction.ResolvedAs`.
-/

namespace BranchSelector

open Branch

/-- What a prediction is resolved as: its branch, the provider that it followed and the direction
that it gave. -/
structure Prediction.ResolvedAs (prediction : Prediction) (resolution : Resolution) : Prop where
  key : resolution.key = prediction.key
  pc : resolution.pc = prediction.pc
  provider : resolution.provider = prediction.provider
  predicted : resolution.predicted = prediction.direction

theorem Replay.Answered.resolvedAs {knobs delay : Nat} {prediction : Prediction}
    {resolution : Resolution} (h : Answered knobs delay prediction resolution) :
    prediction.ResolvedAs resolution :=
  ⟨h.key, h.pc, h.provider, h.predicted⟩

/-- The resolution of a wrong prediction of the correlator at an address. -/
def Resolution.wrongAt (pc : UInt64) (resolution : Resolution) : Bool :=
  decide (resolution.provider = .correlator) && resolution.mispredicted && resolution.pc == pc

theorem Stats.correlatorWrong_recordResolution (stats : Stats) (provider : Provider)
    (right : Bool) : (stats.recordResolution provider right).correlatorWrong =
      stats.correlatorWrong + if provider = .correlator ∧ right = false then 1 else 0 := by
  cases provider <;> cases right <;> rfl

/-- A resolution is counted if it is that of a wrong prediction of the correlator at the
address. -/
theorem countP_wrongAt_resolution {β : Type} (settled : List Resolution) (s : Selector β)
    (key : BranchKey) (provider : Provider) (tags : List UInt64) (pc : UInt64)
    (predicted taken : Bool) (other : UInt64) :
    (settled ++ [s.resolution key provider tags pc predicted taken]).countP
        (Resolution.wrongAt other) =
      settled.countP (Resolution.wrongAt other) +
        if provider = .correlator ∧ (predicted == taken) = false ∧ pc = other then 1 else 0 := by
  rw [List.countP_append, List.countP_singleton]
  cases provider <;> simp [Resolution.wrongAt, Resolution.mispredicted, Selector.resolution]

namespace Replay

variable {β : Type}

/-- The account of insertions and of mispredictions of the correlator. -/
structure Charged (settled : List Resolution) (r : Replay β) : Prop where
  epoch : r.selector.epoch = 0
  mode : r.selector.config.arbiter.mode ≠ .rawStrength
  members : ∀ p ∈ r.pending, r.served p = some .baseline →
    r.selector.filter.contains p.branch.pc = true
  insertions_le : r.selector.stats.filterInsertions ≤ r.selector.stats.correlatorWrong
  wrong_le : r.selector.stats.correlatorWrong +
      r.waiting .correlator (fun branch => r.selector.filter.contains branch.pc) ≤
    (r.resolveDelay + 1) * r.selector.stats.filterInsertions
  absent : ∀ pc, r.selector.filter.contains pc = false →
    settled.countP (Resolution.wrongAt pc) = 0
  present : ∀ pc, r.selector.filter.contains pc = true →
    settled.countP (Resolution.wrongAt pc) + r.waiting .correlator (fun branch => branch.pc == pc) ≤
      r.resolveDelay + 1

/-- No address is mispredicted by the correlator more often than the delay and once. -/
theorem Charged.wrongAt_le {settled : List Resolution} {r : Replay β} (h : r.Charged settled)
    (pc : UInt64) : settled.countP (Resolution.wrongAt pc) ≤ r.resolveDelay + 1 := by
  cases hpc : r.selector.filter.contains pc with
  | true => exact Nat.le_trans (Nat.le_add_right _ _) (h.present pc hpc)
  | false =>
    rw [h.absent pc hpc]
    exact Nat.zero_le _

/-- Retiring a branch counts one insertion if its prediction was wrong and its address is not a
member. -/
theorem Charged.filterInsertions_retired {settled : List Resolution} {r : Replay β}
    (h : r.Charged settled) (p : Pending) (ps : List Pending) (provider : Provider)
    (tags : List UInt64) (baseline : β) :
    (r.retired p ps provider tags baseline).selector.stats.filterInsertions =
      r.selector.stats.filterInsertions +
        if (p.direction == p.branch.taken) = false ∧
          r.selector.filter.contains p.branch.pc = false then 1 else 0 := by
  rw [← (Selector.receptive_of_epoch h.epoch).added_eq]
  rfl

/-- Retiring a branch counts one misprediction of the correlator if the branch followed it and
its prediction was wrong. -/
theorem correlatorWrong_retired (r : Replay β) (p : Pending) (ps : List Pending)
    (provider : Provider) (tags : List UInt64) (baseline : β) :
    (r.retired p ps provider tags baseline).selector.stats.correlatorWrong =
      r.selector.stats.correlatorWrong +
        if provider = .correlator ∧ (p.direction == p.branch.taken) = false then 1 else 0 :=
  r.selector.stats.correlatorWrong_recordResolution provider _

/-- What an account implies: insertions and mispredictions of the correlator bound each other,
and are as many if nothing is delayed. -/
structure InsertionBounds (delay : Nat) (stats : Stats) : Prop where
  insertions_le : stats.filterInsertions ≤ stats.correlatorWrong
  wrong_le : stats.correlatorWrong ≤ (delay + 1) * stats.filterInsertions
  eq_of_undelayed : delay = 0 → stats.filterInsertions = stats.correlatorWrong

theorem Charged.bounds {settled : List Resolution} {r : Replay β} (h : r.Charged settled) :
    InsertionBounds r.resolveDelay r.selector.stats := by
  have howed := Nat.le_trans (Nat.le_add_right _ _) h.wrong_le
  refine ⟨h.insertions_le, howed, fun hdelay => ?_⟩
  rw [hdelay, Nat.zero_add, Nat.one_mul] at howed
  exact Nat.le_antisymm h.insertions_le howed

variable [Baseline β] {C : Baseline.Contract β} {done : List Branch} {r : Replay β}
  {settled : List Resolution} {branch : Branch} {p : Pending} {ps : List Pending}
  {provider : Provider} {tags : List UInt64} {baseline : β}

theorem charged_start {s : Selector β} (hmode : s.config.arbiter.mode ≠ .rawStrength)
    (delay : Nat) : (start s delay).Charged [] where
  epoch := rfl
  mode := hmode
  members _ hp := nomatch hp
  insertions_le := Nat.le_refl 0
  wrong_le := Nat.zero_le _
  absent _ _ := rfl
  present _ _ := Nat.zero_le _

/-- A branch that is launched is not owed: it follows the correlator only where its address is
not a member. -/
theorem Charged.launched (h : r.Charged settled) (queued : r.Queued C done)
    (ordered : Ordered (done ++ [branch])) : (r.launched branch).Charged settled := by
  have hprovider := Selector.provider_of_mode h.mode branch.pc
  have hstats : (r.launched branch).selector.stats.filterInsertions =
        r.selector.stats.filterInsertions ∧
      (r.launched branch).selector.stats.correlatorWrong = r.selector.stats.correlatorWrong := by
    show (r.selector.stats.recordPrediction _).filterInsertions = _ ∧
      (r.selector.stats.recordPrediction _).correlatorWrong = _
    cases r.selector.provider branch.pc <;> exact ⟨rfl, rfl⟩
  have hwaiting (test : Branch → Bool)
      (htest : r.selector.filter.contains branch.pc = false → test branch = false) :
      (r.launched branch).waiting .correlator test = r.waiting .correlator test := by
    rw [queued.waiting_launched ordered, hprovider]
    cases hpc : r.selector.filter.contains branch.pc with
    | true => simp
    | false => simp [htest hpc]
  refine ⟨h.epoch, h.mode, ?_, ?_, ?_, h.absent, ?_⟩
  · intro q hq hserved
    rcases List.mem_append.1 hq with hold | hnew
    · rw [queued.served_launched ordered hold] at hserved
      exact h.members q hold hserved
    · rw [List.mem_singleton.1 hnew, served_launched_self, hprovider] at hserved
      rw [List.mem_singleton.1 hnew]
      cases hpc : r.selector.filter.contains branch.pc with
      | true => exact hpc
      | false => simp [hpc] at hserved
  · rw [hstats.1, hstats.2]
    exact h.insertions_le
  · rw [hstats.1, hstats.2]
    show _ + (r.launched branch).waiting .correlator
      (fun branch => r.selector.filter.contains branch.pc) ≤ _
    rw [hwaiting _ id]
    exact h.wrong_le
  · intro pc hpc
    rw [hwaiting]
    · exact h.present pc hpc
    · intro habsent
      refine beq_false_of_ne fun hsame => ?_
      rw [hsame] at habsent
      exact Bool.false_ne_true (habsent.symm.trans hpc)

/-- Branches that wait for the baseline stay at members. -/
theorem Charged.members_retired (h : r.Charged settled) (queued : r.Queued C done)
    (ordered : Ordered done) (hretires : r.Retires p ps provider tags baseline) :
    ∀ q ∈ ps, (r.retired p ps provider tags baseline).served q = some .baseline →
      (r.retired p ps provider tags baseline).selector.filter.contains q.branch.pc = true := by
  intro q hq hserved
  rw [queued.served_retired ordered hretires hq] at hserved
  have hmember : q ∈ r.pending := hretires.pending ▸ List.mem_cons_of_mem _ hq
  exact Selector.contains_filterAfter (h.members q hmember hserved) _ _

/-- No more branches wait behind the oldest than the delay allows. -/
theorem Queued.waiting_retired_le (h : r.Queued C done)
    (hretires : r.Retires p ps provider tags baseline) (other : Provider)
    (test : Branch → Bool) :
    (r.retired p ps provider tags baseline).waiting other test ≤ r.resolveDelay := by
  have hlength := h.length_le
  rw [hretires.pending, List.length_cons] at hlength
  exact Nat.le_trans (waiting_le_length _ _ _) (Nat.le_of_succ_le_succ hlength)

/-- The resolution of a right prediction, or of a wrong one at a member, leaves the filter as
it is. A misprediction of the correlator was owed. -/
theorem Charged.retired_of_unchanged (h : r.Charged settled) (queued : r.Queued C done)
    (ordered : Ordered done) (hretires : r.Retires p ps provider tags baseline)
    (hmember : (p.direction == p.branch.taken) = false →
      r.selector.filter.contains p.branch.pc = true) :
    (r.retired p ps provider tags baseline).Charged
      (settled ++ [r.selector.resolution p.branch.ident provider tags p.branch.pc p.direction
        p.branch.taken]) := by
  have hfilter : (r.retired p ps provider tags baseline).selector.filter =
      r.selector.filter := by
    show r.selector.filterAfter p.branch.pc (p.direction == p.branch.taken) = _
    cases hright : p.direction == p.branch.taken with
    | true => rfl
    | false => exact Selector.filterAfter_of_contains (hmember hright) false
  have hinsertions : (r.retired p ps provider tags baseline).selector.stats.filterInsertions =
      r.selector.stats.filterInsertions := by
    rw [h.filterInsertions_retired, if_neg, Nat.add_zero]
    rintro ⟨hwrong, habsent⟩
    exact Bool.false_ne_true (habsent.symm.trans (hmember hwrong))
  have hwaiting := queued.waiting_retired ordered hretires .correlator
  refine ⟨h.epoch, h.mode, h.members_retired queued ordered hretires, ?_, ?_, ?_, ?_⟩
  · rw [hinsertions, correlatorWrong_retired]
    exact Nat.le_trans h.insertions_le (Nat.le_add_right _ _)
  · -- What the misprediction adds on the one side was owed, and is not any more.
    rw [hinsertions, correlatorWrong_retired, hfilter]
    have howed := h.wrong_le
    rw [hwaiting] at howed
    show _ ≤ (r.resolveDelay + 1) * _
    by_cases hcharge : provider = .correlator ∧ (p.direction == p.branch.taken) = false
    · rw [if_pos hcharge]
      rw [if_pos ⟨hcharge.1, hmember hcharge.2⟩] at howed
      omega
    · rw [if_neg hcharge]
      omega
  · intro pc hpc
    rw [hfilter] at hpc
    rw [countP_wrongAt_resolution, h.absent pc hpc, if_neg]
    rintro ⟨-, hwrong, rfl⟩
    exact Bool.false_ne_true (hpc.symm.trans (hmember hwrong))
  · intro pc hpc
    rw [hfilter] at hpc
    have hpresent := h.present pc hpc
    rw [hwaiting] at hpresent
    rw [countP_wrongAt_resolution]
    show _ ≤ r.resolveDelay + 1
    by_cases hcharge : provider = .correlator ∧ (p.direction == p.branch.taken) = false ∧
        p.branch.pc = pc
    · rw [if_pos hcharge]
      rw [if_pos ⟨hcharge.1, beq_iff_eq.2 hcharge.2.2⟩] at hpresent
      omega
    · rw [if_neg hcharge]
      omega

/-- The resolution of a wrong prediction at an address that is not a member inserts the address.
The prediction followed the correlator, and the insertion pays for it and for whatever waits
behind. -/
theorem Charged.retired_of_inserted (h : r.Charged settled) (queued : r.Queued C done)
    (ordered : Ordered done) (hretires : r.Retires p ps provider tags baseline)
    (hwrong : (p.direction == p.branch.taken) = false)
    (habsent : r.selector.filter.contains p.branch.pc = false) :
    (r.retired p ps provider tags baseline).Charged
      (settled ++ [r.selector.resolution p.branch.ident provider tags p.branch.pc p.direction
        p.branch.taken]) := by
  have hprovider : provider = .correlator := by
    cases hcase : provider with
    | correlator => rfl
    | baseline =>
      have hmem : p ∈ r.pending := hretires.pending ▸ List.mem_cons_self
      have hmember := h.members p hmem (hcase ▸ hretires.provider)
      exact absurd (habsent.symm.trans hmember) Bool.false_ne_true
  have hinsertions : (r.retired p ps provider tags baseline).selector.stats.filterInsertions =
      r.selector.stats.filterInsertions + 1 := by
    rw [h.filterInsertions_retired, if_pos ⟨hwrong, habsent⟩]
  have hcorrelatorWrong :
      (r.retired p ps provider tags baseline).selector.stats.correlatorWrong =
        r.selector.stats.correlatorWrong + 1 := by
    rw [correlatorWrong_retired, if_pos ⟨hprovider, hwrong⟩]
  have hbehind := queued.waiting_retired_le hretires .correlator
  refine ⟨h.epoch, h.mode, h.members_retired queued ordered hretires, ?_, ?_, ?_, ?_⟩
  · rw [hinsertions, hcorrelatorWrong]
    exact Nat.succ_le_succ h.insertions_le
  · -- Whatever waits behind may be owed now, and the insertion allows for all of it.
    rw [hinsertions, hcorrelatorWrong, Nat.mul_succ]
    have hpaid := hbehind fun branch =>
      (r.retired p ps provider tags baseline).selector.filter.contains branch.pc
    have howed := h.wrong_le
    show _ ≤ (r.resolveDelay + 1) * _ + (r.resolveDelay + 1)
    omega
  · intro pc hpc
    -- An address that is not a member now was none before, and is not the one that entered.
    have hbefore : r.selector.filter.contains pc = false := by
      refine Bool.eq_false_iff.2 fun hmember => ?_
      exact Bool.false_ne_true (hpc.symm.trans (Selector.contains_filterAfter hmember _ _))
    rw [countP_wrongAt_resolution, h.absent pc hbefore, if_neg]
    rintro ⟨-, -, rfl⟩
    have hentered : r.selector.filterAfter p.branch.pc (p.direction == p.branch.taken) =
        r.selector.filterAfter p.branch.pc false := by rw [hwrong]
    have hmember := (Selector.receptive_of_epoch h.epoch).contains_filterAfter_wrong p.branch.pc
    rw [← hentered] at hmember
    exact Bool.false_ne_true (hpc.symm.trans hmember)
  · intro pc _
    rw [countP_wrongAt_resolution]
    show _ ≤ r.resolveDelay + 1
    have hpaid := hbehind fun branch => branch.pc == pc
    cases hbefore : r.selector.filter.contains pc with
    | false =>
      rw [h.absent pc hbefore]
      split <;> omega
    | true =>
      -- The account of another member is not touched.
      have hother : ¬ p.branch.pc = pc := by
        rintro rfl
        exact Bool.false_ne_true (habsent.symm.trans hbefore)
      have hpresent := h.present pc hbefore
      rw [queued.waiting_retired ordered hretires] at hpresent
      rw [if_neg fun hcharge => hother hcharge.2.2]
      omega

theorem Charged.retired (h : r.Charged settled) (queued : r.Queued C done)
    (ordered : Ordered done) (hretires : r.Retires p ps provider tags baseline) :
    (r.retired p ps provider tags baseline).Charged
      (settled ++ [r.selector.resolution p.branch.ident provider tags p.branch.pc p.direction
        p.branch.taken]) := by
  by_cases hinserted : (p.direction == p.branch.taken) = false ∧
      r.selector.filter.contains p.branch.pc = false
  · exact h.retired_of_inserted queued ordered hretires hinserted.1 hinserted.2
  · refine h.retired_of_unchanged queued ordered hretires fun hwrong => ?_
    exact Bool.eq_true_of_not_eq_false fun habsent => hinserted ⟨hwrong, habsent⟩

/-- A record that is fetched only changes nothing in the account. -/
theorem Charged.passed (h : r.Charged settled) : (r.passed branch).Charged settled :=
  ⟨h.epoch, h.mode, h.members, h.insertions_le, h.wrong_le, h.absent, h.present⟩

/-- The account holds wherever a replay may be found. -/
theorem Reaches.charged {s : Selector β} {delay : Nat}
    (h : Reaches (start s delay) done settled r) (ordered : Ordered done) (hs : s.setup.Coherent C)
    (hmode : s.config.arbiter.mode ≠ .rawStrength) : r.Charged settled := by
  refine (h.induction (P := fun _ settled r => r.Charged settled) ordered hs
    (charged_start hmode delay) ?_ ?_ ?_).2
  · exact fun queued ordered _ _ h => h.launched queued ordered
  · exact fun _ _ _ h => h.passed
  · exact fun queued ordered hretires h => h.retired queued ordered hretires

/-- What the account implies holds with the delay that the replay was started with. -/
theorem Reaches.insertionBounds {s : Selector β} {delay : Nat}
    (h : Reaches (start s delay) done settled r) (ordered : Ordered done) (hs : s.setup.Coherent C)
    (hmode : s.config.arbiter.mode ≠ .rawStrength) :
    InsertionBounds delay r.selector.stats ∧
      ∀ pc, settled.countP (Resolution.wrongAt pc) ≤ delay + 1 := by
  have hcharged := h.charged ordered hs hmode
  have hdelay := h.resolveDelay_eq ordered hs
  rw [← hdelay]
  exact ⟨hcharged.bounds, hcharged.wrongAt_le⟩

/-- The resolution of a wrong prediction of the baseline leaves the filter as it is. -/
theorem Charged.filter_eq (h : r.Charged settled) (queued : r.Queued C done)
    (hpending : r.pending = p :: ps) {resolution : Resolution} {selector : Selector β}
    (hresolve : r.selector.resolve p.branch.seqNo p.branch.piece p.branch.pc p.direction
      p.branch.taken p.branch.nextPc = .ok (resolution, selector))
    (hprovider : resolution.provider = .baseline) :
    selector.filter = r.selector.filter := by
  obtain ⟨provider, tags, baseline, hretires, rfl, rfl⟩ :=
    exists_retires_of_resolve queued.coherent hpending hresolve
  obtain rfl : provider = .baseline := hprovider
  have hmem : p ∈ r.pending := hpending ▸ List.mem_cons_self
  exact Selector.filterAfter_of_contains (h.members p hmem hretires.provider) _

/-- Where membership selects, of records in order and with any baseline. After the records and
at the end, unless the baseline stops the replay: insertions and mispredictions of the
correlator bound each other, and no address is mispredicted by the correlator more often than
the delay and once. The same holds wherever the replay may be found, and from there the
resolution of a wrong prediction of the baseline leaves the filter as it is.

The provider is read off the resolutions, which are those of the first predictions in their order,
and of all of them at the end. Each is counted for the provider that its prediction followed, and is
wrong if the direction that was predicted is. -/
theorem insertionBounds_of_run {config : Config} {baseline : β} {s : Selector β}
    (created : Selector.create config baseline = .ok s)
    (mode : config.arbiter.mode = .bloom ∨ config.arbiter.mode = .oracle)
    {records : List Branch} (ordered : Ordered records) (delay : Nat) :
    Ends ((start s delay).run records)
      (fun (feds, r) =>
        InsertionBounds delay r.selector.stats ∧
        (∀ pc, (feds.flatMap Fed.resolutions).countP (Resolution.wrongAt pc) ≤ delay + 1) ∧
        (∃ served, served <+: feds.filterMap Fed.prediction ∧
          List.Forall₂ Prediction.ResolvedAs served (feds.flatMap Fed.resolutions)) ∧
        Ends r.drain
          (fun (last, drained) =>
            InsertionBounds delay drained.selector.stats ∧
            (∀ pc, (feds.flatMap Fed.resolutions ++ last).countP (Resolution.wrongAt pc) ≤
              delay + 1) ∧
            List.Forall₂ Prediction.ResolvedAs (feds.filterMap Fed.prediction)
              (feds.flatMap Fed.resolutions ++ last))
          (Baseline.Refuses β) ∧
        Ends r.finish (fun (stats, _, _) => InsertionBounds delay stats) (Baseline.Refuses β))
      (Baseline.Refuses β) ∧
    ∀ done settled r, Reaches (start s delay) done settled r → Ordered done →
      InsertionBounds delay r.selector.stats ∧
      (∀ pc, settled.countP (Resolution.wrongAt pc) ≤ delay + 1) ∧
      ∀ p ps resolution selector, r.pending = p :: ps →
        r.selector.resolve p.branch.seqNo p.branch.piece p.branch.pc p.direction p.branch.taken
          p.branch.nextPc = .ok (resolution, selector) →
        resolution.provider = .baseline → resolution.mispredicted = true →
          selector.filter = r.selector.filter := by
  obtain ⟨valid, rfl⟩ := Selector.create_eq_ok created
  have hs : (Selector.ofConfig config baseline).setup.Coherent (Baseline.anyContract β) :=
    (Selector.coherent_ofConfig valid trivial).setup
  have hmode : config.arbiter.mode ≠ .rawStrength := by
    rcases mode with hbloom | horacle
    · simp [hbloom]
    · simp [horacle]
  constructor
  · refine (Reaches.refl.run_ends hs ordered (Nat.zero_le _)).with_eq.mono ?_
    rintro ⟨feds, r⟩ ⟨hrun, hreaches, -⟩
    obtain ⟨⟨served, awaited, hpredictions, hserved⟩, hall⟩ := answered_of_run valid baseline hrun
    have hdrains := hreaches.drain_ends ordered hs
    obtain ⟨hbounds, hwrong⟩ := hreaches.insertionBounds ordered hs hmode
    refine ⟨hbounds, hwrong, ⟨served, ⟨awaited, hpredictions.symm⟩, ?_⟩, ?_, ?_⟩
    · exact hserved.imp fun _ _ hanswered => hanswered.resolvedAs
    · refine hdrains.with_eq.mono ?_
      rintro ⟨last, drained⟩ ⟨hdrain, hlast, -⟩
      obtain ⟨hbounds, hwrong⟩ := hlast.insertionBounds ordered hs hmode
      exact ⟨hbounds, hwrong, (hall hdrain).imp fun _ _ hanswered => hanswered.resolvedAs⟩
    · refine hdrains.bind fun last hlast => .of_eq_ok rfl ?_
      exact (hlast.1.insertionBounds ordered hs hmode).1
  · intro done settled r hreaches hdone
    obtain ⟨hbounds, hwrong⟩ := hreaches.insertionBounds hdone hs hmode
    refine ⟨hbounds, hwrong, ?_⟩
    intro p ps resolution selector hpending hresolve hprovider _
    exact (hreaches.charged hdone hs hmode).filter_eq (hreaches.queued hdone hs) hpending
      hresolve hprovider

/-- With one branch waiting, of which one is mispredicted by the correlator. -/
theorem insertionBounds_of_run_shortTrace :
    ∃ feds r,
      (start (Selector.ofConfig { arbiter.mode := .oracle } (Static.always false)) 1).run
        shortTrace = .ok (feds, r) ∧ InsertionBounds 1 r.selector.stats ∧
      ∃ served, served <+: feds.filterMap Fed.prediction ∧
        List.Forall₂ Prediction.ResolvedAs served (feds.flatMap Fed.resolutions) := by
  have hcreated : Selector.create { arbiter.mode := .oracle } (Static.always false) =
      .ok (Selector.ofConfig { arbiter.mode := .oracle } (Static.always false)) := rfl
  have hanswers : ((start (Selector.ofConfig { arbiter.mode := .oracle } (Static.always false))
      1).run shortTrace).isOk = true := by decide +kernel
  obtain ⟨⟨feds, r⟩, hrun⟩ := exists_eq_ok_of_isOk hanswers
  obtain ⟨hruns, -⟩ := insertionBounds_of_run hcreated (.inr rfl) ordered_shortTrace 1
  obtain ⟨hbounds, -, hresolved, -⟩ := hruns.of_ok hrun
  exact ⟨feds, r, hrun, hbounds, hresolved⟩

end Replay

end BranchSelector
