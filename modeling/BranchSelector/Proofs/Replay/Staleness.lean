import BranchSelector.Proofs.Correlator.Drift
import BranchSelector.Proofs.Replay.Course

/-!
# How stale a vote is when its branch resolves

A replay trains on a branch some time after it has predicted it, and judges the vote of that time.
What is trained in between are the branches that were waiting already when the branch was
predicted. They resolve before it, and there are no more of them than the delay allows. So the
slack of a waiting branch, the number of trainings that its vote may have drifted by, is bounded
by its place in the queue: the delay for the oldest branch, and one less for each branch ahead
(`Replay.Abreast`). A branch that resolves moves those behind it up by one place and their votes
by one training.

No order of the records is needed. A replay that is answered has no two branches with one key
waiting, as the second of them would have been refused.
-/

namespace BranchSelector

open Branch

namespace Replay

variable {β : Type}

/-- A resolution answers a prediction: it is of the same branch and went the way that was
predicted, and the vote that was judged is near the one that was predicted with. -/
structure Answered (knobs delay : Nat) (prediction : Prediction) (resolution : Resolution) :
    Prop where
  key : resolution.key = prediction.key
  pc : resolution.pc = prediction.pc
  provider : resolution.provider = prediction.provider
  predicted : resolution.predicted = prediction.direction
  drift : (resolution.training.sum - prediction.raw).natAbs ≤ delay * knobs
  /-- Without a delay, what the correlator has predicted is wrong where its vote is. -/
  correct : delay = 0 → resolution.provider = .correlator →
    (resolution.mispredicted = true ↔ resolution.training.correct = false)

/-- A waiting branch has the prediction that it was launched with, and the vote on its tags has
drifted since by no more than `slack` trainings account for. -/
structure Awaited (knobs slack : Nat) (s : Selector β) (p : Pending) (prediction : Prediction) :
    Prop where
  key : prediction.key = p.branch.ident
  pc : prediction.pc = p.branch.pc
  direction : p.direction = prediction.direction
  vote : prediction.correlatorVote = Correlator.favours prediction.raw
  provider : s.inFlight[p.branch.ident]? = some prediction.provider
  drift : ∃ tags, s.correlator.checkpoints[p.branch.ident]? = some tags ∧
    (s.correlator.vote tags - prediction.raw).natAbs ≤ knobs * slack

/-- Waiting branches and their predictions, side by side. The oldest has less slack than is said,
and every one has less than the one ahead of it. -/
inductive Abreast (knobs : Nat) (s : Selector β) : Nat → List Pending → List Prediction → Prop
  | nil {slack : Nat} : Abreast knobs s slack [] []
  | cons {slack : Nat} {p : Pending} {ps : List Pending} {prediction : Prediction}
      {predictions : List Prediction} :
    Awaited knobs slack s p prediction → Abreast knobs s slack ps predictions →
      Abreast knobs s (slack + 1) (p :: ps) (prediction :: predictions)

section Queue

variable {knobs slack : Nat} {s s' : Selector β} {ps : List Pending}
  {predictions : List Prediction}

/-- What happens to every waiting branch alike happens to the queue. -/
theorem Abreast.imp (h : Abreast knobs s slack ps predictions) (more : Nat)
    (himp : ∀ {slack : Nat} {p : Pending} {prediction : Prediction}, p ∈ ps →
      Awaited knobs slack s p prediction → Awaited knobs (slack + more) s' p prediction) :
    Abreast knobs s' (slack + more) ps predictions := by
  induction h with
  | nil => exact .nil
  | @cons slack p ps prediction predictions hp _ ih =>
    rw [Nat.add_right_comm]
    exact .cons (himp List.mem_cons_self hp) (ih fun hq => himp (List.mem_cons_of_mem p hq))

/-- A branch that is launched has no drift yet, and may wait wherever there is slack left. -/
theorem Abreast.concat (h : Abreast knobs s slack ps predictions) (hroom : ps.length < slack)
    {p : Pending} {prediction : Prediction} (hp : ∀ slack, Awaited knobs slack s p prediction) :
    Abreast knobs s slack (ps ++ [p]) (predictions ++ [prediction]) := by
  induction h with
  | @nil slack =>
    obtain ⟨slack, rfl⟩ := Nat.exists_eq_add_one.2 hroom
    exact .cons (hp slack) .nil
  | cons hq _ ih => exact .cons hq (ih (Nat.lt_of_succ_lt_succ hroom))

/-- Branches that wait are in flight. -/
theorem Abreast.live (h : Abreast knobs s slack ps predictions) {p : Pending} (hp : p ∈ ps) :
    p.branch.ident ∈ s.inFlight := by
  induction h with
  | nil => cases hp
  | cons hq _ ih =>
    rcases List.mem_cons.1 hp with rfl | hp
    · exact Std.ExtTreeMap.mem_iff_isSome_getElem?.2 (Option.isSome_iff_exists.2 ⟨_, hq.provider⟩)
    · exact ih hp

end Queue

variable [Baseline β] {C : Baseline.Contract β}

/-! ## Moves -/

section Moves

variable {knobs slack delay : Nat} {r : Replay β} {branch : Branch} {p q : Pending}
  {ps : List Pending} {provider : Provider} {tags : List UInt64} {baseline : β}
  {prediction : Prediction}

/-- Another branch is launched: its tags are touched, which moves no vote. -/
theorem Awaited.launched (h : Awaited knobs slack r.selector q prediction)
    (hne : branch.ident ≠ q.branch.ident) :
    Awaited knobs slack (r.launched branch).selector q prediction where
  key := h.key
  pc := h.pc
  direction := h.direction
  vote := h.vote
  provider := by
    show (r.selector.inFlight.insert branch.ident _)[q.branch.ident]? = _
    rw [getElem?_insert_of_ne hne]
    exact h.provider
  drift := by
    obtain ⟨tags, htags, hdrift⟩ := h.drift
    refine ⟨tags, ?_, ?_⟩
    · show (r.selector.correlator.checkpoints.insert branch.ident _)[q.branch.ident]? = _
      rw [getElem?_insert_of_ne hne]
      exact htags
    · have hvote : (r.launched branch).selector.correlator.vote tags =
          r.selector.correlator.vote tags := r.selector.correlator.vote_touch _ tags
      rw [hvote]
      exact hdrift

/-- A branch that is launched was predicted with the vote on its tags. -/
theorem awaited_launched (knobs slack : Nat) (r : Replay β) (branch : Branch) :
    Awaited knobs slack (r.launched branch).selector
      ⟨branch, (r.selector.prediction branch.ident branch.pc).direction⟩
      (r.selector.prediction branch.ident branch.pc) where
  key := rfl
  pc := rfl
  direction := rfl
  vote := rfl
  provider := Std.ExtTreeMap.getElem?_insert_self
  drift := by
    refine ⟨r.selector.tags, Std.ExtTreeMap.getElem?_insert_self, ?_⟩
    have hvote : (r.launched branch).selector.correlator.vote r.selector.tags =
        r.selector.correlator.vote r.selector.tags := r.selector.correlator.vote_touch _ _
    rw [hvote]
    show (r.selector.correlator.vote r.selector.tags -
      r.selector.correlator.vote r.selector.tags).natAbs ≤ _
    rw [Int.sub_self]
    exact Nat.zero_le _

/-- Another branch is only fetched, which leaves the correlator alone. -/
theorem Awaited.passed (h : Awaited knobs slack r.selector q prediction) (branch : Branch) :
    Awaited knobs slack (r.passed branch).selector q prediction :=
  ⟨h.key, h.pc, h.direction, h.vote, h.provider, h.drift⟩

/-- Another branch resolves: the vote moves by one training at most. -/
theorem Awaited.retired
    (h : Awaited r.selector.config.correlator.enabledFeatures slack r.selector q prediction)
    (coherent : r.selector.Coherent C) (range : r.selector.correlator.InRange)
    (hretires : r.Retires p ps provider tags baseline) (hne : p.branch.ident ≠ q.branch.ident) :
    Awaited r.selector.config.correlator.enabledFeatures (slack + 1)
      (r.retired p ps provider tags baseline).selector q prediction where
  key := h.key
  pc := h.pc
  direction := h.direction
  vote := h.vote
  provider := by
    show (r.selector.inFlight.erase p.branch.ident)[q.branch.ident]? = _
    rw [getElem?_erase_of_ne hne]
    exact h.provider
  drift := by
    obtain ⟨others, hothers, hdrift⟩ := h.drift
    refine ⟨others, ?_, ?_⟩
    · show (r.selector.correlator.checkpoints.erase p.branch.ident)[q.branch.ident]? = _
      rw [getElem?_erase_of_ne hne]
      exact hothers
    · have hmoved := range.natAbs_vote_learned_sub_le coherent.correlator p.branch.taken
        (coherent.correlator.touched hretires.tags) others
      show ((r.selector.correlator.learned p.branch.taken tags).vote others -
        prediction.raw).natAbs ≤ _
      rw [Nat.mul_add, Nat.mul_one]
      split at hmoved <;> omega

/-- The oldest branch resolves, and its slack is the delay. -/
theorem Awaited.answered (h : Awaited knobs delay r.selector p prediction)
    (hretires : r.Retires p ps provider tags baseline) :
    Answered knobs delay prediction
      (r.selector.resolution p.branch.ident provider tags p.branch.pc p.direction
        p.branch.taken) := by
  obtain ⟨others, hothers, hdrift⟩ := h.drift
  obtain rfl : others = tags := Option.some.inj (hothers.symm.trans hretires.tags)
  obtain rfl : prediction.provider = provider :=
    Option.some.inj (h.provider.symm.trans hretires.provider)
  refine ⟨h.key.symm, h.pc.symm, rfl, h.direction, ?_, fun hdelay hprovider => ?_⟩
  · rw [Nat.mul_comm]
    exact hdrift
  · -- Without a delay the vote has not moved, and is what the prediction followed.
    rw [hdelay, Nat.mul_zero] at hdrift
    have hvote : r.selector.correlator.vote others = prediction.raw := by omega
    have hfollowed : prediction.provider = .correlator := hprovider
    have hdirection : p.direction = Correlator.favours (r.selector.correlator.vote others) := by
      rw [h.direction, Prediction.direction, hfollowed, hvote]
      exact h.vote
    show (p.direction != p.branch.taken) = true ↔
      (p.branch.taken == Correlator.favours (r.selector.correlator.vote others)) = false
    rw [← hdirection]
    cases p.direction <;> cases p.branch.taken <;> decide

end Moves

/-! ## Runs -/

/-- The predictions so far, of which the first have been answered and the others are awaited by
the branches in the queue. -/
structure Stale (config : Config) (delay : Nat) (predictions : List Prediction)
    (settled : List Resolution) (r : Replay β) : Prop where
  config_eq : r.selector.config = config
  delay_eq : r.resolveDelay = delay
  range : r.selector.correlator.InRange
  distinct : r.pending.Pairwise fun p q => p.branch.ident ≠ q.branch.ident
  queue : ∃ served awaited, predictions = served ++ awaited ∧
    List.Forall₂ (Answered config.correlator.enabledFeatures delay) served settled ∧
    Abreast config.correlator.enabledFeatures r.selector (delay + 1) r.pending awaited

section Runs

variable {config : Config} {delay : Nat} {predictions : List Prediction}
  {settled : List Resolution} {r : Replay β} {branch : Branch}

theorem stale_start (valid : config.Valid) (baseline : β) (delay : Nat) :
    Stale config delay [] [] (start (Selector.ofConfig config baseline) delay) where
  config_eq := rfl
  delay_eq := rfl
  range := by
    show (Correlator.ofConfig config.correlator).reset.InRange
    rw [Correlator.reset_ofConfig]
    exact Correlator.inRange_ofConfig valid.trainingCounterBits.1
  distinct := .nil
  queue := ⟨[], [], rfl, .nil, .nil⟩

theorem Stale.launched (h : Stale config delay predictions settled r)
    (idle : branch.ident ∉ r.selector.inFlight) (hroom : r.pending.length ≤ r.resolveDelay) :
    Stale config delay (predictions ++ [r.selector.prediction branch.ident branch.pc]) settled
      (r.launched branch) := by
  obtain ⟨served, awaited, hpredictions, hserved, hawaited⟩ := h.queue
  have hne : ∀ q ∈ r.pending, branch.ident ≠ q.branch.ident := fun q hq hsame =>
    idle (hsame ▸ hawaited.live hq)
  refine ⟨h.config_eq, h.delay_eq, h.range.checkpointed _ _, ?_, ?_⟩
  · refine List.pairwise_append.2 ⟨h.distinct, List.pairwise_singleton _ _, ?_⟩
    intro q hq other hother
    rw [List.mem_singleton.1 hother]
    exact (hne q hq).symm
  · refine ⟨served, _, by rw [hpredictions, List.append_assoc], hserved, ?_⟩
    refine (hawaited.imp 0 fun hq hawait => hawait.launched (hne _ hq)).concat ?_
      fun slack => awaited_launched _ slack r branch
    exact Nat.lt_succ_of_le (h.delay_eq ▸ hroom)

theorem Stale.passed (h : Stale config delay predictions settled r) (branch : Branch) :
    Stale config delay predictions settled (r.passed branch) := by
  obtain ⟨served, awaited, hpredictions, hserved, hawaited⟩ := h.queue
  exact ⟨h.config_eq, h.delay_eq, h.range, h.distinct, served, awaited, hpredictions, hserved,
    hawaited.imp 0 fun _ hawait => hawait.passed branch⟩

theorem Stale.retired (h : Stale config delay predictions settled r) (valid : config.Valid)
    (coherent : r.selector.Coherent C) {p : Pending} {ps : List Pending} {provider : Provider}
    {tags : List UInt64} {baseline : β} (hretires : r.Retires p ps provider tags baseline) :
    Stale config delay predictions
      (settled ++ [r.selector.resolution p.branch.ident provider tags p.branch.pc p.direction
        p.branch.taken])
      (r.retired p ps provider tags baseline) := by
  obtain ⟨served, awaited, hpredictions, hserved, hawaited⟩ := h.queue
  have hdistinct := h.distinct
  rw [hretires.pending] at hawaited hdistinct
  obtain ⟨hne, hrest⟩ := List.pairwise_cons.1 hdistinct
  have hbits : 2 ≤ r.selector.correlator.threshold.bits := by
    rw [coherent.correlator.bits, h.config_eq]
    exact valid.trainingCounterBits.1
  cases hawaited with
  | @cons _ _ _ prediction rest hp hps =>
    refine ⟨h.config_eq, h.delay_eq, (h.range.learned hbits _ _).forget _, hrest, ?_⟩
    refine ⟨served ++ [prediction], rest, ?_, ?_, ?_⟩
    · rw [hpredictions, List.append_assoc, List.singleton_append]
    · exact List.rel_append hserved (.cons (hp.answered hretires) .nil)
    · rw [← h.config_eq] at hps ⊢
      exact hps.imp 1 fun hq hawait => hawait.retired coherent h.range hretires (hne _ hq)

/-- Wherever a replay may be found, its predictions are answered or awaited. -/
theorem Course.stale {fetched : List (Branch × Option Prediction)} (valid : config.Valid)
    {baseline : β}
    (h : Course (start (Selector.ofConfig config baseline) delay) fetched settled r)
    (hs : (Selector.ofConfig config baseline).setup.Coherent C) :
    Stale config delay (fetched.filterMap Prod.snd) settled r := by
  refine (h.induction_of_coherent
    (P := fun fetched settled r => Stale config delay (fetched.filterMap Prod.snd) settled r)
    hs (stale_start valid baseline delay) ?_ ?_ ?_).2
  · intro fetched settled r branch _ idle hroom _ ih
    rw [List.filterMap_append]
    exact ih.launched idle hroom
  · intro fetched settled r branch _ _ ih
    rw [List.filterMap_append, List.filterMap_cons_none rfl, List.filterMap_nil, List.append_nil]
    exact ih.passed branch
  · intro fetched settled r p ps provider tags baseline coherent hretires ih
    exact ih.retired valid coherent hretires

omit [Baseline β] in
/-- Once no branch waits, every prediction is answered. -/
theorem Stale.answered (h : Stale config delay predictions settled r) (hpending : r.pending = []) :
    List.Forall₂ (Answered config.correlator.enabledFeatures delay) predictions settled := by
  obtain ⟨served, awaited, hpredictions, hserved, hawaited⟩ := h.queue
  rw [hpending] at hawaited
  cases hawaited with
  | nil =>
    rw [hpredictions, List.append_nil]
    exact hserved

/-- The predictions of a run are those that its records were given. -/
theorem filterMap_zip_prediction {records : List Branch} {feds : List Fed}
    (hlength : feds.length = records.length) :
    (records.zip (feds.map Fed.prediction)).filterMap Prod.snd = feds.filterMap Fed.prediction := by
  have hsnd : (records.zip (feds.map Fed.prediction)).map Prod.snd = feds.map Fed.prediction :=
    List.map_snd_zip (by rw [List.length_map, hlength])
  have hpredictions := congrArg (List.filterMap id) hsnd
  rw [List.filterMap_map, List.filterMap_map] at hpredictions
  exact hpredictions

/-- In a run, the first predictions are answered by the resolutions so far, and draining it answers
the others. -/
theorem answered_of_run (valid : config.Valid) (baseline : β) {records : List Branch}
    {feds : List Fed}
    (hrun : (start (Selector.ofConfig config baseline) delay).run records = .ok (feds, r)) :
    (∃ served awaited, feds.filterMap Fed.prediction = served ++ awaited ∧
      List.Forall₂ (Answered config.correlator.enabledFeatures delay) served
        (feds.flatMap Fed.resolutions)) ∧
    ∀ {last : List Resolution} {r' : Replay β}, r.drain = .ok (last, r') →
      List.Forall₂ (Answered config.correlator.enabledFeatures delay)
        (feds.filterMap Fed.prediction) (feds.flatMap Fed.resolutions ++ last) := by
  have hs : (Selector.ofConfig config baseline).setup.Coherent (Baseline.anyContract β) :=
    (Selector.coherent_ofConfig valid trivial).setup
  obtain ⟨hcourse, hlength⟩ := Course.refl.run (Nat.zero_le _) hrun
  rw [List.nil_append, List.nil_append] at hcourse
  have hfetched := filterMap_zip_prediction hlength
  constructor
  · obtain ⟨served, awaited, hpredictions, hserved, -⟩ := (hcourse.stale valid hs).queue
    exact ⟨served, awaited, hfetched ▸ hpredictions, hserved⟩
  · intro last r' hdrain
    obtain ⟨hlast, hempty, -⟩ := hcourse.settleDown hdrain
    have hanswered :=
      (hlast.stale valid hs).answered (List.length_eq_zero_iff.1 (Nat.le_zero.1 hempty))
    rw [hfetched] at hanswered
    exact hanswered

/-- After any calls of a correlator with a valid configuration, an update judges a vote that
differs from the one at the latest prediction of its branch by no more than one for each knob that
votes and each update since that has trained. Whatever else was called since, the two are the same
if none has.

In a replay of any records around any baseline, the resolutions answer the predictions in their
order: the first ones as far as the branches have resolved, and all of them once the replay is
drained. The vote that is judged then differs from the predicted one by no more than the delay
times the number of knobs that vote. Without a delay, a prediction that followed the correlator was
wrong if and only if the update finds the vote wrong. -/
theorem staleness_of_run (valid : config.Valid) (baseline : β) (delay : Nat) :
    (∀ {calls : List Correlator.Call} {replies : List Correlator.Reply} {c c' : Correlator}
        {taken : Bool} {key : BranchKey} {training : Training},
      (Correlator.ofConfig config.correlator).applyAll calls = .ok (replies, c) →
      c.update taken key = .ok (training, c') →
      ∃ tags c₀ later, Correlator.Since config.correlator calls replies key tags c₀ later ∧
        (training.sum - c₀.vote tags).natAbs ≤
          config.correlator.enabledFeatures * later.countP Correlator.Reply.trains ∧
        ((∀ reply ∈ later, reply.trains = false) → training.sum = c₀.vote tags)) ∧
    ∀ {records : List Branch} {feds : List Fed} {r : Replay β},
      (start (Selector.ofConfig config baseline) delay).run records = .ok (feds, r) →
      (∃ served awaited, feds.filterMap Fed.prediction = served ++ awaited ∧
        List.Forall₂ (Answered config.correlator.enabledFeatures delay) served
          (feds.flatMap Fed.resolutions)) ∧
      ∀ {last : List Resolution} {r' : Replay β}, r.drain = .ok (last, r') →
        List.Forall₂ (Answered config.correlator.enabledFeatures delay)
          (feds.filterMap Fed.prediction) (feds.flatMap Fed.resolutions ++ last) := by
  have width := foldable_of_valid valid
  exact ⟨fun hrun hupdate => Correlator.drift_of_update width valid.trainingCounterBits.1 hrun
    hupdate, fun hrun => answered_of_run valid baseline hrun⟩

/-- Two branches with the same tags, of which the later one has resolved. -/
def sharedTags (earlier later : BranchKey) : List Correlator.Call :=
  [.predict (List.replicate Knob.count 9) earlier, .predict (List.replicate Knob.count 9) later,
    .update false later]

/-- The one training moves the vote of the earlier branch by all of the six knobs. -/
theorem staleness_of_run_shortTrace :
    ({} : Config).Valid ∧
      (∃ replies c training c',
        (Correlator.ofConfig {}).applyAll (sharedTags ⟨1, 0⟩ ⟨2, 0⟩) = .ok (replies, c) ∧
        c.update true ⟨1, 0⟩ = .ok (training, c') ∧ training.sum = -6 ∧
        ∃ tags c₀ later,
          Correlator.Since {} (sharedTags ⟨1, 0⟩ ⟨2, 0⟩) replies ⟨1, 0⟩ tags c₀ later ∧
          (training.sum - c₀.vote tags).natAbs ≤ 6 * later.countP Correlator.Reply.trains) ∧
      ∃ feds r last r',
        (start (Selector.ofConfig {} (Gshare.fresh 4)) 1).run shortTrace = .ok (feds, r) ∧
        r.drain = .ok (last, r') ∧
        List.Forall₂ (Answered 6 1) (feds.filterMap Fed.prediction)
          (feds.flatMap Fed.resolutions ++ last) := by
  have valid : ({} : Config).Valid := Config.validate_eq_ok_iff.1 rfl
  obtain ⟨hcalls, hreplay⟩ := staleness_of_run valid (Gshare.fresh 4) 1
  refine ⟨valid, ?_, ?_⟩
  · have hanswers : ((Correlator.ofConfig {}).applyAll (sharedTags ⟨1, 0⟩ ⟨2, 0⟩) >>= fun answer =>
        (answer.2.update true ⟨1, 0⟩).map fun answer => answer.1.sum) = .ok (-6) := by
      decide +kernel
    obtain ⟨⟨replies, c⟩, hrun, hlater⟩ := bind_eq_ok_iff.1 hanswers
    obtain ⟨⟨training, c'⟩, hupdate, hsum⟩ := map_eq_ok_iff.1 hlater
    obtain ⟨tags, c₀, later, hsince, hdrift, -⟩ := hcalls hrun hupdate
    exact ⟨replies, c, training, c', hrun, hupdate, hsum, tags, c₀, later, hsince, hdrift⟩
  · have hanswers : ((start (Selector.ofConfig {} (Gshare.fresh 4)) 1).run shortTrace >>=
        fun answer => answer.2.drain).isOk = true := by decide +kernel
    obtain ⟨⟨last, r'⟩, hall⟩ := exists_eq_ok_of_isOk hanswers
    obtain ⟨⟨feds, r⟩, hrun, hdrain⟩ := bind_eq_ok_iff.1 hall
    exact ⟨feds, r, last, r', hrun, hdrain, (hreplay hrun).2 hdrain⟩

end Runs

end Replay

end BranchSelector
