import BranchSelector.Proofs.Correlator.History
import BranchSelector.Proofs.Correlator.Lead
import Mathlib.Logic.Function.Iterate

/-!
# Training comes to rest

A branch is predicted with the same tags round after round, and goes the same way every time. If
confident votes leave the weights alone, the correlator learns from finitely many of these rounds
only (`settles_of_run`).

What is still to come is measured by `Correlator.unrest`: how far the vote is from its end, how
high theta is and where the training counter stands. A vote that is wrong or zero can drive theta
and the counter up, but it is not at its end, and moves on; a weak one drains the counter, and
theta with it. So the measure goes down in every round (`InRange.unrest_learned_lt`) until the vote
is confident, and then nothing moves any more (`Settled.drill_eq`).
-/

namespace BranchSelector

/-! ## The threshold -/

namespace Threshold

/-- How much a threshold can still move by weak votes. -/
def unrest (t : Threshold) : Nat :=
  t.theta.toNat * limit t.bits + t.counter

/-- No vote stirs a threshold up by more than two rounds of its counter. -/
theorem unrest_update_le {t : Threshold} (hbits : 2 ≤ t.bits) (correct : Bool) (sum : Int) :
    (t.update correct sum).1.unrest ≤ t.unrest + 2 * limit t.bits := by
  obtain ⟨-, hmid⟩ := inRange_midpoint hbits
  have hmove := t.move_update correct sum
  generalize t.update correct sum = after at hmove ⊢
  cases hmove with
  | up _ | down _ _ =>
    simp only [unrest]
    omega
  | raise _ =>
    have htheta : (min (t.theta + 1) wordMax).toNat ≤ t.theta.toNat + 1 := by omega
    have hround := Nat.mul_le_mul_right (limit t.bits) htheta
    rw [Nat.succ_mul] at hround
    simp only [unrest]
    omega
  | lower _ _ _ =>
    have htheta : (t.theta - 1).toNat ≤ t.theta.toNat := by omega
    have hround := Nat.mul_le_mul_right (limit t.bits) htheta
    simp only [unrest]
    omega
  | rest _ _ _ =>
    simp only [unrest]
    omega
  | strong _ => exact Nat.le_add_right _ _

/-- A weak vote that is not zero calms a threshold down. -/
theorem unrest_update_lt {t : Threshold} (h : t.InRange) (hbits : 2 ≤ t.bits) {sum : Int}
    (weak : magnitude sum ≤ t.theta) (hsum : 0 < magnitude sum) :
    (t.update true sum).1.unrest < t.unrest := by
  obtain ⟨hlow, -⟩ := h
  obtain ⟨-, hmid⟩ := inRange_midpoint hbits
  have hmove := t.move_update true sum
  generalize t.update true sum = after at hmove ⊢
  cases hmove with
  | down _ room =>
    simp only [unrest]
    omega
  | lower _ _ above =>
    have htheta : t.theta.toNat = (t.theta - 1).toNat + 1 := by omega
    simp only [unrest]
    rw [htheta, Nat.succ_mul]
    omega
  | rest _ _ floor => omega
  | strong strong => omega

end Threshold

namespace Correlator

/-! ## One round -/

/-- Predicts a branch and trains on the direction that it takes. -/
def drill (taken : Bool) (tags : List UInt64) (c : Correlator) : Correlator :=
  (c.touch tags).learned taken tags

/-- What is still to come. A step of the vote counts for more than all that it can stir up in the
threshold. -/
def unrest (config : CorrelatorConfig) (c : Correlator) (taken : Bool) (tags : List UInt64) : Nat :=
  c.gap config taken tags * (2 * Threshold.limit c.threshold.bits + 1) + c.threshold.unrest

/-- The vote is for a direction, and is stronger than theta. -/
def Confident (c : Correlator) (taken : Bool) (tags : List UInt64) : Prop :=
  (c.training taken tags).correct = true ∧ c.threshold.theta < Threshold.magnitude (c.vote tags)

section Votes

variable {config : CorrelatorConfig} {c : Correlator} {taken : Bool} {tags : List UInt64}

theorem trained_of_wrong (h : (c.training taken tags).correct = false) :
    (c.training taken tags).trained = true := by
  have hcorrect : (taken == favours (c.vote tags)) = false := h
  rw [training]
  simp [hcorrect]

/-- A vote of zero is never above theta. -/
theorem trained_of_zero (htheta : 0 ≤ c.threshold.theta)
    (h : Threshold.magnitude (c.vote tags) ≤ 0) : (c.training taken tags).trained = true := by
  have hafter := Threshold.theta_update_nonneg htheta (taken == favours (c.vote tags))
    (c.vote tags)
  have hweak := Int.not_lt.2 (Int.le_trans h hafter)
  simp [training, hweak]

/-- A confident vote is told apart and moves nothing. -/
theorem Confident.training_eq (h : c.Confident taken tags) (htheta : c.useTheta = true) :
    c.training taken tags = ⟨true, c.vote tags, false, none, c.threshold.theta⟩ := by
  obtain ⟨hcorrect, hstrong⟩ := h
  have hbeq : (taken == favours (c.vote tags)) = true := hcorrect
  rw [training, hbeq, Threshold.update_strong hstrong, htheta]
  simp [hstrong]

theorem Confident.learned_eq (h : c.Confident taken tags) (htheta : c.useTheta = true) :
    c.learned taken tags = c := by
  rw [learned, h.training_eq htheta, Threshold.update_strong h.2]
  rfl

theorem Confident.favours_eq (h : c.Confident taken tags) : favours (c.vote tags) = taken :=
  (eq_of_beq h.1).symm

end Votes

/-! ## Coming to rest -/

/-- A correlator on which further rounds leave no mark: the tags have entries, and the vote on them
is confident. -/
structure Settled (c : Correlator) (taken : Bool) (tags : List UInt64) : Prop where
  touched : TouchedAll c.tables tags
  confident : c.Confident taken tags

section Settled

variable {config : CorrelatorConfig} {c : Correlator} {taken : Bool} {tags : List UInt64}

theorem Settled.drill_eq (h : c.Settled taken tags) (htheta : c.useTheta = true) :
    c.drill taken tags = c := by
  have htouch : c.touch tags = c :=
    congrArg (fun tables => { c with tables }) h.touched.touchAll_eq
  rw [drill, htouch, h.confident.learned_eq htheta]

theorem unrest_touch (config : CorrelatorConfig) (c : Correlator) (taken : Bool)
    (tags : List UInt64) :
    unrest config (c.touch tags) taken tags = unrest config c taken tags := by
  rw [unrest, gap, lead, vote_touch]
  rfl

theorem Sound.drilled (sound : c.Sound config) (count : tags.length = Knob.count)
    (taken : Bool) : (c.drill taken tags).Sound config :=
  (sound.touch tags).learned (touchedAll_touchAll (count.trans sound.length.symm)) taken

end Settled

section Calm

variable {config : Config} {c : Correlator} {tags : List UInt64} (valid : config.Valid)
  (hvoters : 0 < config.correlator.enabledFeatures) (count : tags.length = Knob.count)

include valid hvoters count

/-- A round without a confident vote calms the correlator down. -/
theorem InRange.unrest_learned_lt (h : c.InRange) (sound : c.Sound config.correlator)
    {taken : Bool} (unsure : ¬ c.Confident taken tags) :
    unrest config.correlator (c.learned taken tags) taken tags <
      unrest config.correlator c taken tags := by
  have hbits : 2 ≤ c.threshold.bits := sound.bits.symm ▸ valid.trainingCounterBits.1
  have hgap := h.gap_learned_le sound valid.featureMask count taken
  have hstirs := Threshold.unrest_update_le hbits (c.training taken tags).correct (c.vote tags)
  have hlimit : (c.learned taken tags).threshold.bits = c.threshold.bits :=
    c.threshold.bits_update _ _
  -- A vote that is not for the direction moves, which makes up for what it stirs up.
  have hmoves : c.lead taken tags ≤ 0 → (c.training taken tags).trained = true →
      unrest config.correlator (c.learned taken tags) taken tags <
        unrest config.correlator c taken tags := by
    intro hlead htrained
    have hreach := reach_pos hvoters valid.counterBits.1 taken
    have hpos : 0 < c.gap config.correlator taken tags := by
      rw [gap]
      omega
    rw [htrained, if_pos rfl] at hgap
    have hstep : (c.learned taken tags).gap config.correlator taken tags + 1 ≤
        c.gap config.correlator taken tags := by omega
    have hweighs := Nat.mul_le_mul_right (2 * Threshold.limit c.threshold.bits + 1) hstep
    rw [Nat.succ_mul] at hweighs
    rw [unrest, unrest, hlimit]
    show _ + (c.threshold.update _ _).1.unrest < _
    omega
  cases hcorrect : (c.training taken tags).correct with
  | false => exact hmoves (lead_of_wrong hcorrect) (trained_of_wrong hcorrect)
  | true =>
    have hweak : Threshold.magnitude (c.vote tags) ≤ c.threshold.theta :=
      Int.not_lt.1 fun hstrong => unsure ⟨hcorrect, hstrong⟩
    by_cases hsum : 0 < Threshold.magnitude (c.vote tags)
    · -- A weak vote does not move back, and calms the threshold down.
      have hcalms := Threshold.unrest_update_lt h.counter hbits hweak hsum
      rw [← hcorrect] at hcalms
      have hstays := Nat.mul_le_mul_right (2 * Threshold.limit c.threshold.bits + 1)
        (Nat.le_trans hgap (Nat.sub_le _ _))
      rw [unrest, unrest, hlimit]
      show _ + (c.threshold.update _ _).1.unrest < _
      omega
    · have hzero : Threshold.magnitude (c.vote tags) ≤ 0 := Int.not_lt.1 hsum
      have htheta := Int.le_trans (Threshold.magnitude_nonneg (c.vote tags)) hweak
      exact hmoves (Int.le_of_eq (lead_of_zero hzero)) (trained_of_zero htheta hzero)

/-- Some number of rounds settles a correlator. -/
theorem InRange.exists_settled (h : c.InRange) (sound : c.Sound config.correlator)
    (htheta : config.correlator.useTheta = true) (taken : Bool) :
    ∃ rounds, Settled ((drill taken tags)^[rounds] c) taken tags := by
  induction hn : unrest config.correlator c taken tags using Nat.strongRecOn generalizing c with
  | ind n ih =>
    have htouch := sound.touch tags
    by_cases hsure : (c.touch tags).Confident taken tags
    · -- The round only gives the tags their entries.
      have hdrill : drill taken tags c = c.touch tags :=
        hsure.learned_eq (htouch.useTheta.trans htheta)
      refine ⟨1, ?_⟩
      rw [Function.iterate_one, hdrill]
      exact ⟨touchedAll_touchAll (count.trans sound.length.symm), hsure⟩
    · have hcalms := (h.touch tags).unrest_learned_lt valid hvoters count htouch hsure
      rw [unrest_touch, hn] at hcalms
      have hbits : 2 ≤ (c.touch tags).threshold.bits :=
        htouch.bits.symm ▸ valid.trainingCounterBits.1
      obtain ⟨rounds, hsettled⟩ := ih _ hcalms ((h.touch tags).learned hbits taken tags)
        (sound.drilled count taken) rfl
      exact ⟨rounds + 1, hsettled⟩

end Calm

/-! ## Rounds as calls -/

/-- A branch is predicted and resolves. -/
def round (taken : Bool) (tags : List UInt64) (key : BranchKey) : List Call :=
  [.predict tags key, .update taken key]

section Calls

variable {config : CorrelatorConfig} {c : Correlator} {tags : List UInt64}

/-- The update of a round consumes the checkpoint of its prediction. -/
theorem forget_learned_checkpointed {key : BranchKey} (idle : key ∉ c.checkpoints) (taken : Bool) :
    ((c.checkpointed tags key).learned taken tags).forget key = c.drill taken tags := by
  have hkept : (c.checkpoints.insert key tags).erase key = c.checkpoints := by
    apply Std.ExtTreeMap.ext_getElem?
    intro other
    rw [Std.ExtTreeMap.getElem?_erase, Std.ExtTreeMap.getElem?_insert]
    split
    case isTrue hsame =>
      rw [← Std.LawfulEqCmp.compare_eq_iff_eq.1 hsame, Std.ExtTreeMap.getElem?_eq_none idle]
    case isFalse => rfl
  exact congrArg (fun checkpoints => { c.drill taken tags with checkpoints }) hkept

theorem Sound.predict_update_eq (sound : c.Sound config) (width : Tag.Foldable config.foldedTagBits)
    (count : tags.length = Knob.count) {key : BranchKey} (idle : key ∉ c.checkpoints)
    (taken : Bool) :
    c.predict tags key = .ok (favours (c.vote tags), c.checkpointed tags key) ∧
      (c.checkpointed tags key).update taken key =
        .ok (c.training taken tags, c.drill taken tags) := by
  have live : (c.checkpointed tags key).checkpoints[key]? = some tags :=
    Std.ExtTreeMap.getElem?_insert_self
  have hupdate := (sound.checkpointed count key).update_eq live taken
  rw [forget_learned_checkpointed idle] at hupdate
  have htraining : (c.checkpointed tags key).training taken tags = c.training taken tags :=
    c.training_touch tags taken tags
  rw [htraining] at hupdate
  exact ⟨sound.predict_eq width count idle, hupdate⟩

/-- Rounds under keys without checkpoints are answered, and leave no checkpoint behind. -/
theorem Sound.applyAll_rounds (sound : c.Sound config) (width : Tag.Foldable config.foldedTagBits)
    (count : tags.length = Knob.count) (taken : Bool) {keys : List BranchKey}
    (idle : ∀ key ∈ keys, key ∉ c.checkpoints) :
    ∃ replies, c.applyAll (keys.flatMap (round taken tags)) =
      .ok (replies, (drill taken tags)^[keys.length] c) := by
  induction keys generalizing c with
  | nil => exact ⟨[], rfl⟩
  | cons key keys ih =>
    obtain ⟨hpredict, hupdate⟩ :=
      sound.predict_update_eq width count (idle key List.mem_cons_self) taken
    have hvoted : c.apply (.predict tags key) =
        .ok (.voted (favours (c.vote tags)), c.checkpointed tags key) := by
      rw [apply, hpredict]
      rfl
    have htrained : (c.checkpointed tags key).apply (.update taken key) =
        .ok (.trained (c.training taken tags), c.drill taken tags) := by
      rw [apply, hupdate]
      rfl
    obtain ⟨replies, hlater⟩ := ih (sound.drilled count taken)
      fun other hother => idle other (List.mem_cons_of_mem key hother)
    have hround : (key :: keys).flatMap (round taken tags) =
        .predict tags key :: .update taken key :: keys.flatMap (round taken tags) :=
      List.flatMap_cons
    rw [hround]
    have hupdated := applyAll_cons_eq_ok.2 ⟨_, _, _, htrained, hlater, rfl⟩
    exact ⟨_, applyAll_cons_eq_ok.2 ⟨_, _, _, hvoted, hupdated, rfl⟩⟩

theorem checkpoints_drills (c : Correlator) (taken : Bool) (tags : List UInt64) (rounds : Nat) :
    ((drill taken tags)^[rounds] c).checkpoints = c.checkpoints := by
  induction rounds generalizing c with
  | zero => rfl
  | succ rounds ih => exact ih (c.drill taken tags)

theorem Sound.drills (sound : c.Sound config) (count : tags.length = Knob.count) (taken : Bool)
    (rounds : Nat) : ((drill taken tags)^[rounds] c).Sound config := by
  induction rounds generalizing c with
  | zero => exact sound
  | succ rounds ih => exact ih (sound.drilled count taken)

end Calls

/-- With the threshold in use and a knob that votes, training comes to rest, whatever calls have
been answered before, for any tags and either direction. If a branch with these tags is predicted
and goes this way often enough, under keys that have no checkpoint, then one and the same state is
reached, and every further round leads from this state to itself: the prediction is right, the
update does not train, and neither touches a weight or the threshold. -/
theorem settles_of_run {config : Config} {calls : List Call} {replies : List Reply}
    {c : Correlator} {tags : List UInt64} (valid : config.Valid)
    (htheta : config.correlator.useTheta = true)
    (hvoters : 0 < config.correlator.enabledFeatures)
    (hrun : (ofConfig config.correlator).applyAll calls = .ok (replies, c))
    (count : tags.length = Knob.count) (taken : Bool) :
    ∃ rounds settled,
      (∀ keys : List BranchKey, rounds ≤ keys.length → (∀ key ∈ keys, key ∉ c.checkpoints) →
        ∃ answers, c.applyAll (keys.flatMap (round taken tags)) = .ok (answers, settled)) ∧
      ∀ key, key ∉ c.checkpoints → ∃ waiting training,
        settled.predict tags key = .ok (taken, waiting) ∧
        waiting.update taken key = .ok (training, settled) ∧
        training.correct = true ∧ training.trained = false ∧
        waiting.tables = settled.tables ∧ waiting.threshold = settled.threshold := by
  have width := foldable_of_valid valid
  have hrange := inRange_of_run width valid.trainingCounterBits.1 hrun
  have sound := sound_of_run width hrun
  obtain ⟨rounds, hsettled⟩ := hrange.exists_settled valid hvoters count sound htheta taken
  have hsound := sound.drills count taken rounds
  have huse := hsound.useTheta.trans htheta
  have hrest := hsettled.drill_eq huse
  refine ⟨rounds, (drill taken tags)^[rounds] c, ?_, ?_⟩
  · intro keys hlength idle
    obtain ⟨answers, hanswers⟩ := sound.applyAll_rounds width count taken idle
    obtain ⟨more, hmore⟩ := Nat.exists_eq_add_of_le' hlength
    rw [hmore, Function.iterate_add_apply, Function.iterate_fixed hrest] at hanswers
    exact ⟨answers, hanswers⟩
  · intro key idle
    rw [← checkpoints_drills c taken tags rounds] at idle
    obtain ⟨hpredict, hupdate⟩ := hsound.predict_update_eq width count idle taken
    rw [hsettled.confident.favours_eq] at hpredict
    rw [hrest, hsettled.confident.training_eq huse] at hupdate
    exact ⟨_, _, hpredict, hupdate, rfl, rfl, hsettled.touched.touchAll_eq, rfl⟩

/-- Rounds settle into a state soon: the counters are narrow, and the threshold is in use. -/
def settlingConfig : Config :=
  { correlator := { counterBits := 2, trainingCounterBits := 2, useTheta := true } }

theorem settles_of_run_overlapping :
    settlingConfig.Valid ∧ settlingConfig.correlator.useTheta = true ∧ ∃ answers c,
      (ofConfig settlingConfig.correlator).applyAll overlapping = .ok (answers, c) ∧
      c.vote (List.replicate Knob.count 9) = -6 ∧
      ∃ rounds settled,
        (∀ n, rounds ≤ n → ∃ answers, c.applyAll ((List.replicate n ⟨4, 0⟩).flatMap
          (round true (List.replicate Knob.count 9))) = .ok (answers, settled)) ∧
        ∃ waiting training,
          settled.predict (List.replicate Knob.count 9) ⟨4, 0⟩ = .ok (true, waiting) ∧
          waiting.update true ⟨4, 0⟩ = .ok (training, settled) ∧
          training.correct = true ∧ training.trained = false := by
  have valid : settlingConfig.Valid := Config.validate_eq_ok_iff.1 rfl
  have hstate : ((ofConfig settlingConfig.correlator).applyAll overlapping).map
      (fun answer => (answer.2.vote (List.replicate Knob.count 9),
        answer.2.hasCheckpoint ⟨4, 0⟩)) = .ok (-6, false) := by decide +kernel
  obtain ⟨⟨answers, c⟩, hrun, hvalues⟩ := map_eq_ok_iff.1 hstate
  obtain ⟨hvote, hkey⟩ := Prod.mk.inj hvalues
  have hidle : (⟨4, 0⟩ : BranchKey) ∉ c.checkpoints := ne_true_of_eq_false hkey
  obtain ⟨rounds, settled, hreaches, hrests⟩ :=
    settles_of_run valid rfl (by decide) hrun List.length_replicate true
  refine ⟨valid, rfl, answers, c, hrun, hvote, rounds, settled, ?_, ?_⟩
  · intro n hn
    refine hreaches _ (List.length_replicate.symm ▸ hn) fun key hkey => ?_
    rw [List.eq_of_mem_replicate hkey]
    exact hidle
  · obtain ⟨waiting, training, hpredict, hupdate, hcorrect, htrained, -⟩ := hrests _ hidle
    exact ⟨waiting, training, hpredict, hupdate, hcorrect, htrained⟩

end Correlator

end BranchSelector
