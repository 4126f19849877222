import BranchSelector.Baseline.Static
import BranchSelector.Proofs.Selector.History

/-!
# Selectors that defer to the baseline

In the raw-strength mode a prediction follows the correlator only as long as the hysteresis on its
use is above zero, and only on a vote that is strong enough. Where one of the two never happens
again the selector defers to the baseline (`Selector.Defers`). While it does so no branch that
follows the correlator comes into flight, and nothing else would move the hysteresis
(`Step.unled`).

* The hysteresis is spent and no branch in flight follows the correlator: this is how it stays up
  to the next setup (`sidelined_of_run`). A branch in flight could still bring the hysteresis back.
* The strength that is asked for is that of all tables but one, while only the knobs of the mask
  vote. If they are few, no vote is ever strong enough (`votes_of_run`).
-/

namespace BranchSelector

namespace Selector

variable {β : Type}

/-! ## Branches that follow the correlator -/

/-- No branch in flight follows the correlator. -/
def Unled (s : Selector β) : Prop :=
  ∀ key : BranchKey, s.inFlight[key]? ≠ some Provider.correlator

/-- Without branches in flight there is none that follows the correlator. -/
theorem unled_of_empty {s : Selector β} (h : s.inFlight = ∅) : s.Unled := by
  intro key
  rw [h, Std.ExtTreeMap.getElem?_empty]
  exact nofun

variable [Baseline β]

/-- Whatever branch is predicted next, unless that breaks the contract, the prediction is the vote
of the baseline, and it is counted and kept as one of the baseline. -/
def Defers (s : Selector β) : Prop :=
  ∀ (seqNo : UInt64) (piece : UInt8) (pc : UInt64),
    Ends (s.predict seqNo piece pc)
      (fun answer =>
        answer.1.direction = (Baseline.predict s.baseline answer.1.key pc).1 ∧
        answer.1.provider = .baseline ∧
        answer.2.stats = s.stats.recordPrediction .baseline ∧
        answer.2.inFlight[answer.1.key]? = some .baseline)
      (s.Breach (.predict seqNo piece pc))

variable {C : Baseline.Contract β} {s s' : Selector β} {hook : Hook} {outcome : Outcome}

theorem Coherent.defers (h : s.Coherent C) (hprovider : ∀ pc, s.provider pc = .baseline) :
    s.Defers := by
  intro seqNo piece pc
  refine (h.predict_ends seqNo piece pc).mono ?_
  rintro ⟨prediction, t⟩ hstep
  cases hstep with
  | predict hkey idle =>
    refine ⟨?_, hprovider pc, ?_, ?_⟩
    · show (s.prediction _ pc).direction = _
      rw [Prediction.direction, Selector.prediction, hprovider pc]
    · show s.stats.recordPrediction (s.provider pc) = _
      rw [hprovider pc]
    · show (s.inFlight.insert _ (s.provider pc))[_]? = _
      rw [hprovider pc]
      exact Std.ExtTreeMap.getElem?_insert_self

/-- As long as predictions follow the baseline, no hook but a setup moves the hysteresis: that is
done by resolutions of branches that follow the correlator, and none of those comes into flight. -/
theorem Step.unled (hstep : s.Step hook outcome s') (hprovider : ∀ pc, s.provider pc = .baseline)
    (h : s.Unled) (hsetup : hook ≠ .setup) :
    s'.Unled ∧ s'.useCounter = s.useCounter ∧
      s'.stats.fromCorrelator = s.stats.fromCorrelator := by
  have hunled : s'.Unled := by
    intro key hled
    rcases hstep.getElem?_inFlight hled with hlive | ⟨-, -, pc, -, -, hserved⟩
    · exact h key hlive
    · rw [hprovider pc] at hserved
      cases hserved
  refine ⟨hunled, ?_⟩
  cases hstep with
  | setup => exact absurd rfl hsetup
  | @predict _ _ pc key hkey idle =>
    refine ⟨rfl, ?_⟩
    show (s.stats.recordPrediction (s.provider pc)).fromCorrelator = _
    rw [hprovider pc]
    rfl
  | @resolve _ _ _ predicted taken _ key provider _ _ hkey hlive htags hconsumed =>
    constructor
    · -- The branch was in flight, and so it follows the baseline.
      have hbaseline : provider ≠ .correlator := by
        intro hled
        rw [hled] at hlive
        exact h key hlive
      exact if_neg hbaseline
    · exact s.stats.predictionsOf_recordResolution provider .correlator (predicted == taken)
  | squash | fetch | decode | decodeUntold | execute | executeUntold | advanceEpoch
  | clearFilter => exact ⟨rfl, rfl⟩

/-! ## The hysteresis is spent -/

/-- The raw-strength mode has lost its trust in the correlator, and no branch in flight can bring
it back. -/
structure Sidelined (s : Selector β) : Prop where
  mode : s.config.arbiter.mode = .rawStrength
  spent : s.useCounter.value ≤ 0
  unled : s.Unled

omit [Baseline β] in
theorem Sidelined.provider_eq (h : s.Sidelined) (pc : UInt64) : s.provider pc = .baseline := by
  have hspent : ¬ 0 < s.useCounter.value := Int.not_lt.2 h.spent
  unfold provider trustsCorrelator
  rw [h.mode]
  simp [hspent]

theorem Step.sidelined (hstep : s.Step hook outcome s') (h : s.Sidelined)
    (hsetup : hook ≠ .setup) :
    s'.Sidelined ∧ s'.useCounter = s.useCounter ∧
      s'.stats.fromCorrelator = s.stats.fromCorrelator := by
  obtain ⟨hunled, hcounter, hstats⟩ := hstep.unled h.provider_eq h.unled hsetup
  refine ⟨⟨?_, ?_, hunled⟩, hcounter, hstats⟩
  · rw [hstep.config_eq]
    exact h.mode
  · rw [hcounter]
    exact h.spent

/-- A hook keeps the hysteresis in its range. -/
theorem Step.useCounter (hstep : s.Step hook outcome s')
    (h : s.useCounter.range = useRange ∧ useRange.contains s.useCounter.value = true) :
    s'.useCounter.range = useRange ∧ useRange.contains s'.useCounter.value = true := by
  cases hstep with
  | setup => exact ⟨rfl, rfl⟩
  | @resolve _ _ _ predicted taken _ _ provider =>
    show (ite (provider = .correlator) _ _ : Counter).range = _ ∧
      useRange.contains (ite (provider = .correlator) _ _ : Counter).value = _
    split
    · rw [Counter.range_update, Counter.value_update, h.1]
      exact ⟨rfl, CounterRange.contains_step _ h.2⟩
    · exact h
  | predict | fetch | squash | decode | decodeUntold | execute | executeUntold | advanceEpoch
  | clearFilter => exact h

section Runs

variable {config : Config} {baseline : β} {s₀ : Selector β} {before : List Hook}
  {outcomes : List Outcome}

/-- After any hooks the hysteresis is in its range. If in the raw-strength mode it is not above
zero and no branch in flight follows the correlator, then any further hooks without a setup leave
it as it is. No prediction follows the correlator any more: each is the vote of the baseline and
is counted as one of the baseline. -/
theorem sidelined_of_run (created : create config baseline = .ok s₀)
    (run : s₀.applyAll before = .ok (outcomes, s)) :
    (-8 ≤ s.useCounter.value ∧ s.useCounter.value ≤ 7) ∧
      (config.arbiter.mode = .rawStrength → s.useCounter.value ≤ 0 →
        s.Unled → ∀ {after : List Hook} {later : List Outcome} {t : Selector β},
          .setup ∉ after → s.applyAll after = .ok (later, t) →
          t.useCounter = s.useCounter ∧ t.stats.fromCorrelator = s.stats.fromCorrelator ∧
            t.Defers) := by
  obtain ⟨h, healthy⟩ := Healthy.of_applyAll (C := Baseline.anyContract β) created trivial run
  constructor
  · have hrange := (created_induction (C := Baseline.anyContract β)
      (P := fun _ t => t.useCounter.range = useRange ∧ useRange.contains t.useCounter.value = true)
      created trivial (fun _ hstep hrange => hstep.useCounter hrange) run ⟨rfl, rfl⟩).2.2
    exact CounterRange.contains_iff.1 hrange
  · intro hmode hspent hunled after later t hafter hlater
    have hsidelined : s.Sidelined := by
      rw [← healthy.config] at hmode
      exact ⟨hmode, hspent, hunled⟩
    -- Every step keeps the selector as it is in these respects, as none is a setup.
    obtain ⟨ht, hlast⟩ := h.applyAll_induction
      (P := fun done t => .setup ∉ done → t.Sidelined ∧ t.useCounter = s.useCounter ∧
        t.stats.fromCorrelator = s.stats.fromCorrelator)
      (by
        intro done t t' hook outcome _ hstep ih hdone
        rw [List.mem_append, not_or] at hdone
        obtain ⟨hsidelined, hcounter, hstats⟩ := ih hdone.1
        have hsetup : hook ≠ .setup := fun hsame => hdone.2 (hsame ▸ List.mem_singleton_self hook)
        obtain ⟨hsidelined', hcounter', hstats'⟩ := hstep.sidelined hsidelined hsetup
        exact ⟨hsidelined', hcounter'.trans hcounter, hstats'.trans hstats⟩)
      hlater [] (fun _ => ⟨hsidelined, rfl, rfl⟩)
    obtain ⟨hsidelined', hcounter, hstats⟩ := hlast hafter
    exact ⟨hcounter, hstats, ht.defers hsidelined'.provider_eq⟩

end Runs

/-- Weights of two bits, of which six make a strong vote, and a correlator that may be followed. -/
def briskConfig : Config :=
  { correlator := { counterBits := 2 }, arbiter := { correlatorEnabled := true } }

/-- After a branch that is taken, seven more follow the correlator. They are in flight all at once,
and none of them is taken. -/
def misleadingHooks : List Hook :=
  let others := List.range' 2 7
  [.setup, .predict 1 0 0x40, .resolve 1 0 0x40 false true 0x80] ++
    others.map (fun n => .predict (UInt64.ofNat n) 0 0x40) ++
    others.map fun n => .resolve (UInt64.ofNat n) 0 0x40 true false 0x44

theorem sidelined_of_run_misleading :
    ∃ outcomes s later t,
      (ofConfig briskConfig (Static.always false)).applyAll misleadingHooks = .ok (outcomes, s) ∧
      briskConfig.arbiter.mode = .rawStrength ∧ s.useCounter.value = 0 ∧ s.Unled ∧
      s.applyAll [.predict 9 0 0x40, .resolve 9 0 0x40 false true 0x80] = .ok (later, t) ∧
      t.useCounter = s.useCounter ∧ t.stats.fromCorrelator = s.stats.fromCorrelator ∧
      t.Defers := by
  have hcreated : create briskConfig (Static.always false) =
    .ok (ofConfig briskConfig (Static.always false)) := rfl
  have hanswers : (do
      let (_, s) ← (ofConfig briskConfig (Static.always false)).applyAll misleadingHooks
      let _ ← s.applyAll [.predict 9 0 0x40, .resolve 9 0 0x40 false true 0x80]
      return (s.useCounter.value, s.inFlight.isEmpty)) =
      (.ok (0, true) : Except Violation (Int × Bool)) := by
    decide +kernel
  obtain ⟨⟨outcomes, s⟩, hrun, hrest⟩ := bind_eq_ok_iff.1 hanswers
  obtain ⟨⟨later, t⟩, hlater, hvalues⟩ := bind_eq_ok_iff.1 hrest
  obtain ⟨hspent, hidle⟩ := Prod.mk.inj (Except.ok.inj hvalues)
  have hunled : s.Unled := unled_of_empty (Std.ExtTreeMap.isEmpty_iff.1 hidle)
  obtain ⟨hcounter, hstats, hdefers⟩ := (sidelined_of_run hcreated hrun).2 rfl
    (Int.le_of_eq hspent) hunled (by decide) hlater
  exact ⟨outcomes, s, later, t, hrun, rfl, hspent, hunled, hlater, hcounter, hstats, hdefers⟩

/-! ## Few knobs vote -/

/-- The correlator has not been followed since the last setup. -/
structure Unheard (s : Selector β) : Prop where
  unled : s.Unled
  useCounter : s.useCounter = fullTrust
  fromCorrelator : s.stats.fromCorrelator = 0

theorem Step.unheard (hstep : s.Step hook outcome s')
    (hprovider : ∀ pc, s.provider pc = .baseline) (h : s.Unheard) : s'.Unheard := by
  by_cases hsetup : hook = .setup
  · subst hsetup
    cases hstep
    exact ⟨unled_of_empty rfl, rfl, rfl⟩
  · obtain ⟨hunled, hcounter, hstats⟩ := hstep.unled hprovider h.unled hsetup
    exact ⟨hunled, hcounter.trans h.useCounter, hstats.trans h.fromCorrelator⟩

omit [Baseline β] in
/-- A vote that is too weak is not followed. -/
theorem provider_eq_of_weak (hmode : s.config.arbiter.mode = .rawStrength)
    (hweak : ∀ tags, (s.correlator.vote tags).natAbs < s.config.useThreshold) (pc : UInt64) :
    s.provider pc = .baseline := by
  have hstrength := Nat.not_le.2 (hweak s.tags)
  unfold provider trustsCorrelator
  rw [hmode]
  simp [hstrength]

/-- If few knobs vote, their greatest weights together are not as strong as is asked for. -/
theorem Healthy.weak {config : Config} {hooks : List Hook} (healthy : s.Healthy config hooks)
    (h : s.Coherent C)
    (few : config.correlator.enabledFeatures * 2 ^ (config.correlator.counterBits - 1) <
      5 * (2 ^ (config.correlator.counterBits - 1) - 1)) (tags : List UInt64) :
    (s.correlator.vote tags).natAbs < s.config.useThreshold := by
  have hthreshold : config.useThreshold = (2 ^ (config.correlator.counterBits - 1) - 1) * 5 := by
    rw [Config.useThreshold, CorrelatorConfig.counterMax, Nat.one_shiftLeft]
    rfl
  have hsound := h.correlator
  rw [healthy.config] at hsound
  have hbounds := healthy.correlator.vote_bounds hsound tags
  rw [Nat.mul_sub_one] at hbounds
  rw [healthy.config, hthreshold]
  omega

section Runs

variable {config : Config} {baseline : β} {s₀ : Selector β} {hooks : List Hook}
  {outcomes : List Outcome}

/-- After any hooks, the vote on any tags lies between one least and one greatest weight for each
of the `m` knobs that vote. The greatest weight is one less than the magnitude `h` of the least. In
the raw-strength mode five greatest weights are asked for. If `m` least weights are fewer than
that, as they are if `m` is no more than four and a weight has four bits or more, then no branch
ever follows the correlator, even if it is enabled: none is counted for it, the hysteresis stays
where it starts, and every prediction is the vote of the baseline. -/
theorem votes_of_run (created : create config baseline = .ok s₀)
    (run : s₀.applyAll hooks = .ok (outcomes, s)) {m h : Nat}
    (voters : config.correlator.enabledFeatures = m)
    (least : 2 ^ (config.correlator.counterBits - 1) = h) :
    (∀ tags, ∃ sum, s.correlator.sum tags = .ok sum ∧
      -((m * h : Nat) : Int) ≤ sum ∧ sum ≤ (m * (h - 1) : Nat)) ∧
      (m ≤ 4 → 4 ≤ config.correlator.counterBits → m * h < 5 * (h - 1)) ∧
      (config.arbiter.mode = .rawStrength → m * h < 5 * (h - 1) →
        s.stats.fromCorrelator = 0 ∧ s.useCounter.value = 7 ∧ s.Unled ∧ s.Defers) := by
  subst voters least
  obtain ⟨valid, -⟩ := create_eq_ok created
  obtain ⟨hs, healthy⟩ := Healthy.of_applyAll (C := Baseline.anyContract β) created trivial run
  refine ⟨fun tags => ?_, fun hvoters hbits => ?_, fun hmode few => ?_⟩
  · have hsound := hs.correlator
    rw [healthy.config] at hsound
    exact ⟨_, hsound.sum_eq (foldable_of_valid valid) tags,
      healthy.correlator.vote_bounds hsound tags⟩
  · have hpow : 2 ^ 3 ≤ 2 ^ (config.correlator.counterBits - 1) :=
      Nat.pow_le_pow_right (by decide) (by omega)
    have hmul := Nat.mul_le_mul_right (2 ^ (config.correlator.counterBits - 1)) hvoters
    omega
  · -- No vote is strong enough at any time, so that the correlator is never followed.
    have hprovider : ∀ {done : List Hook} {t : Selector β},
        t.Coherent (Baseline.anyContract β) → t.Healthy config done →
        ∀ pc, t.provider pc = .baseline := by
      intro done t ht hhealthy
      refine provider_eq_of_weak ?_ (hhealthy.weak ht few)
      rw [hhealthy.config]
      exact hmode
    have hrun := (created_induction (C := Baseline.anyContract β)
      (P := fun done t => t.Healthy config done ∧ t.Unheard) created trivial
      (by
        intro done t t' hook outcome ht hstep hkept
        obtain ⟨hhealthy, hunheard⟩ := hkept
        exact ⟨hstep.healthy valid ht hhealthy, hstep.unheard (hprovider ht hhealthy) hunheard⟩)
      run ⟨healthy_ofConfig valid baseline, unled_of_empty rfl, rfl, rfl⟩).2
    obtain ⟨-, hunled, hcounter, hstats⟩ := hrun
    refine ⟨hstats, ?_, hunled, hs.defers (hprovider hs healthy)⟩
    rw [hcounter]
    rfl

end Runs

/-- Four of the six knobs vote, with weights of four bits. -/
def fourVoters : Config :=
  { correlator := { counterBits := 4, featureMask := [true, true, true, true, false, false] }
    arbiter := { correlatorEnabled := true } }

theorem votes_of_run_fourVoters :
    ∃ outcomes s,
      (ofConfig fourVoters (Static.always false)).applyAll misleadingHooks = .ok (outcomes, s) ∧
      (∀ tags, ∃ sum, s.correlator.sum tags = .ok sum ∧ -32 ≤ sum ∧ sum ≤ 28) ∧
      4 * 8 < 5 * (8 - 1) ∧ s.stats.fromCorrelator = 0 ∧ s.useCounter.value = 7 ∧ s.Unled ∧
      s.Defers := by
  have hcreated : create fourVoters (Static.always false) =
    .ok (ofConfig fourVoters (Static.always false)) := rfl
  obtain ⟨⟨outcomes, s⟩, hrun⟩ := exists_eq_ok_of_isOk
    (show ((ofConfig fourVoters (Static.always false)).applyAll misleadingHooks).isOk = true by
      decide +kernel)
  obtain ⟨hvotes, hfew, hnever⟩ := votes_of_run hcreated hrun (m := 4) (h := 8) rfl rfl
  have hless := hfew (Nat.le_refl 4) (Nat.le_refl 4)
  exact ⟨outcomes, s, hrun, hvotes, hless, hnever rfl hless⟩

end Selector

end BranchSelector
