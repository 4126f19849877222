import BranchSelector.Baseline.Recorded
import BranchSelector.Proofs.Selector.Trust

/-!
# Selectors with muted correlators

In the raw-strength mode the correlator may be disabled. It votes, is trained and moves its
thresholds all the same, but it is muted: no vote of it is ever followed.

Two selectors with muted correlators (`Selector.Muted`) may differ in everything that the
correlators see or know: the tables, the windows, the knobs and how often the weights were left
alone. A hook fails for both or for neither. If it is answered, the answers differ in what the
correlators have to say at most, and the selectors are left as different as they were before
(`Muted.apply`). So a muted correlator has no influence on anything else (`alike_of_muted`).
-/

namespace BranchSelector

/-- The raw-strength mode may not trust the correlator. -/
structure Config.Mutes (config : Config) : Prop where
  mode : config.arbiter.mode = .rawStrength
  disabled : config.arbiter.correlatorEnabled = false

/-- Two outcomes are the same but for what the correlator votes and learns, and the directions
predicted are the vote of the baseline. -/
inductive Outcome.Agrees : Outcome → Outcome → Prop
  | done : Agrees .done .done
  | predicted {p : Prediction} {raw : Int} {correlatorVote : Bool} :
    p.direction = p.baselineVote →
      Prediction.direction { p with raw, correlatorVote } = p.baselineVote →
        Agrees (.predicted p) (.predicted { p with raw, correlatorVote })
  | resolved {r : Resolution} {training : Training} :
    Agrees (.resolved r) (.resolved { r with training })
  | squashed {key : BranchKey} : Agrees (.squashed key) (.squashed key)

namespace Stats

/-- Statistics with another count of the updates that left the weights alone. -/
def withSkips (stats : Stats) (thresholdSkips : Nat) : Stats :=
  { stats with thresholdSkips }

theorem recordPrediction_withSkips (stats : Stats) (skips : Nat) (provider : Provider) :
    (stats.withSkips skips).recordPrediction provider =
      (stats.recordPrediction provider).withSkips skips := by
  cases provider <;> rfl

theorem recordResolution_withSkips (stats : Stats) (skips : Nat) (provider : Provider)
    (right : Bool) :
    (stats.withSkips skips).recordResolution provider right =
      (stats.recordResolution provider right).withSkips skips := by
  cases provider <;> cases right <;> rfl

end Stats

namespace Selector

variable {β : Type} {s t : Selector β}

theorem provider_eq_of_mutes (h : s.config.Mutes) (pc : UInt64) : s.provider pc = .baseline := by
  unfold provider trustsCorrelator
  rw [h.mode, h.disabled]
  rfl

/-- The second selector is the first one with another muted correlator. -/
inductive Muted : Selector β → Selector β → Prop
  | intro {s : Selector β} {config : Config} {correlator : Correlator} {windows : Windows}
      {knobs : Knobs} {skips : Nat} :
    s.config.Mutes → config.Mutes →
      Muted s { s with config, correlator, windows, knobs, stats := s.stats.withSkips skips }

theorem Muted.eq (h : Muted s t) :
    t = { s with
      config := t.config, correlator := t.correlator, windows := t.windows, knobs := t.knobs
      stats := { s.stats with thresholdSkips := t.stats.thresholdSkips } } := by
  obtain ⟨-, -⟩ := h
  rfl

theorem Muted.mutes (h : Muted s t) : s.config.Mutes := by
  obtain ⟨mutes, -⟩ := h
  exact mutes

theorem Muted.mutes' (h : Muted s t) : t.config.Mutes := by
  obtain ⟨-, mutes'⟩ := h
  exact mutes'

theorem Muted.inFlight_eq (h : Muted s t) : t.inFlight = s.inFlight := by
  rw [h.eq]

/-- Two new selectors for the same filter are told apart by nothing but what belongs to their
correlators, if these are muted. -/
theorem muted_ofConfig {config other : Config} (mutes : config.Mutes) (mutes' : other.Mutes)
    (hfilter : other.filter = config.filter) (baseline : β) :
    Muted (ofConfig config baseline) (ofConfig other baseline) := by
  have hkind : other.effectiveFilterKind = config.effectiveFilterKind := by
    unfold Config.effectiveFilterKind
    rw [mutes.mode, mutes'.mode, hfilter]
  have hother : ofConfig other baseline = { ofConfig config baseline with
      config := other
      correlator := Correlator.ofConfig other.correlator
      windows := Windows.ofConfig other.windows
      stats := Stats.withSkips {} 0 } := by
    simp only [ofConfig, hkind, hfilter]
    rfl
  rw [hother]
  exact ⟨mutes, mutes'⟩

variable [Baseline β] {C : Baseline.Contract β}

/-! ## Hooks -/

/-- Both predictions follow the baseline, whatever the correlators vote. -/
theorem Muted.predicted (h : Muted s t) (key : BranchKey) (pc : UInt64) :
    Outcome.Agrees (.predicted (s.prediction key pc)) (.predicted (t.prediction key pc)) ∧
      Muted (s.predicted key pc) (t.predicted key pc) := by
  obtain @⟨config, correlator, windows, knobs, skips, mutes, mutes'⟩ := h
  generalize ht : ({ s with config, correlator, windows, knobs
                            stats := s.stats.withSkips skips } : Selector β) = t
  have hfirst : s.provider pc = .baseline := provider_eq_of_mutes mutes pc
  have hsecond : t.provider pc = .baseline := provider_eq_of_mutes (ht ▸ mutes') pc
  constructor
  · have hsame : t.prediction key pc = { s.prediction key pc with
        raw := (t.prediction key pc).raw
        correlatorVote := (t.prediction key pc).correlatorVote } := by
      unfold prediction
      rw [hfirst, hsecond, ← ht]
    have hdirection : (t.prediction key pc).direction = (s.prediction key pc).baselineVote := by
      rw [Prediction.direction, prediction, hsecond, ← ht]
      rfl
    rw [hsame] at hdirection ⊢
    refine .predicted ?_ hdirection
    rw [Prediction.direction, prediction, hfirst]
  · unfold Selector.predicted
    rw [hfirst, hsecond, ← ht, Stats.recordPrediction_withSkips]
    exact ⟨mutes, mutes'⟩

omit [Baseline β] in
/-- An address is offered to the same filter, and enters it or does not. -/
theorem Muted.filterAfter_eq (h : Muted s t) (pc : UInt64) (right : Bool) :
    t.filterAfter pc right = s.filterAfter pc right := by
  rw [h.eq]
  rfl

/-- So the branch is consumed by the same call. -/
theorem Muted.consume_eq (h : Muted s t) (key : BranchKey) (pc : UInt64) (predicted taken : Bool)
    (nextPc : UInt64) :
    t.consume key pc predicted taken nextPc = s.consume key pc predicted taken nextPc := by
  unfold consume
  rw [h.filterAfter_eq, h.eq]

omit [Baseline β] in
theorem Muted.resolution_eq (h : Muted s t) (key : BranchKey) (provider : Provider)
    (tags tags' : List UInt64) (pc : UInt64) (predicted taken : Bool) :
    t.resolution key provider tags' pc predicted taken =
      { s.resolution key provider tags pc predicted taken with
        training := t.correlator.training taken tags' } := by
  unfold resolution
  rw [h.filterAfter_eq]

omit [Baseline β] in
/-- What a resolution does to the filter and to the counts does not depend on the correlator. -/
theorem Muted.resolved (h : Muted s t) (key : BranchKey) (provider : Provider)
    (tags tags' : List UInt64) (pc : UInt64) (predicted taken : Bool) (baseline : β) :
    Muted { s.resolved key provider tags pc predicted taken with baseline }
      { t.resolved key provider tags' pc predicted taken with baseline } := by
  obtain ⟨mutes, mutes'⟩ := h
  unfold Selector.resolved offered
  simp only [Stats.recordResolution_withSkips]
  exact ⟨mutes, mutes'⟩

/-- A hook that does not break the contract ends alike for both. -/
theorem Muted.apply_of_sound (h : Muted s t) (hs : s.Coherent C) (ht : t.Coherent C) {hook : Hook}
    (sound : ∀ violation, ¬ s.Breach hook violation) :
    Alike (fun a b => Outcome.Agrees a.1 b.1 ∧ Muted a.2 b.2) (s.apply hook) (t.apply hook) := by
  have hinFlight : t.inFlight = s.inFlight := h.inFlight_eq
  cases hook with
  | setup =>
    obtain ⟨mutes, mutes'⟩ := h
    exact ⟨.done, mutes, mutes'⟩
  | predict seqNo piece pc =>
    obtain ⟨key, hkey⟩ := exists_key_of_not_breach sound rfl
    have idle : key ∉ s.inFlight := fun live => sound _ (.predict hkey live)
    have idle' : key ∉ t.inFlight := hinFlight ▸ idle
    simp only [apply, hs.predict_eq hkey idle, ht.predict_eq hkey idle', bind, Except.bind]
    exact h.predicted key pc
  | fetch branch direction =>
    obtain ⟨key, hkey⟩ := exists_key_of_not_breach sound rfl
    have hkey : branch.key = .ok key := hkey
    simp only [apply, s.fetch_eq hkey, t.fetch_eq hkey, bind, Except.bind]
    obtain ⟨mutes, mutes'⟩ := h
    exact ⟨.done, mutes, mutes'⟩
  | resolve seqNo piece pc predicted taken nextPc =>
    obtain ⟨key, hkey⟩ := exists_key_of_not_breach sound rfl
    have live : key ∈ s.inFlight := by_contra fun idle => sound _ (.resolve hkey idle)
    obtain ⟨provider, tags, hprovider, htags⟩ := hs.lookup live
    obtain ⟨_, tags', hprovider', htags'⟩ := ht.lookup (hinFlight ▸ live)
    rw [hinFlight, hprovider] at hprovider'
    obtain rfl := Option.some.inj hprovider'
    simp only [apply, hs.resolve_eq hkey hprovider htags,
      ht.resolve_eq hkey (hinFlight ▸ hprovider) htags', h.consume_eq,
      h.resolution_eq key provider tags tags']
    cases s.consume key pc predicted taken nextPc with
    | error violation => exact rfl
    | ok baseline => exact ⟨.resolved, h.resolved key provider tags tags' pc predicted taken _⟩
  | squash seqNo piece =>
    obtain ⟨key, hkey⟩ := exists_key_of_not_breach sound rfl
    have live : key ∈ s.inFlight := by_contra fun idle => sound _ (.squash hkey idle)
    simp only [apply, hs.squash_eq hkey live, ht.squash_eq hkey (hinFlight ▸ live)]
    obtain ⟨mutes, mutes'⟩ := h
    cases Baseline.killCheckpoint s.baseline key with
    | error violation => exact rfl
    | ok baseline => exact ⟨.squashed, mutes, mutes'⟩
  | decode seqNo piece register =>
    simp only [apply, decode, bind, Except.bind]
    cases notified? register with
    | none => exact ⟨.done, h⟩
    | some r =>
      obtain ⟨mutes, mutes'⟩ := h
      cases BranchKey.ofParts seqNo piece with
      | error violation => exact rfl
      | ok key => exact ⟨.done, mutes, mutes'⟩
  | execute seqNo piece register value =>
    simp only [apply, execute, bind, Except.bind]
    cases notified? register with
    | none => exact ⟨.done, h⟩
    | some r =>
      obtain ⟨mutes, mutes'⟩ := h
      cases BranchKey.ofParts seqNo piece with
      | error violation => exact rfl
      | ok key => exact ⟨.done, mutes, mutes'⟩
  | advanceEpoch =>
    obtain ⟨mutes, mutes'⟩ := h
    exact ⟨.done, mutes, mutes'⟩
  | clearFilter =>
    obtain ⟨mutes, mutes'⟩ := h
    exact ⟨.done, mutes, mutes'⟩

theorem Muted.apply (h : Muted s t) (hs : s.Coherent C) (ht : t.Coherent C) (hook : Hook) :
    Alike (fun a b => Outcome.Agrees a.1 b.1 ∧ Muted a.2 b.2) (s.apply hook) (t.apply hook) := by
  by_cases hbreach : ∃ violation, s.Breach hook violation
  · obtain ⟨violation, hbreach⟩ := hbreach
    rw [hbreach.apply_eq hs, (hbreach.congr h.inFlight_eq).apply_eq ht]
    exact rfl
  · exact h.apply_of_sound hs ht fun violation hv => hbreach ⟨violation, hv⟩

/-! ## Histories -/

theorem Muted.applyAll (h : Muted s t) (hs : s.Coherent C) (ht : t.Coherent C)
    (hooks : List Hook) :
    Alike (fun a b => List.Forall₂ Outcome.Agrees a.1 b.1 ∧ Muted a.2 b.2) (s.applyAll hooks)
      (t.applyAll hooks) := by
  induction hooks generalizing s t with
  | nil => exact ⟨.nil, h⟩
  | cons hook hooks ih =>
    refine (h.apply hs ht hook).with_eq.bind ?_
    rintro ⟨outcome, s'⟩ ⟨outcome', t'⟩ ⟨hfirst, hsecond, hagrees, hmuted⟩
    have hs' : s'.Coherent C := (hs.step hfirst).coherent hs
    have ht' : t'.Coherent C := (ht.step hsecond).coherent ht
    refine (ih hmuted hs' ht').bind ?_
    rintro ⟨outcomes, s''⟩ ⟨outcomes', t''⟩ ⟨hrest, hlast⟩
    exact ⟨.cons hagrees hrest, hlast⟩

/-- In the raw-strength mode with the correlator disabled, around any predictor and for any hooks:
two selectors for the same filter end alike, whatever their correlators and windows are sized. What
stops the one stops the other. If nothing does, then their answers agree but for what the
correlators vote and learn, all their predictions are the votes of the baseline, and so will the
next one be. Their states are the same, the calls of the baseline included, but for the
configurations, the correlators, the windows, the knobs and the updates that left the weights
alone. -/
theorem alike_of_muted {config other : Config} {baseline : Recorded β}
    {s₀ t₀ : Selector (Recorded β)} (created : create config baseline = .ok s₀)
    (created' : create other baseline = .ok t₀) (mutes : config.Mutes) (mutes' : other.Mutes)
    (hfilter : other.filter = config.filter) (hooks : List Hook) :
    Alike
      (fun first second =>
        List.Forall₂ Outcome.Agrees first.1 second.1 ∧ first.2.Defers ∧ second.2.Defers ∧
        second.2 = { first.2 with
          config := second.2.config, correlator := second.2.correlator
          windows := second.2.windows, knobs := second.2.knobs
          stats := { first.2.stats with thresholdSkips := second.2.stats.thresholdSkips } })
      (s₀.applyAll hooks) (t₀.applyAll hooks) := by
  obtain ⟨valid, rfl⟩ := create_eq_ok created
  obtain ⟨valid', rfl⟩ := create_eq_ok created'
  have hs : (ofConfig config baseline).Coherent (Baseline.anyContract (Recorded β)) :=
    coherent_ofConfig valid trivial
  have ht : (ofConfig other baseline).Coherent (Baseline.anyContract (Recorded β)) :=
    coherent_ofConfig valid' trivial
  refine ((muted_ofConfig mutes mutes' hfilter baseline).applyAll hs ht hooks).with_eq.mono ?_
  rintro ⟨outcomes, s⟩ ⟨outcomes', t⟩ ⟨hfirst, hsecond, hagree, hmuted⟩
  have hdefers := (hs.of_applyAll hfirst).defers (provider_eq_of_mutes hmuted.mutes)
  have hdefers' := (ht.of_applyAll hsecond).defers (provider_eq_of_mutes hmuted.mutes')
  exact ⟨hagree, hdefers, hdefers', hmuted.eq⟩

/-- Muted as the defaults are, with sizes and windows that have nothing in common with theirs. -/
def mutedConfig : Config :=
  { correlator :=
      { foldedTagBits := 3, counterBits := 4, trainingCounterBits := 3, useTheta := true }
    windows := { shortWindow := 1, longWindow := 2, longBranchDistance := 8 } }

theorem alike_of_muted_overlapping :
    (({} : Config).Mutes ∧ mutedConfig.Mutes ∧ mutedConfig.filter = ({} : Config).filter) ∧
      ∃ outcomes s outcomes' t,
        (ofConfig {} (⟨.addressBit 2, []⟩ : Recorded Static)).applyAll overlappingHooks =
          .ok (outcomes, s) ∧
        (ofConfig mutedConfig (⟨.addressBit 2, []⟩ : Recorded Static)).applyAll overlappingHooks =
          .ok (outcomes', t) ∧
        List.Forall₂ Outcome.Agrees outcomes outcomes' ∧ s.Defers ∧ t.Defers ∧
        t = { s with
          config := t.config, correlator := t.correlator, windows := t.windows, knobs := t.knobs
          stats := { s.stats with thresholdSkips := t.stats.thresholdSkips } } := by
  have hcreated : create {} (⟨.addressBit 2, []⟩ : Recorded Static) =
    .ok (ofConfig {} ⟨.addressBit 2, []⟩) := rfl
  have hcreated' : create mutedConfig (⟨.addressBit 2, []⟩ : Recorded Static) =
    .ok (ofConfig mutedConfig ⟨.addressBit 2, []⟩) := rfl
  obtain ⟨⟨outcomes, s⟩, hrun⟩ := exists_eq_ok_of_isOk
    (show ((ofConfig {} (⟨.addressBit 2, []⟩ : Recorded Static)).applyAll
      overlappingHooks).isOk = true by decide +kernel)
  have halike := alike_of_muted hcreated hcreated' ⟨rfl, rfl⟩ ⟨rfl, rfl⟩ rfl overlappingHooks
  obtain ⟨⟨outcomes', t⟩, hrun', hagree, hdefers, hdefers', hsame⟩ := halike.of_ok hrun
  exact ⟨⟨⟨rfl, rfl⟩, ⟨rfl, rfl⟩, rfl⟩, outcomes, s, outcomes', t, hrun, hrun', hagree, hdefers,
    hdefers', hsame⟩

end Selector

end BranchSelector
