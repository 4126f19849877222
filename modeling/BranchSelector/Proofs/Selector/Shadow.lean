import BranchSelector.Proofs.Correlator.Padding
import BranchSelector.Proofs.Selector.Step

/-!
# Shadows of a branch

A branch that is predicted and never resolves leaves little behind: entries of weight zero, the
knobs that every prediction copies in anew, one count in the statistics, and a checkpoint of its
own in every part. `Selector.Shadows` says of a selector around gshare that it is another one
with such traces of one branch.

None of it is looked at by a hook that is about another branch. So whatever step the one selector
makes, the other one makes too, with the same outcome, and the traces are no more than they were
(`Shadows.step`).
-/

namespace BranchSelector

/-! ## Maps that agree at all branches but one -/

/-- Two maps have the same values, except perhaps at one branch. -/
def AgreeOff {α : Type} (key : BranchKey) (m n : Std.ExtTreeMap BranchKey α) : Prop :=
  ∀ other, other ≠ key → n[other]? = m[other]?

namespace AgreeOff

variable {α : Type} {key other : BranchKey} {m n : Std.ExtTreeMap BranchKey α}

theorem refl (m : Std.ExtTreeMap BranchKey α) : AgreeOff key m m := fun _ _ => rfl

theorem insert (h : AgreeOff key m n) (inserted : BranchKey) (value : α) :
    AgreeOff key (m.insert inserted value) (n.insert inserted value) := by
  intro other hne
  rw [Std.ExtTreeMap.getElem?_insert, Std.ExtTreeMap.getElem?_insert, h other hne]

theorem erase (h : AgreeOff key m n) (erased : BranchKey) :
    AgreeOff key (m.erase erased) (n.erase erased) := by
  intro other hne
  rw [Std.ExtTreeMap.getElem?_erase, Std.ExtTreeMap.getElem?_erase, h other hne]

theorem insert_right (h : AgreeOff key m n) (value : α) : AgreeOff key m (n.insert key value) := by
  intro other hne
  rw [getElem?_insert_of_ne hne.symm, h other hne]

theorem erase_right (h : AgreeOff key m n) : AgreeOff key m (n.erase key) := by
  intro other hne
  rw [getElem?_erase_of_ne hne.symm, h other hne]

theorem mem_iff (h : AgreeOff key m n) (hne : other ≠ key) : other ∈ n ↔ other ∈ m := by
  rw [Std.ExtTreeMap.mem_iff_isSome_getElem?, Std.ExtTreeMap.mem_iff_isSome_getElem?, h other hne]

/-- Maps without the one branch are the same. -/
theorem eq (h : AgreeOff key m n) (hm : key ∉ m) (hn : key ∉ n) : n = m := by
  ext1 other
  by_cases hsame : other = key
  · subst hsame
    rw [Std.ExtTreeMap.getElem?_eq_none hm, Std.ExtTreeMap.getElem?_eq_none hn]
  · exact h other hsame

end AgreeOff

/-! ## Parts of the selector -/

/-- Two vectors of knobs are the same, except perhaps for those that a prediction copies in. -/
structure Knobs.SameRunning (knobs other : Knobs) : Prop where
  callDepth : other.callDepth = knobs.callDepth
  globalBias : other.globalBias = knobs.globalBias

namespace Knobs.SameRunning

variable {knobs other : Knobs}

theorem refresh_eq (h : knobs.SameRunning other) (counts : EventCounts) :
    other.refresh counts = knobs.refresh counts := by
  unfold refresh
  rw [h.callDepth, h.globalBias]

theorem fetchKnobs (h : knobs.SameRunning other) (kind : BranchClass) (taken : Bool) :
    (Selector.fetchKnobs knobs kind taken).SameRunning (Selector.fetchKnobs other kind taken) := by
  cases kind with
  | condBranch =>
    unfold Selector.fetchKnobs onConditional
    rw [h.globalBias]
    cases taken with
    | true =>
      by_cases hlimit : knobs.globalBias < biasLimit
      · simp only [if_true, if_pos hlimit]
        exact ⟨h.callDepth, rfl⟩
      · simp only [if_true, if_neg hlimit]
        exact h
    | false => exact ⟨h.callDepth, rfl⟩
  | callDirect | callIndirect => exact ⟨congrArg (· + 1) h.callDepth, h.globalBias⟩
  | callReturn => exact ⟨congrArg (· - 1) h.callDepth, h.globalBias⟩
  | uncondDirect | uncondIndirect => exact h

end Knobs.SameRunning

/-- The second statistics count at most one prediction more. -/
def Stats.OneMore (stats more : Stats) : Prop :=
  more = stats ∨ ∃ provider, more = stats.recordPrediction provider

namespace Stats.OneMore

variable {stats more : Stats}

theorem recordPrediction (h : stats.OneMore more) (provider : Provider) :
    (stats.recordPrediction provider).OneMore (more.recordPrediction provider) := by
  rcases h with rfl | ⟨extra, rfl⟩
  · exact .inl rfl
  · exact .inr ⟨extra, by cases extra <;> cases provider <;> rfl⟩

/-- What a resolution counts. -/
theorem recordResolution (h : stats.OneMore more) (provider : Provider) (right : Bool)
    (added skipped : Nat) :
    OneMore
      { stats.recordResolution provider right with
        filterInsertions := stats.filterInsertions + added
        thresholdSkips := stats.thresholdSkips + skipped }
      { more.recordResolution provider right with
        filterInsertions := more.filterInsertions + added
        thresholdSkips := more.thresholdSkips + skipped } := by
  rcases h with rfl | ⟨extra, rfl⟩
  · exact .inl rfl
  · exact .inr ⟨extra, by cases extra <;> cases provider <;> cases right <;> rfl⟩

end Stats.OneMore

namespace Gshare

variable {bits : Nat} {key other : BranchKey} {g g' shadowed : Gshare bits}

/-- The second predictor is the first one, except perhaps for the checkpoint of one branch. -/
structure Shadows (key : BranchKey) (g shadowed : Gshare bits) : Prop where
  history : shadowed.history = g.history
  trained : shadowed.trained = g.trained
  checkpoints : AgreeOff key g.checkpoints shadowed.checkpoints

theorem Shadows.index_eq (h : Shadows key g shadowed) (pc : UInt64) :
    shadowed.index pc = g.index pc := by
  unfold index
  rw [h.history]

theorem Shadows.vote_eq (h : Shadows key g shadowed) (other : BranchKey) (pc : UInt64) :
    (shadowed.predict other pc).1 = (g.predict other pc).1 := by
  unfold predict counter
  rw [h.index_eq, h.trained]

theorem Shadows.predict (h : Shadows key g shadowed) (other : BranchKey) (pc : UInt64) :
    Shadows key (g.predict other pc).2 (shadowed.predict other pc).2 where
  history := h.history
  trained := h.trained
  checkpoints := by
    show AgreeOff key _ (shadowed.checkpoints.insert other (shadowed.index pc))
    rw [h.index_eq]
    exact h.checkpoints.insert other (g.index pc)

theorem Shadows.fetchBaseline (h : Shadows key g shadowed) (branch : Branch) (other : BranchKey)
    (direction : Bool) :
    Shadows key (Selector.fetchBaseline g branch other direction)
      (Selector.fetchBaseline shadowed branch other direction) := by
  unfold Selector.fetchBaseline
  by_cases hkind : branch.kind.isConditional = true
  · rw [if_pos hkind, if_pos hkind]
    have hhistory : (shadowed.shift branch.taken).history = (g.shift branch.taken).history := by
      unfold shift
      rw [h.history]
    exact ⟨hhistory, h.trained, h.checkpoints⟩
  · rw [if_neg hkind, if_neg hkind]
    exact h

/-- Training on another branch. -/
theorem Shadows.update (h : Shadows key g shadowed) (hne : other ≠ key) {taken : Bool}
    (hupdate : g.update other taken = .ok g') :
    ∃ after, shadowed.update other taken = .ok after ∧ Shadows key g' after := by
  unfold Gshare.update at hupdate ⊢
  rw [h.checkpoints other hne]
  cases hlive : g.checkpoints[other]? with
  | none =>
    rw [hlive] at hupdate
    cases hupdate
  | some i =>
    rw [hlive] at hupdate
    obtain rfl := Except.ok.inj hupdate
    refine ⟨_, rfl, h.history, ?_, h.checkpoints.erase other⟩
    unfold counter
    rw [h.trained]

/-- Discarding another branch. -/
theorem Shadows.killCheckpoint (h : Shadows key g shadowed) (hne : other ≠ key)
    (hkill : g.killCheckpoint other = .ok g') :
    ∃ after, shadowed.killCheckpoint other = .ok after ∧ Shadows key g' after := by
  unfold Gshare.killCheckpoint at hkill ⊢
  by_cases hlive : g.checkpoints.contains other = true
  · rw [if_pos hlive] at hkill
    obtain rfl := Except.ok.inj hkill
    exact ⟨_, if_pos ((h.checkpoints.mem_iff hne).2 hlive), h.history, h.trained,
      h.checkpoints.erase other⟩
  · rw [if_neg hlive] at hkill
    cases hkill

end Gshare

/-- The second correlator is the first one with more entries of weight zero, and perhaps with
another checkpoint of one branch. -/
structure Correlator.Shadows (key : BranchKey) (c shadowed : Correlator) : Prop where
  padded : c.Padded shadowed
  checkpoints : AgreeOff key c.checkpoints shadowed.checkpoints

namespace Correlator.Shadows

variable {config : CorrelatorConfig} {key : BranchKey} {c shadowed : Correlator}
  {tags : List UInt64}

/-- A vector of tags is touched and kept on both sides. -/
theorem checkpointed (h : Shadows key c shadowed) (sound : shadowed.Sound config)
    (count : tags.length = Knob.count) (other : BranchKey) :
    Shadows key (c.checkpointed tags other) (shadowed.checkpointed tags other) where
  padded := by
    have htouched : TouchedAll (shadowed.touch tags).tables tags :=
      touchedAll_touchAll (count.trans sound.length.symm)
    exact ((h.padded.touch_right tags).touch_left htouched).keep _ _
  checkpoints := h.checkpoints.insert other tags

theorem learned_forget (h : Shadows key c shadowed) (taken : Bool) (tags : List UInt64)
    (other : BranchKey) :
    Shadows key ((c.learned taken tags).forget other)
      ((shadowed.learned taken tags).forget other) where
  padded := (h.padded.learned taken tags).keep _ _
  checkpoints := h.checkpoints.erase other

theorem forget (h : Shadows key c shadowed) (other : BranchKey) :
    Shadows key (c.forget other) (shadowed.forget other) where
  padded := h.padded.keep _ _
  checkpoints := h.checkpoints.erase other

end Correlator.Shadows

/-! ## Selectors -/

/-- The branch that a hook predicts, resolves or squashes. -/
def Hook.branch? : Hook → Option BranchKey
  | .predict seqNo piece _ | .resolve seqNo piece _ _ _ _ | .squash seqNo piece =>
    BranchKey.ofParts? seqNo piece
  | _ => none

theorem BranchKey.ofParts?_of_ofParts {seqNo : UInt64} {piece : UInt8} {key : BranchKey}
    (h : BranchKey.ofParts seqNo piece = .ok key) : BranchKey.ofParts? seqNo piece = some key := by
  unfold ofParts at h
  split at h
  · next hsome => rw [hsome, Except.ok.inj h]
  · cases h

/-- A hook that is not about a branch has the key of another one, if it has one. -/
theorem Hook.ne_of_branch? {hook : Hook} {key other : BranchKey} {seqNo : UInt64} {piece : UInt8}
    (hbranch : hook.branch? ≠ some key) (hkey : BranchKey.ofParts seqNo piece = .ok other)
    (hparts : hook.branch? = BranchKey.ofParts? seqNo piece) : other ≠ key := by
  intro hsame
  exact hbranch (hparts.trans (hsame ▸ BranchKey.ofParts?_of_ofParts hkey))

namespace Selector

variable {bits : Nat} {key : BranchKey}

/-- The second selector is the first one with traces of one branch. -/
inductive Shadows (key : BranchKey) : Selector (Gshare bits) → Selector (Gshare bits) → Prop
  | intro {s : Selector (Gshare bits)} {correlator : Correlator} {knobs : Knobs}
      {inFlight : Std.ExtTreeMap BranchKey Provider} {stats : Stats} {baseline : Gshare bits} :
    s.correlator.Shadows key correlator → s.knobs.SameRunning knobs →
      AgreeOff key s.inFlight inFlight → s.stats.OneMore stats →
      s.baseline.Shadows key baseline →
      Shadows key s { s with correlator, knobs, inFlight, stats, baseline }

variable {s s' t : Selector (Gshare bits)} {hook : Hook} {outcome : Outcome}

theorem Shadows.refl (s : Selector (Gshare bits)) : Shadows key s s :=
  .intro ⟨.refl _, .refl _⟩ ⟨rfl, rfl⟩ (.refl _) (.inl rfl) ⟨rfl, rfl, .refl _⟩

theorem Shadows.inFlight (h : Shadows key s t) : AgreeOff key s.inFlight t.inFlight := by
  obtain ⟨-, -, hinFlight, -, -⟩ := h
  exact hinFlight

theorem Shadows.correlator (h : Shadows key s t) : s.correlator.Shadows key t.correlator := by
  obtain ⟨hcorrelator, -, -, -, -⟩ := h
  exact hcorrelator

theorem Shadows.baseline (h : Shadows key s t) : s.baseline.Shadows key t.baseline := by
  obtain ⟨-, -, -, -, hbaseline⟩ := h
  exact hbaseline

/-- Setting up wipes the traces off. -/
theorem Shadows.setup_eq (h : Shadows key s t) (hs : s.Coherent (Gshare.contract bits))
    (ht : t.Coherent (Gshare.contract bits)) : t.setup = s.setup := by
  obtain ⟨-, -, -, -, -⟩ := h
  unfold Selector.setup
  rw [hs.correlator.frame, ht.correlator.frame]
  rfl

/-- The prediction of another branch. -/
theorem Shadows.predict (h : Shadows key s t) (ht : t.Coherent (Gshare.contract bits))
    (other : BranchKey) (pc : UInt64) :
    t.prediction other pc = s.prediction other pc ∧
      Shadows key (s.predicted other pc) (t.predicted other pc) := by
  obtain @⟨correlator, knobs, inFlight, stats, baseline, hcorrelator, hknobs, hinFlight, hstats,
    hbaseline⟩ := h
  have hrefresh := hknobs.refresh_eq s.windows.counts
  -- The knobs that are copied in come from the windows, so the tags are the same.
  have htags : tags { s with correlator, knobs, inFlight, stats, baseline } = s.tags :=
    congrArg Knobs.tags hrefresh
  have hvote : correlator.vote s.tags = s.correlator.vote s.tags :=
    hcorrelator.padded.vote_eq s.tags
  have hprovider : provider { s with correlator, knobs, inFlight, stats, baseline } pc =
      s.provider pc := by
    unfold provider
    rw [htags, hvote]
    rfl
  constructor
  · unfold prediction
    rw [htags, hvote, hprovider]
    exact congrArg (Prediction.mk other pc _ · _ _) (hbaseline.vote_eq other pc)
  · have hcheckpointed := hcorrelator.checkpointed ht.correlator (length_tags s) other
    unfold Selector.predicted
    rw [htags, hprovider]
    refine .intro hcheckpointed ?_ (hinFlight.insert other _) (hstats.recordPrediction _)
      (hbaseline.predict other pc)
    exact ⟨hknobs.callDepth, hknobs.globalBias⟩

theorem Shadows.fetch (h : Shadows key s t) (branch : Branch) (other : BranchKey)
    (direction : Bool) :
    Shadows key (s.fetched branch other direction) (t.fetched branch other direction) := by
  obtain ⟨hcorrelator, hknobs, hinFlight, hstats, hbaseline⟩ := h
  exact .intro hcorrelator (hknobs.fetchKnobs branch.kind branch.taken) hinFlight hstats
    (hbaseline.fetchBaseline branch other direction)

/-- The call that consumes another branch. -/
theorem Shadows.consume (h : Shadows key s t) {other : BranchKey} (hne : other ≠ key) {pc : UInt64}
    {predicted taken : Bool} {nextPc : UInt64} {baseline : Gshare bits}
    (consumed : s.consume other pc predicted taken nextPc = .ok baseline) :
    ∃ after, t.consume other pc predicted taken nextPc = .ok after ∧
      baseline.Shadows key after := by
  obtain ⟨-, -, -, -, hbaseline⟩ := h
  unfold Selector.consume at consumed ⊢
  show ∃ after, (if (s.filterAfter pc (predicted == taken)).contains pc = true then _ else _) = _ ∧ _
  split at consumed
  · next hmember =>
    simp only [if_pos hmember]
    exact hbaseline.update hne consumed
  · next hmember =>
    simp only [if_neg hmember]
    exact hbaseline.killCheckpoint hne consumed

/-- The resolution of another branch. -/
theorem Shadows.resolve (h : Shadows key s t) (other : BranchKey) (provider : Provider)
    (tags : List UInt64) (pc : UInt64) (predicted taken : Bool) {baseline after : Gshare bits}
    (hafter : baseline.Shadows key after) :
    t.resolution other provider tags pc predicted taken =
        s.resolution other provider tags pc predicted taken ∧
      Shadows key { s.resolved other provider tags pc predicted taken with baseline }
        { t.resolved other provider tags pc predicted taken with baseline := after } := by
  obtain @⟨correlator, knobs, inFlight, stats, baseline', hcorrelator, hknobs, hinFlight, hstats,
    -⟩ := h
  have htraining : correlator.training taken tags = s.correlator.training taken tags :=
    hcorrelator.padded.training_eq taken tags
  constructor
  · exact congrArg (Resolution.mk other pc predicted taken provider · _) htraining
  · have hcounts := hstats.recordResolution provider (predicted == taken)
      (s.added pc (predicted == taken))
      (if (s.correlator.training taken tags).trained then 0 else 1)
    unfold Selector.resolved
    simp only [htraining]
    exact .intro (hcorrelator.learned_forget taken tags other) hknobs (hinFlight.erase other)
      hcounts hafter

/-- Whatever step one selector makes that is about other branches, a selector with traces of the
branch makes too. -/
theorem Shadows.step (h : Shadows key s t) (hs : s.Coherent (Gshare.contract bits))
    (ht : t.Coherent (Gshare.contract bits)) (hbranch : hook.branch? ≠ some key)
    (hstep : s.Step hook outcome s') : ∃ t', t.Step hook outcome t' ∧ Shadows key s' t' := by
  have hinFlight := h.inFlight
  have hcheckpoints := h.correlator.checkpoints
  cases hstep with
  | setup => exact ⟨t.setup, .setup, h.setup_eq hs ht ▸ .refl _⟩
  | @predict seqNo piece pc other hkey idle =>
    have hidle : other ∉ t.inFlight := mt (hinFlight.mem_iff (Hook.ne_of_branch? hbranch hkey rfl)).1 idle
    obtain ⟨hprediction, hpredicted⟩ := h.predict ht other pc
    exact ⟨_, hprediction ▸ .predict hkey hidle, hpredicted⟩
  | fetch hkey => exact ⟨_, .fetch hkey, h.fetch _ _ _⟩
  | resolve hkey hprovider htags consumed =>
    have hne := Hook.ne_of_branch? hbranch hkey rfl
    obtain ⟨after, hconsumed, hafter⟩ := h.consume hne consumed
    obtain ⟨hresolution, hresolved⟩ := h.resolve _ _ _ _ _ _ hafter
    have hresolve := Step.resolve hkey ((hinFlight _ hne).trans hprovider)
      ((hcheckpoints _ hne).trans htags) hconsumed
    rw [hresolution] at hresolve
    exact ⟨_, hresolve, hresolved⟩
  | squash hkey live discarded =>
    have hne := Hook.ne_of_branch? hbranch hkey rfl
    have hlive := (hinFlight.mem_iff hne).2 live
    obtain ⟨hcorrelator, hknobs, -, hstats, hbaseline⟩ := h
    obtain ⟨after, hdiscarded, hafter⟩ := hbaseline.killCheckpoint hne discarded
    exact ⟨_, .squash hkey hlive hdiscarded,
      .intro (hcorrelator.forget _) hknobs (hinFlight.erase _) hstats hafter⟩
  | decode hregister hkey => exact ⟨_, .decode hregister hkey, h⟩
  | decodeUntold hregister => exact ⟨t, .decodeUntold hregister, h⟩
  | execute hregister hkey => exact ⟨_, .execute hregister hkey, h⟩
  | executeUntold hregister => exact ⟨t, .executeUntold hregister, h⟩
  | advanceEpoch =>
    obtain ⟨hcorrelator, hknobs, -, hstats, hbaseline⟩ := h
    exact ⟨_, .advanceEpoch, .intro hcorrelator hknobs hinFlight hstats hbaseline⟩
  | clearFilter =>
    obtain ⟨hcorrelator, hknobs, -, hstats, hbaseline⟩ := h
    exact ⟨_, .clearFilter, .intro hcorrelator hknobs hinFlight hstats hbaseline⟩

end Selector

end BranchSelector
