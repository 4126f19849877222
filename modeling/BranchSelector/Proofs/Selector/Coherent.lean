import BranchSelector.Proofs.Baseline.Contract
import BranchSelector.Proofs.Correlator.Checkpoint
import BranchSelector.Selector.Hook

/-!
# Coherent selectors

A branch in flight leaves traces in three places: the selector's map of providers, the
checkpoints of the correlator and the state of the baseline. `Selector.Coherent` says that
the three agree. On a coherent selector every hook is a total function of the state, apart
from the answer of the baseline, and fails exactly if its key is in flight where it must
not be, or is not where it must be:

* `Coherent.predict_eq`, `Coherent.predict_eq_error` for predictions (`predicted`);
* `fetch_eq` for fetches (`fetched`), which only need a valid key;
* `Coherent.resolve_eq`, `resolve_eq_error` for resolutions (`resolved`);
* `Coherent.squash_eq`, `squash_eq_error` for squashes (`squashed`).

Each hook keeps the selector coherent.
-/

namespace BranchSelector

theorem setOf_mem_empty : {k | k ∈ (∅ : Std.ExtTreeMap BranchKey Provider)} = ∅ :=
  Set.eq_empty_of_forall_notMem fun _ hkey => Std.ExtTreeMap.not_mem_empty hkey

theorem setOf_mem_insert (m : Std.ExtTreeMap BranchKey Provider) (key : BranchKey)
    (provider : Provider) : {k | k ∈ m.insert key provider} = insert key {k | k ∈ m} := by
  ext other
  show other ∈ m.insert key provider ↔ other = key ∨ other ∈ m
  rw [Std.ExtTreeMap.mem_insert, Std.LawfulEqCmp.compare_eq_iff_eq, eq_comm]

theorem setOf_mem_erase (m : Std.ExtTreeMap BranchKey Provider) (key : BranchKey) :
    {k | k ∈ m.erase key} = {k | k ∈ m} \ {key} := by
  ext other
  show other ∈ m.erase key ↔ other ∈ m ∧ other ≠ key
  rw [Std.ExtTreeMap.mem_erase, ne_eq, Std.LawfulEqCmp.compare_eq_iff_eq, and_comm,
    eq_comm (a := key)]

namespace Stats

theorem filterInsertions_recordResolution (stats : Stats) (provider : Provider) (right : Bool) :
    (stats.recordResolution provider right).filterInsertions = stats.filterInsertions := by
  cases provider <;> cases right <;> rfl

theorem thresholdSkips_recordResolution (stats : Stats) (provider : Provider) (right : Bool) :
    (stats.recordResolution provider right).thresholdSkips = stats.thresholdSkips := by
  cases provider <;> cases right <;> rfl

end Stats

namespace Selector

variable {β : Type}

/-! ## What a resolution does to the filter -/

/-- Whether a resolution puts the address into the filter. -/
def enters (s : Selector β) (pc : UInt64) (right : Bool) : Bool :=
  !right && s.admits pc

/-- The filter after a resolution. -/
def filterAfter (s : Selector β) (pc : UInt64) (right : Bool) : Filter :=
  if s.enters pc right then s.filter.insert pc else s.filter

/-- How many addresses a resolution adds to the filter: one, if the address enters and was
not a member. -/
def added (s : Selector β) (pc : UInt64) (right : Bool) : Nat :=
  if s.enters pc right && !s.filter.contains pc then 1 else 0

/-- The selector after a branch has gone out of flight and its address was offered to the
filter, before anything is trained. -/
def offered (s : Selector β) (key : BranchKey) (provider : Provider) (pc : UInt64)
    (right : Bool) : Selector β :=
  { s with
    filter := s.filterAfter pc right
    useCounter := if provider = .correlator then s.useCounter.update right else s.useCounter
    epochInsertions := s.epochInsertions + s.added pc right
    inFlight := s.inFlight.erase key
    stats := { s.stats.recordResolution provider right with
      filterInsertions := s.stats.filterInsertions + s.added pc right } }

/-- A right prediction is settled and that is all. -/
theorem settle_eq_offered (s : Selector β) (key : BranchKey) (provider : Provider)
    (pc : UInt64) : s.settle key provider true = s.offered key provider pc true := by
  have hinsertions := s.stats.filterInsertions_recordResolution provider true
  simp only [settle, offered, filterAfter, added, enters, Bool.not_true, Bool.false_and,
    Bool.false_eq_true, if_false, Nat.add_zero, ← hinsertions]

/-- A wrong prediction is settled, and then its address is offered to the filter. -/
theorem recordMisprediction_settle (s : Selector β) (key : BranchKey) (provider : Provider)
    (pc : UInt64) :
    (s.settle key provider false).recordMisprediction pc = s.offered key provider pc false := by
  have hinsertions := s.stats.filterInsertions_recordResolution provider false
  have hadmits : (s.settle key provider false).admits pc = s.admits pc := rfl
  unfold recordMisprediction
  rw [hadmits]
  by_cases hpc : s.admits pc = true
  · by_cases hmember : s.filter.contains pc = true <;>
      simp [settle, offered, filterAfter, added, enters, hpc, hmember, ← hinsertions]
  · simp [settle, offered, filterAfter, added, enters, hpc, ← hinsertions]

/-- The first half of a resolution of a branch with a provider: whether it was right or wrong,
the branch is settled and its address offered, and then the correlator is trained. -/
theorem train_of_provider {s : Selector β} {key : BranchKey} {provider : Provider}
    (hprovider : s.inFlight[key]? = some provider) (pc : UInt64) (predicted taken : Bool) :
    s.train key pc predicted taken = do
      let (training, correlator) ← s.correlator.update taken key
      return (provider, training, { s.offered key provider pc (predicted == taken) with
        correlator
        stats := { (s.offered key provider pc (predicted == taken)).stats with
          thresholdSkips := s.stats.thresholdSkips + if training.trained then 0 else 1 } }) := by
  have hskips := s.stats.thresholdSkips_recordResolution provider (predicted == taken)
  have hoffered : (if (predicted == taken) = true then
        s.settle key provider (predicted == taken)
      else (s.settle key provider (predicted == taken)).recordMisprediction pc) =
      s.offered key provider pc (predicted == taken) := by
    cases predicted == taken with
    | true => exact settle_eq_offered s key provider pc
    | false => exact recordMisprediction_settle s key provider pc
  unfold train
  rw [hprovider]
  simp only [hoffered]
  simp only [offered, hskips]

/-- The selector after the resolution of a branch in flight, but for its baseline. -/
def resolved (s : Selector β) (key : BranchKey) (provider : Provider) (tags : List UInt64)
    (pc : UInt64) (predicted taken : Bool) : Selector β :=
  let right := predicted == taken
  let skipped := if (s.correlator.training taken tags).trained then 0 else 1
  { s.offered key provider pc right with
    correlator := (s.correlator.learned taken tags).forget key
    stats := { (s.offered key provider pc right).stats with
      thresholdSkips := s.stats.thresholdSkips + skipped } }

/-- The resolution of a branch in flight. -/
def resolution (s : Selector β) (key : BranchKey) (provider : Provider) (tags : List UInt64)
    (pc : UInt64) (predicted taken : Bool) : Resolution :=
  ⟨key, pc, predicted, taken, provider, s.correlator.training taken tags,
    (s.filterAfter pc (predicted == taken)).contains pc⟩

/-! ## What a prediction does -/

/-- The tags that a prediction takes from the knobs. -/
def tags (s : Selector β) : List UInt64 :=
  (s.knobs.refresh s.windows.counts).tags

theorem length_tags (s : Selector β) : s.tags.length = Knob.count := rfl

/-- The provider that a prediction at an address follows. -/
def provider (s : Selector β) (pc : UInt64) : Provider :=
  if s.trustsCorrelator pc (s.correlator.vote s.tags).natAbs then .correlator else .baseline

/-- What `create` builds, it builds from a valid configuration. -/
theorem create_eq_ok {s : Selector β} {config : Config} {baseline : β}
    (h : create config baseline = .ok s) : config.Valid ∧ s = ofConfig config baseline := by
  unfold create at h
  cases hv : config.validate with
  | error e => rw [hv] at h; cases h
  | ok u =>
    rw [hv] at h
    exact ⟨Config.validate_eq_ok_iff.1 hv, (Except.ok.inj h).symm⟩

variable [Baseline β]

/-- The prediction of a branch that is not in flight. -/
def prediction (s : Selector β) (key : BranchKey) (pc : UInt64) : Prediction :=
  ⟨key, pc, s.correlator.vote s.tags, (Baseline.predict s.baseline key pc).1,
    Correlator.favours (s.correlator.vote s.tags), s.provider pc⟩

/-- The selector after the prediction of a branch that was not in flight. -/
def predicted (s : Selector β) (key : BranchKey) (pc : UInt64) : Selector β :=
  { s with
    correlator := s.correlator.checkpointed s.tags key
    knobs := s.knobs.refresh s.windows.counts
    inFlight := s.inFlight.insert key (s.provider pc)
    stats := s.stats.recordPrediction (s.provider pc)
    baseline := (Baseline.predict s.baseline key pc).2 }

/-- The selector after a fetch of a branch with a valid key. -/
def fetched (s : Selector β) (branch : Branch) (key : BranchKey) (direction : Bool) :
    Selector β :=
  { s with
    windows := fetchWindows s.windows branch
    knobs := fetchKnobs s.knobs branch.kind branch.taken
    baseline := fetchBaseline s.baseline branch key direction }

theorem fetch_eq (s : Selector β) {branch : Branch} {key : BranchKey}
    (hkey : branch.key = .ok key) (direction : Bool) :
    s.fetch branch direction = .ok (s.fetched branch key direction) := by
  unfold fetch
  rw [hkey]
  rfl

/-- The call that consumes a resolved branch at the baseline: training for a member of the
filter, and discarding for any other. -/
def consume (s : Selector β) (key : BranchKey) (pc : UInt64) (predicted taken : Bool)
    (nextPc : UInt64) : Except Violation β :=
  if (s.filterAfter pc (predicted == taken)).contains pc then
    Baseline.update s.baseline key pc taken predicted nextPc
  else Baseline.killCheckpoint s.baseline key

/-- The selector after squashing a branch in flight, but for its baseline. -/
def squashed (s : Selector β) (key : BranchKey) : Selector β :=
  { s with correlator := s.correlator.forget key, inFlight := s.inFlight.erase key }

/-! ## Coherence -/

/-- The providers, the correlator's checkpoints and the baseline agree on which branches are
in flight, and the correlator is that of the configuration. -/
structure Coherent (C : Baseline.Contract β) (s : Selector β) : Prop where
  width : Tag.Foldable s.config.correlator.foldedTagBits
  correlator : s.correlator.Sound s.config.correlator
  checkpoints : ∀ key, key ∈ s.correlator.checkpoints ↔ key ∈ s.inFlight
  baseline : C.serves s.baseline {key | key ∈ s.inFlight}

variable {C : Baseline.Contract β} {s : Selector β}

theorem coherent_ofConfig {config : Config} (valid : config.Valid) {baseline : β}
    (h : C.serves baseline ∅) : (ofConfig config baseline).Coherent C where
  width := foldable_of_valid valid
  correlator := Correlator.sound_ofConfig config.correlator
  checkpoints _ := Iff.rfl
  baseline := by
    show C.serves baseline {key | key ∈ (∅ : Std.ExtTreeMap BranchKey Provider)}
    rw [setOf_mem_empty]
    exact h

/-- A setup leaves no branch in flight, whichever branches the baseline served before. -/
theorem coherent_setup (width : Tag.Foldable s.config.correlator.foldedTagBits)
    (sound : s.correlator.Sound s.config.correlator) {live : Set BranchKey}
    (h : C.serves s.baseline live) : s.setup.Coherent C where
  width := width
  correlator := sound.reset
  checkpoints _ := Iff.rfl
  baseline := by
    show C.serves (Baseline.setup s.baseline) {key | key ∈ (∅ : Std.ExtTreeMap BranchKey Provider)}
    rw [setOf_mem_empty]
    exact C.setup h

theorem Coherent.setup (h : s.Coherent C) : s.setup.Coherent C :=
  coherent_setup h.width h.correlator h.baseline

/-- A selector around gshare is coherent once it is set up, whatever gshare kept before. -/
theorem coherent_setup_gshare {bits : Nat} {config : Config} (valid : config.Valid)
    (g : Gshare bits) : (ofConfig config g).setup.Coherent (Gshare.contract bits) :=
  coherent_setup (foldable_of_valid valid) (Correlator.sound_ofConfig config.correlator)
    (fun _ => Iff.rfl : g.Serves {key | key ∈ g.checkpoints})

/-- A branch in flight has a provider and a checkpoint. -/
theorem Coherent.lookup (h : s.Coherent C) {key : BranchKey} (live : key ∈ s.inFlight) :
    ∃ provider tags, s.inFlight[key]? = some provider ∧
      s.correlator.checkpoints[key]? = some tags := by
  obtain ⟨provider, hp⟩ := Option.isSome_iff_exists.1
    (Std.ExtTreeMap.mem_iff_isSome_getElem?.1 live)
  obtain ⟨tags, ht⟩ := Option.isSome_iff_exists.1
    (Std.ExtTreeMap.mem_iff_isSome_getElem?.1 ((h.checkpoints key).2 live))
  exact ⟨provider, tags, hp, ht⟩

/-- A branch that leaves the flight takes its checkpoint along. -/
theorem Coherent.mem_erase (h : s.Coherent C) (key other : BranchKey) :
    other ∈ s.correlator.checkpoints.erase key ↔ other ∈ s.inFlight.erase key := by
  rw [Std.ExtTreeMap.mem_erase, Std.ExtTreeMap.mem_erase, h.checkpoints other]

/-! ### Prediction -/

/-- The vote that a prediction judges by its strength leaves the correlator alone: its tags
were touched by the vote before. -/
theorem Coherent.rawPredict_checkpointed (h : s.Coherent C) (key : BranchKey) :
    (s.correlator.checkpointed s.tags key).rawPredict s.tags =
      .ok (s.correlator.vote s.tags, s.correlator.checkpointed s.tags key) := by
  have hsound := h.correlator.checkpointed (length_tags s) key
  have hvote : (s.correlator.checkpointed s.tags key).vote s.tags = s.correlator.vote s.tags :=
    s.correlator.vote_touch s.tags s.tags
  have htouched : TouchedAll (s.correlator.checkpointed s.tags key).tables s.tags :=
    touchedAll_touchAll h.correlator.length.symm
  have htouch : (s.correlator.checkpointed s.tags key).touch s.tags =
      s.correlator.checkpointed s.tags key := by
    rw [Correlator.touch, htouched.touchAll_eq]
  rw [hsound.rawPredict_eq h.width (length_tags s), hvote, htouch]

/-- A branch that is not in flight can be predicted. -/
theorem Coherent.predict_eq (h : s.Coherent C) {seqNo : UInt64} {piece : UInt8}
    {key : BranchKey} (hkey : BranchKey.ofParts seqNo piece = .ok key)
    (idle : key ∉ s.inFlight) (pc : UInt64) :
    s.predict seqNo piece pc = .ok (s.prediction key pc, s.predicted key pc) := by
  have hpredict := h.correlator.predict_eq h.width (length_tags s)
    (mt (h.checkpoints key).1 idle)
  -- The raw vote comes second, when the tags are touched and kept already.
  have hraw := h.rawPredict_checkpointed key
  have hidle : ¬ s.inFlight.contains key = true := idle
  rw [tags] at hpredict hraw
  unfold predict
  simp only [hkey, hpredict, hraw, bind, Except.bind]
  rw [if_neg hidle]
  rfl

/-- A branch that is in flight cannot be predicted again. -/
theorem Coherent.predict_eq_error (h : s.Coherent C) {seqNo : UInt64} {piece : UInt8}
    {key : BranchKey} (hkey : BranchKey.ofParts seqNo piece = .ok key)
    (live : key ∈ s.inFlight) (pc : UInt64) :
    s.predict seqNo piece pc = .error (.checkpointLive key) := by
  have hpredict := h.correlator.predict_eq_error h.width (length_tags s)
    ((h.checkpoints key).2 live)
  rw [tags] at hpredict
  unfold predict
  simp only [hkey, hpredict, bind, Except.bind]

theorem Coherent.predicted (h : s.Coherent C) (key : BranchKey) (pc : UInt64) :
    (s.predicted key pc).Coherent C where
  width := h.width
  correlator := h.correlator.checkpointed (length_tags s) key
  checkpoints other := by
    show other ∈ s.correlator.checkpoints.insert key s.tags ↔
      other ∈ s.inFlight.insert key (s.provider pc)
    rw [Std.ExtTreeMap.mem_insert, Std.ExtTreeMap.mem_insert, h.checkpoints other]
  baseline := by
    show C.serves _ {k | k ∈ s.inFlight.insert key (s.provider pc)}
    rw [setOf_mem_insert]
    exact C.predict key pc h.baseline

/-! ### Fetch -/

theorem Coherent.fetched (h : s.Coherent C) (branch : Branch) (key : BranchKey)
    (direction : Bool) : (s.fetched branch key direction).Coherent C where
  width := h.width
  correlator := h.correlator
  checkpoints := h.checkpoints
  baseline := by
    show C.serves (fetchBaseline s.baseline branch key direction) _
    unfold fetchBaseline
    split
    · exact C.updateHistory _ _ _ _ _ _ h.baseline
    · exact C.trackOther _ _ _ _ _ h.baseline

/-! ### Resolution -/

/-- The first half of a resolution of a branch in flight. -/
theorem Coherent.train_eq (h : s.Coherent C) {key : BranchKey} {provider : Provider}
    {tags : List UInt64} (hprovider : s.inFlight[key]? = some provider)
    (htags : s.correlator.checkpoints[key]? = some tags) (pc : UInt64) (predicted taken : Bool) :
    s.train key pc predicted taken =
      .ok (provider, s.correlator.training taken tags,
        s.resolved key provider tags pc predicted taken) := by
  rw [train_of_provider hprovider, h.correlator.update_eq htags taken]
  rfl

/-- A branch in flight can be resolved, if the baseline consumes it. -/
theorem Coherent.resolve_eq (h : s.Coherent C) {seqNo : UInt64} {piece : UInt8}
    {key : BranchKey} {provider : Provider} {tags : List UInt64}
    (hkey : BranchKey.ofParts seqNo piece = .ok key)
    (hprovider : s.inFlight[key]? = some provider)
    (htags : s.correlator.checkpoints[key]? = some tags) (pc : UInt64) (predicted taken : Bool)
    (nextPc : UInt64) :
    s.resolve seqNo piece pc predicted taken nextPc =
      (s.consume key pc predicted taken nextPc).map fun baseline =>
        (s.resolution key provider tags pc predicted taken,
          { s.resolved key provider tags pc predicted taken with baseline }) := by
  -- The route is chosen by the filter after the resolution, on the baseline of before.
  have hroute : (s.resolved key provider tags pc predicted taken).route key pc predicted taken
      nextPc = (s.consume key pc predicted taken nextPc).map fun baseline =>
        ((s.filterAfter pc (predicted == taken)).contains pc,
          { s.resolved key provider tags pc predicted taken with baseline }) := by
    have hfilter : (s.resolved key provider tags pc predicted taken).filter =
      s.filterAfter pc (predicted == taken) := rfl
    have hbaseline : (s.resolved key provider tags pc predicted taken).baseline =
      s.baseline := rfl
    unfold route consume
    simp only [hfilter, hbaseline]
    split
    · cases Baseline.update s.baseline key pc taken predicted nextPc <;> rfl
    · cases Baseline.killCheckpoint s.baseline key <;> rfl
  unfold resolve
  simp only [hkey, h.train_eq hprovider htags, hroute, bind, Except.bind]
  cases s.consume key pc predicted taken nextPc <;> rfl

/-- A branch that is not in flight cannot be resolved. -/
theorem resolve_eq_error {seqNo : UInt64} {piece : UInt8} {key : BranchKey}
    (hkey : BranchKey.ofParts seqNo piece = .ok key) (idle : key ∉ s.inFlight) (pc : UInt64)
    (predicted taken : Bool) (nextPc : UInt64) :
    s.resolve seqNo piece pc predicted taken nextPc = .error (.resolveUnpredicted key) := by
  have hnone : s.inFlight[key]? = none := Std.ExtTreeMap.getElem?_eq_none idle
  unfold resolve train
  simp only [hkey, hnone, bind, Except.bind]

/-- The baseline consumes a branch in flight, or refuses as its contract lets it. -/
theorem Coherent.consume_ends (h : s.Coherent C) {key : BranchKey} (live : key ∈ s.inFlight)
    (pc : UInt64) (predicted taken : Bool) (nextPc : UInt64) :
    Ends (s.consume key pc predicted taken nextPc)
      (C.serves · {k | k ∈ s.inFlight.erase key}) C.refuses := by
  rw [setOf_mem_erase]
  unfold consume
  split
  · exact C.update key pc taken predicted nextPc h.baseline live
  · exact C.killCheckpoint key h.baseline live

theorem Coherent.resolved (h : s.Coherent C) {key : BranchKey} {provider : Provider}
    {tags : List UInt64} (htags : s.correlator.checkpoints[key]? = some tags) (pc : UInt64)
    (predicted taken : Bool) {baseline : β}
    (served : C.serves baseline {k | k ∈ s.inFlight.erase key}) :
    Coherent C { s.resolved key provider tags pc predicted taken with baseline } where
  width := h.width
  correlator := (h.correlator.learned (h.correlator.touched htags) taken).forget key
  checkpoints := h.mem_erase key
  baseline := served

/-! ### Squash -/

/-- A branch in flight can be squashed, if the baseline discards it. -/
theorem Coherent.squash_eq (h : s.Coherent C) {seqNo : UInt64} {piece : UInt8}
    {key : BranchKey} (hkey : BranchKey.ofParts seqNo piece = .ok key)
    (live : key ∈ s.inFlight) :
    s.squash seqNo piece = (Baseline.killCheckpoint s.baseline key).map fun baseline =>
      (key, { s.squashed key with baseline }) := by
  have hlive : ¬ (!s.inFlight.contains key) = true := by
    have hcontains : s.inFlight.contains key = true := live
    simp [hcontains]
  have hkill := Correlator.killCheckpoint_eq ((h.checkpoints key).2 live)
  unfold squash
  simp only [hkey, bind, Except.bind]
  rw [if_neg hlive]
  simp only [hkill, pure, Except.pure]
  cases Baseline.killCheckpoint s.baseline key <;> rfl

/-- A branch that is not in flight cannot be squashed. -/
theorem squash_eq_error {seqNo : UInt64} {piece : UInt8} {key : BranchKey}
    (hkey : BranchKey.ofParts seqNo piece = .ok key) (idle : key ∉ s.inFlight) :
    s.squash seqNo piece = .error (.squashUnpredicted key) := by
  have hidle : (!s.inFlight.contains key) = true := by
    have hcontains : s.inFlight.contains key = false := Bool.eq_false_iff.2 idle
    rw [hcontains]
    rfl
  unfold squash
  simp only [hkey, bind, Except.bind]
  rw [if_pos hidle]
  rfl

theorem Coherent.squashed (h : s.Coherent C) (key : BranchKey) {baseline : β}
    (served : C.serves baseline {k | k ∈ s.inFlight.erase key}) :
    Coherent C { s.squashed key with baseline } where
  width := h.width
  correlator := h.correlator.forget key
  checkpoints := h.mem_erase key
  baseline := served

end Selector

end BranchSelector
