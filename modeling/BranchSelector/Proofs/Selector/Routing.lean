import BranchSelector.Proofs.Baseline.Protocol
import BranchSelector.Proofs.Selector.History
import BranchSelector.Proofs.Selector.Membership

/-!
# Which call consumes a branch

A resolution makes one call to the baseline, and the filter chooses it: training if the address is
a member once it was offered to the filter, and discarding otherwise (`Coherent.resolve_calls`).

Membership chooses the provider as well, at the prediction. In between members stay members, unless
a hook empties the filter (`Step.contains`). So what the baseline has predicted it is trained on,
and what it has to discard was predicted by the correlator. If the filter was receptive at the
resolution, the prediction was right as well (`trained_of_served`). `Step.carries` keeps the two
facts about a branch in flight from which this follows.
-/

namespace BranchSelector

/-- A key has one sequence number and one piece index. -/
theorem BranchKey.ofParts_inj {seqNo seqNo' : UInt64} {piece piece' : UInt8} {key : BranchKey}
    (h : ofParts seqNo piece = .ok key) (h' : ofParts seqNo' piece' = .ok key) :
    seqNo' = seqNo ∧ piece' = piece := by
  unfold ofParts ofParts? at h h'
  by_cases hpiece : piece.toNat < 16
  · by_cases hpiece' : piece'.toNat < 16
    · rw [dif_pos hpiece] at h
      rw [dif_pos hpiece'] at h'
      have hsame := (Except.ok.inj h').trans (Except.ok.inj h).symm
      obtain ⟨hseqNo, hindex⟩ := BranchKey.mk.inj hsame
      exact ⟨hseqNo, UInt8.toNat_inj.1 (Fin.mk.inj hindex)⟩
    · rw [dif_neg hpiece'] at h'
      cases h'
  · rw [dif_neg hpiece] at h
    cases h

/-- Whether a hook empties the filter. -/
def Hook.empties : Hook → Bool
  | .setup | .clearFilter => true
  | .predict _ _ _ | .fetch _ _ | .resolve _ _ _ _ _ _ | .squash _ _ | .decode _ _ _
  | .execute _ _ _ _ | .advanceEpoch => false

namespace Selector

variable {β : Type}

/-! ## What a hook does to the filter -/

/-- The filter after a hook. -/
def filterBy (s : Selector β) : Hook → Filter
  | .setup | .clearFilter => s.filter.clear
  | .resolve _ _ pc predicted taken _ => s.filterAfter pc (predicted == taken)
  | .predict _ _ _ | .fetch _ _ | .squash _ _ | .decode _ _ _ | .execute _ _ _ _
  | .advanceEpoch => s.filter

section Steps

variable [Baseline β] {s s' : Selector β} {hook : Hook} {outcome : Outcome}

theorem Step.filter_eq (hstep : s.Step hook outcome s') : s'.filter = s.filterBy hook := by
  cases hstep <;> rfl

theorem Step.kind_eq (hstep : s.Step hook outcome s') : s'.filter.kind = s.filter.kind := by
  rw [hstep.filter_eq]
  cases hook with
  | setup | clearFilter => exact Filter.kind_clear _
  | resolve => exact kind_filterAfter _ _ _
  | predict | fetch | squash | decode | execute | advanceEpoch => rfl

/-- No hooks change the kind of the filter. -/
theorem Coherent.kind_of_applyAll {C : Baseline.Contract β} (h : s.Coherent C) {hooks : List Hook}
    {outcomes : List Outcome} (run : s.applyAll hooks = .ok (outcomes, s')) :
    s'.filter.kind = s.filter.kind :=
  (h.applyAll_induction (P := fun _ t => t.filter.kind = s.filter.kind)
    (fun _ hstep hkind => hstep.kind_eq.trans hkind) run [] rfl).2

/-- The filter is of the kind that the configuration asks for. -/
theorem kind_of_run {config : Config} {baseline : β} {s₀ : Selector β} {hooks : List Hook}
    {outcomes : List Outcome} (created : create config baseline = .ok s₀)
    (run : s₀.applyAll hooks = .ok (outcomes, s)) : s.filter.kind = config.effectiveFilterKind := by
  refine (created_induction (C := Baseline.anyContract β)
    (P := fun _ t => t.filter.kind = config.effectiveFilterKind) created trivial ?_ run ?_).2
  · intro _ t t' hook outcome _ hstep hkind
    rw [hstep.kind_eq, hkind]
  · exact Filter.kind_empty _ _

/-- Members stay members until the filter is emptied. -/
theorem Step.contains (hstep : s.Step hook outcome s') (hkept : hook.empties = false)
    {pc : UInt64} (h : s.filter.contains pc = true) : s'.filter.contains pc = true := by
  rw [hstep.filter_eq]
  cases hook with
  | setup | clearFilter => cases hkept
  | resolve => exact contains_filterAfter h _ _
  | predict | fetch | squash | decode | execute | advanceEpoch => exact h

end Steps

/-! ## The call of a resolution -/

/-- The call that consumes a resolved branch: training for a member of the filter, and discarding
for any other. -/
def consumingCall (s : Selector β) (key : BranchKey) (pc : UInt64) (predicted taken : Bool)
    (nextPc : UInt64) : BaselineCall :=
  if (s.filterAfter pc (predicted == taken)).contains pc then
    .update key pc taken predicted nextPc
  else .killCheckpoint key

/-- The baseline is trained on a member. -/
theorem consumingCall_of_contains {s : Selector β} {pc : UInt64} (h : s.filter.contains pc = true)
    (key : BranchKey) (predicted taken : Bool) (nextPc : UInt64) :
    s.consumingCall key pc predicted taken nextPc = .update key pc taken predicted nextPc :=
  if_pos (contains_filterAfter h pc _)

/-- As long as the filter is receptive, the baseline is trained on what was mispredicted. -/
theorem Receptive.consumingCall_wrong {s : Selector β} (h : s.Receptive) (key : BranchKey)
    (pc : UInt64) {predicted taken : Bool} (hwrong : predicted ≠ taken) (nextPc : UInt64) :
    s.consumingCall key pc predicted taken nextPc = .update key pc taken predicted nextPc := by
  have hright : (predicted == taken) = false := beq_eq_false_iff_ne.2 hwrong
  unfold consumingCall
  rw [hright, if_pos (h.contains_filterAfter_wrong pc)]

/-- A recorded predictor that consumes a branch keeps the call. -/
theorem calls_of_consume [Baseline β] {s : Selector (Recorded β)} {key : BranchKey} {pc : UInt64}
    {predicted taken : Bool} {nextPc : UInt64} {baseline : Recorded β}
    (h : s.consume key pc predicted taken nextPc = .ok baseline) :
    baseline.calls = s.baseline.calls ++ [s.consumingCall key pc predicted taken nextPc] := by
  unfold consume at h
  unfold consumingCall
  split at h
  case isTrue hmember =>
    obtain ⟨inner, -, rfl⟩ := map_eq_ok_iff.1 h
    rw [if_pos hmember]
    exact s.baseline.calls_after _ _
  case isFalse hmember =>
    obtain ⟨inner, -, rfl⟩ := map_eq_ok_iff.1 h
    rw [if_neg hmember]
    exact s.baseline.calls_after _ _

/-! ## A branch between its prediction and its resolution -/

/-- A branch, if it is still in flight, follows the provider of its prediction. If that is the
baseline, its address is a member of the filter. -/
structure Carries (key : BranchKey) (pc : UInt64) (provider : Provider) (s : Selector β) :
    Prop where
  provider_eq : ∀ {other : Provider}, s.inFlight[key]? = some other → other = provider
  member : provider = .baseline → s.filter.contains pc = true

section Steps

variable [Baseline β] {s s' : Selector β} {hook : Hook} {outcome : Outcome} {seqNo : UInt64}
  {piece : UInt8} {key : BranchKey} {pc : UInt64} {provider : Provider}

theorem Step.carries (hstep : s.Step hook outcome s')
    (hkey : BranchKey.ofParts seqNo piece = .ok key)
    (hother : ∀ other, hook ≠ .predict seqNo piece other) (hkept : hook.empties = false)
    (h : s.Carries key pc provider) : s'.Carries key pc provider := by
  constructor
  · intro other hlive
    rcases hstep.getElem?_inFlight hlive with hearlier | ⟨seqNo', piece', pc', rfl, hkey', -⟩
    · exact h.provider_eq hearlier
    · -- The key of the branch at hand would make the hook its prediction.
      obtain ⟨rfl, rfl⟩ := BranchKey.ofParts_inj hkey hkey'
      exact absurd rfl (hother pc')
  · intro hbaseline
    exact hstep.contains hkept (h.member hbaseline)

/-- What a branch carries it keeps as long as no hook empties the filter and none predicts the
branch anew. -/
theorem Coherent.carries_of_applyAll {C : Baseline.Contract β} (h : s.Coherent C)
    (hkey : BranchKey.ofParts seqNo piece = .ok key) (hcarries : s.Carries key pc provider)
    {hooks : List Hook} {outcomes : List Outcome} (kept : ∀ hook ∈ hooks, hook.empties = false)
    (once : ∀ other, .predict seqNo piece other ∉ hooks)
    (run : s.applyAll hooks = .ok (outcomes, s')) : s'.Carries key pc provider := by
  refine (h.applyAll_induction
    (P := fun done t => (∀ hook ∈ done, hook.empties = false) →
      (∀ other, .predict seqNo piece other ∉ done) → t.Carries key pc provider)
    ?_ run [] (fun _ _ => hcarries)).2 kept once
  intro done t t' hook outcome _ hstep ih hkept honce
  rw [List.forall_mem_append, List.forall_mem_singleton] at hkept
  simp only [List.mem_append, List.mem_singleton, not_or, forall_and] at honce
  have hother : ∀ other, hook ≠ .predict seqNo piece other := fun other hsame =>
    honce.2 other hsame.symm
  exact hstep.carries hkey hother hkept.2 (ih hkept.1 honce.1)

/-- Where membership selects, a prediction carries its provider. -/
theorem carries_predicted (hmode : s.config.arbiter.mode ≠ .rawStrength) (key : BranchKey)
    (pc : UInt64) : (s.predicted key pc).Carries key pc (s.provider pc) := by
  constructor
  · intro other hlive
    have hinsert : (s.inFlight.insert key (s.provider pc))[key]? = some other := hlive
    rw [Std.ExtTreeMap.getElem?_insert_self] at hinsert
    exact (Option.some.inj hinsert).symm
  · intro hbaseline
    show s.filter.contains pc = true
    rw [provider_of_mode hmode] at hbaseline
    by_contra hmember
    rw [if_neg hmember] at hbaseline
    cases hbaseline

end Steps

/-- A resolution makes the call that the filter chooses, unless it breaks the contract or the
baseline refuses. -/
theorem Coherent.resolve_calls [Baseline β] {C : Baseline.Contract (Recorded β)}
    {s : Selector (Recorded β)} (h : s.Coherent C) {seqNo : UInt64} {piece : UInt8}
    {key : BranchKey} (hkey : BranchKey.ofParts seqNo piece = .ok key) (pc : UInt64)
    (predicted taken : Bool) (nextPc : UInt64) :
    Ends (s.resolve seqNo piece pc predicted taken nextPc)
      (fun answer => answer.2.filter = s.filterAfter pc (predicted == taken) ∧
        answer.2.baseline.calls =
          s.baseline.calls ++ [s.consumingCall key pc predicted taken nextPc])
      (fun violation => s.Breach (.resolve seqNo piece pc predicted taken nextPc) violation ∨
        C.refuses violation) := by
  refine (h.resolve_ends seqNo piece pc predicted taken nextPc).mono ?_
  rintro ⟨resolution, t⟩ hstep
  cases hstep with
  | @resolve _ _ _ _ _ _ other _ _ baseline hother _ _ consumed =>
    obtain rfl : other = key := Except.ok.inj (hother.symm.trans hkey)
    exact ⟨rfl, calls_of_consume consumed⟩

/-- A branch is predicted after any hooks. Then come others, of which none empties the filter and
none predicts the branch anew, and then the branch is resolved at the address of its prediction.
In the two modes that select by membership the resolution makes one call to the baseline, which is
trained on the branch or discards it, unless it breaks the contract or the baseline refuses. The
baseline is trained if the prediction was its own. It discards, if the filter is an exact set or
the epoch is even by then, only what the correlator has predicted right. -/
theorem trained_of_served [Baseline β] {config : Config} {b : Recorded β}
    {s₀ s₁ s₂ s₃ : Selector (Recorded β)} {before between : List Hook}
    {outcomes outcomes' : List Outcome} {seqNo : UInt64} {piece : UInt8} {pc : UInt64}
    {prediction : Prediction} (created : create config b = .ok s₀)
    (mode : config.arbiter.mode ≠ .rawStrength) (run : s₀.applyAll before = .ok (outcomes, s₁))
    (predicts : s₁.predict seqNo piece pc = .ok (prediction, s₂))
    (waits : s₂.applyAll between = .ok (outcomes', s₃))
    (kept : ∀ hook ∈ between, hook.empties = false)
    (once : ∀ other, .predict seqNo piece other ∉ between) (predicted taken : Bool)
    (nextPc : UInt64) :
    Ends (s₃.resolve seqNo piece pc predicted taken nextPc)
      (fun answer => ∃ call, answer.2.baseline.calls = s₃.baseline.calls ++ [call] ∧
        (call = .update prediction.key pc taken predicted nextPc ∨
          call = .killCheckpoint prediction.key) ∧
        (prediction.provider = .baseline →
          call = .update prediction.key pc taken predicted nextPc) ∧
        (config.effectiveFilterKind = .oracle ∨ s₃.epoch % 2 = 0 →
          call = .killCheckpoint prediction.key →
          prediction.provider = .correlator ∧ predicted = taken))
      (fun violation => s₃.Breach (.resolve seqNo piece pc predicted taken nextPc) violation ∨
        Baseline.Refuses β violation) := by
  obtain ⟨h₁, healthy⟩ :=
    Healthy.of_applyAll (C := Baseline.anyContract (Recorded β)) created trivial run
  have hmode : s₁.config.arbiter.mode ≠ .rawStrength := healthy.config ▸ mode
  cases (h₁.predict_ends seqNo piece pc).of_ok predicts with
  | @predict _ _ _ key hkey idle =>
    have h₂ := h₁.predicted key pc
    have h₃ := h₂.of_applyAll waits
    have hkind₁ : s₁.filter.kind = config.effectiveFilterKind := kind_of_run created run
    have hkind : s₃.filter.kind = config.effectiveFilterKind :=
      (h₂.kind_of_applyAll waits).trans hkind₁
    have hcarries := h₂.carries_of_applyAll hkey (carries_predicted hmode key pc) kept once waits
    have htrained (hbaseline : s₁.provider pc = .baseline) :=
      consumingCall_of_contains (hcarries.member hbaseline) key predicted taken nextPc
    refine (h₃.resolve_calls hkey pc predicted taken nextPc).imp ?_ ?_
    · rintro ⟨resolution, s₄⟩ ⟨-, hcalls⟩
      refine ⟨_, hcalls, ?_, htrained, ?_⟩
      · unfold consumingCall
        split
        · exact .inl rfl
        · exact .inr rfl
      · intro hopen hdiscarded
        have hreceptive : s₃.Receptive := by
          rw [Receptive, hkind]
          exact hopen
        constructor
        · cases hprovider : s₁.provider pc with
          | correlator => rfl
          | baseline =>
            rw [htrained hprovider] at hdiscarded
            cases hdiscarded
        · by_contra hwrong
          rw [hreceptive.consumingCall_wrong key pc hwrong] at hdiscarded
          cases hdiscarded
    · rintro violation (hbreach | hrefused)
      · exact .inl hbreach
      · exact .inr (Baseline.refuses_of_recorded hrefused)

/-- A branch is mispredicted, so that its address is a member. -/
def memberHooks : List Hook :=
  [.setup, .predict 1 0 0x40, .resolve 1 0 0x40 true false 0x44]

/-- The epoch is advanced, and another branch is mispredicted. -/
def oddEpochHooks : List Hook :=
  [.advanceEpoch, .predict 3 0 0x80, .resolve 3 0 0x80 true false 0x84]

theorem trained_of_served_memberHooks :
    let s₀ : Selector (Recorded Static) :=
      ofConfig { arbiter := { mode := .bloom } } ⟨.always false, []⟩
    ∃ outcomes s₁ prediction s₂ outcomes' s₃ resolution s₄,
      s₀.applyAll memberHooks = .ok (outcomes, s₁) ∧
      s₁.predict 2 0 0x40 = .ok (prediction, s₂) ∧
      s₂.applyAll oddEpochHooks = .ok (outcomes', s₃) ∧
      s₃.resolve 2 0 0x40 false false 0x44 = .ok (resolution, s₄) ∧
      prediction.provider = .baseline ∧ s₃.epoch = 1 ∧
      s₄.baseline.calls = s₃.baseline.calls ++ [.update prediction.key 0x40 false false 0x44] := by
  intro s₀
  have hcreated : create { arbiter := { mode := .bloom } } (⟨.always false, []⟩ : Recorded Static) =
    .ok s₀ := rfl
  have hanswers : (do
      let (_, s₁) ← s₀.applyAll memberHooks
      let (prediction, s₂) ← s₁.predict 2 0 0x40
      let (_, s₃) ← s₂.applyAll oddEpochHooks
      let _ ← s₃.resolve 2 0 0x40 false false 0x44
      return (prediction.provider, s₃.epoch)) =
      (.ok (.baseline, 1) : Except Violation (Provider × Nat)) := by
    decide +kernel
  obtain ⟨⟨outcomes, s₁⟩, hrun, hrest⟩ := bind_eq_ok_iff.1 hanswers
  obtain ⟨⟨prediction, s₂⟩, hpredict, hrest⟩ := bind_eq_ok_iff.1 hrest
  obtain ⟨⟨outcomes', s₃⟩, hwaits, hrest⟩ := bind_eq_ok_iff.1 hrest
  obtain ⟨⟨resolution, s₄⟩, hresolve, hvalues⟩ := bind_eq_ok_iff.1 hrest
  obtain ⟨hserved, hepoch⟩ := Prod.mk.inj (Except.ok.inj hvalues)
  have honce : ∀ other, .predict 2 0 other ∉ oddEpochHooks := by
    intro other hmem
    simp [oddEpochHooks] at hmem
  obtain ⟨call, hcalls, -, htrained, -⟩ := (trained_of_served hcreated nofun hrun hpredict hwaits
    (by decide) honce false false 0x44).of_ok hresolve
  rw [htrained hserved] at hcalls
  exact ⟨outcomes, s₁, prediction, s₂, outcomes', s₃, resolution, s₄, hrun, hpredict, hwaits,
    hresolve, hserved, hepoch, hcalls⟩

end Selector

end BranchSelector
