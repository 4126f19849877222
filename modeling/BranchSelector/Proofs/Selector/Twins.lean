import BranchSelector.Proofs.Filter.Separation
import BranchSelector.Proofs.Selector.Membership

/-!
# Selectors around different filters

Two selectors are twins (`Selector.Twins`) if one selects by a Bloom filter, the other one by
the exact set of the addresses that it holds, and nothing else is different but the
configuration. A selector asks its filter for nothing but membership. So as long as the
addresses are separated, twins give the same answers and stay twins: at a prediction
(`Twins.predict`), at a fetch (`Twins.fetch`) and at a resolution (`Twins.resolve`).

This is about the first epoch. Later a Bloom filter may turn away what an exact set takes in.
-/

namespace BranchSelector

namespace Selector

variable {β : Type}

/-- The second selector is the first one with the exact set of the addresses that the Bloom
filter of the first one holds. -/
inductive Twins (bits rounds : Nat) (pcs : List UInt64) : Selector β → Selector β → Prop
  | intro {s : Selector β} {config : Config} {filter : Filter} :
    s.config.arbiter.mode = .bloom → config.arbiter.mode = .oracle → s.epoch = 0 →
      Filter.Mirrored bits rounds pcs s.filter filter →
      Twins bits rounds pcs s { s with config, filter }

variable {bits rounds : Nat} {pcs : List UInt64} {s t : Selector β} {pc : UInt64}

/-! ## What the filter decides -/

theorem Twins.trustsCorrelator_eq (h : Twins bits rounds pcs s t)
    (separated : Bloom.Separated bits rounds pcs) (hpc : pc ∈ pcs) (strength : Nat) :
    t.trustsCorrelator pc strength = s.trustsCorrelator pc strength := by
  obtain ⟨hbloom, horacle, -, hfilters⟩ := h
  simp only [trustsCorrelator, hbloom, horacle, hfilters.contains_eq separated hpc]

/-- The same resolution leaves filters behind that hold the same addresses. -/
theorem Twins.filterAfter (h : Twins bits rounds pcs s t)
    (separated : Bloom.Separated bits rounds pcs) (hpc : pc ∈ pcs) (right : Bool) :
    Filter.Mirrored bits rounds pcs (s.filterAfter pc right) (t.filterAfter pc right) := by
  obtain @⟨config, filter, -, -, hepoch, hfilters⟩ := h
  have hcontains := hfilters.contains_eq separated hpc
  cases hmember : s.filter.contains pc with
  | true =>
    rw [filterAfter_of_contains hmember, filterAfter_of_contains (hcontains.symm.trans hmember)]
    exact hfilters
  | false =>
    -- Both take in an address that is not a member, if it was mispredicted.
    have hbloom : s.admits pc = true := (receptive_of_epoch hepoch).admits hmember
    have hreceptive : Receptive { s with config, filter } := receptive_of_epoch hepoch
    have horacle := hreceptive.admits (hcontains.symm.trans hmember)
    unfold Selector.filterAfter enters
    rw [hbloom, horacle]
    cases right with
    | true => exact hfilters
    | false => exact hfilters.insert hpc

theorem Twins.offered (h : Twins bits rounds pcs s t)
    (separated : Bloom.Separated bits rounds pcs) (hpc : pc ∈ pcs) (key : BranchKey)
    (provider : Provider) (right : Bool) :
    Twins bits rounds pcs (s.offered key provider pc right) (t.offered key provider pc right) := by
  have hfilters := h.filterAfter separated hpc right
  obtain @⟨config, filter, hbloom, horacle, hepoch, hmirrored⟩ := h
  have hadded : added { s with config, filter } pc right = s.added pc right := by
    have hcontains := hmirrored.contains_eq separated hpc
    have hreceptive : Receptive { s with config, filter } := receptive_of_epoch hepoch
    rw [(receptive_of_epoch hepoch).added_eq, hreceptive.added_eq, hcontains]
  have htwin : Selector.offered { s with config, filter } key provider pc right =
      { s.offered key provider pc right with
        config, filter := Selector.filterAfter { s with config, filter } pc right } := by
    simp only [Selector.offered, hadded]
  rw [htwin]
  exact ⟨hbloom, horacle, hepoch, hfilters⟩

/-! ## Hooks -/

variable [Baseline β]

theorem Twins.predict (h : Twins bits rounds pcs s t)
    (separated : Bloom.Separated bits rounds pcs) (hpc : pc ∈ pcs) (seqNo : UInt64)
    (piece : UInt8) :
    Alike (Answers (Twins bits rounds pcs)) (s.predict seqNo piece pc)
      (t.predict seqNo piece pc) := by
  have htrusts := h.trustsCorrelator_eq separated hpc
  obtain @⟨config, filter, hbloom, horacle, hepoch, hmirrored⟩ := h
  unfold Selector.predict
  refine (Alike.refl _).bind fun key _ hkey => ?_
  subst hkey
  refine (Alike.refl _).bind fun ⟨vote, correlator⟩ _ hvote => ?_
  subst hvote
  refine (Alike.refl _).bind fun ⟨raw, correlator⟩ _ hraw => ?_
  subst hraw
  -- The provider is the same, and so is everything that it decides.
  simp only [htrusts]
  by_cases hlive : s.inFlight.contains key = true
  · rw [if_pos hlive, if_pos hlive]
    exact rfl
  · rw [if_neg hlive, if_neg hlive]
    exact ⟨rfl, hbloom, horacle, hepoch, hmirrored⟩

theorem Twins.fetch (h : Twins bits rounds pcs s t) (branch : Branch) (predicted : Bool) :
    Alike (Twins bits rounds pcs) (s.fetch branch predicted) (t.fetch branch predicted) := by
  obtain @⟨config, filter, hbloom, horacle, hepoch, hmirrored⟩ := h
  unfold Selector.fetch
  refine (Alike.refl _).bind fun key _ hkey => ?_
  subst hkey
  exact ⟨hbloom, horacle, hepoch, hmirrored⟩

omit [Baseline β] in
theorem Twins.train (h : Twins bits rounds pcs s t)
    (separated : Bloom.Separated bits rounds pcs) (hpc : pc ∈ pcs) (key : BranchKey)
    (predicted taken : Bool) :
    Alike (fun a b => a.1 = b.1 ∧ Answers (Twins bits rounds pcs) a.2 b.2)
      (s.train key pc predicted taken) (t.train key pc predicted taken) := by
  have hinFlight : t.inFlight[key]? = s.inFlight[key]? := by cases h; rfl
  have hcorrelator : t.correlator = s.correlator := by cases h; rfl
  have hstats : t.stats = s.stats := by cases h; rfl
  cases hprovider : s.inFlight[key]? with
  | none =>
    unfold Selector.train
    rw [hinFlight, hprovider]
    exact rfl
  | some provider =>
    have hoffered := h.offered separated hpc key provider (predicted == taken)
    rw [train_of_provider hprovider, train_of_provider (hinFlight.trans hprovider), hcorrelator,
      hstats]
    refine (Alike.refl _).bind fun ⟨training, correlator⟩ _ hsame => ?_
    subst hsame
    generalize s.offered key provider pc (predicted == taken) = s' at hoffered ⊢
    generalize t.offered key provider pc (predicted == taken) = t' at hoffered ⊢
    obtain ⟨hbloom, horacle, hepoch, hmirrored⟩ := hoffered
    exact ⟨rfl, rfl, hbloom, horacle, hepoch, hmirrored⟩

theorem Twins.route (h : Twins bits rounds pcs s t)
    (separated : Bloom.Separated bits rounds pcs) (hpc : pc ∈ pcs) (key : BranchKey)
    (predicted taken : Bool) (nextPc : UInt64) :
    Alike (Answers (Twins bits rounds pcs)) (s.route key pc predicted taken nextPc)
      (t.route key pc predicted taken nextPc) := by
  obtain @⟨config, filter, hbloom, horacle, hepoch, hmirrored⟩ := h
  unfold Selector.route
  simp only [hmirrored.contains_eq separated hpc]
  -- Members are trained on and others are discarded, at the same baseline.
  split
  · refine (Alike.refl _).bind fun baseline _ hsame => ?_
    subst hsame
    exact ⟨rfl, hbloom, horacle, hepoch, hmirrored⟩
  · refine (Alike.refl _).bind fun baseline _ hsame => ?_
    subst hsame
    exact ⟨rfl, hbloom, horacle, hepoch, hmirrored⟩

theorem Twins.resolve (h : Twins bits rounds pcs s t)
    (separated : Bloom.Separated bits rounds pcs) (hpc : pc ∈ pcs) (seqNo : UInt64)
    (piece : UInt8) (predicted taken : Bool) (nextPc : UInt64) :
    Alike (Answers (Twins bits rounds pcs)) (s.resolve seqNo piece pc predicted taken nextPc)
      (t.resolve seqNo piece pc predicted taken nextPc) := by
  unfold Selector.resolve
  refine (Alike.refl _).bind fun key _ hkey => ?_
  subst hkey
  refine (h.train separated hpc key predicted taken).bind ?_
  rintro ⟨provider, training, trained⟩ ⟨_, _, trained'⟩ ⟨rfl, rfl, htrained⟩
  refine (htrained.route separated hpc key predicted taken nextPc).bind ?_
  rintro ⟨member, resolved⟩ ⟨_, resolved'⟩ ⟨rfl, hresolved⟩
  exact ⟨rfl, hresolved⟩

end Selector

end BranchSelector
