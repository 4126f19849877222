import BranchSelector.Proofs.Selector.Coherent

/-!
# What one hook can do

`Selector.Breach` lists the ways in which a hook can break the contract: a key out of range,
a second prediction of a branch in flight, a resolution or a squash of one that is not.
`Selector.Step` lists what a hook does otherwise. On a coherent selector these are all the
cases: a breach is answered by its violation (`Breach.apply_eq`), and without one a hook
makes a step, unless the baseline refuses (`Coherent.apply_ends`).

Invariants of histories are proved by cases on `Step`, with no look at the hooks
themselves. `Step.coherent` is the first of them.
-/

namespace BranchSelector

theorem BranchKey.ofParts_eq_error {seqNo : UInt64} {piece : UInt8} (h : 16 ≤ piece.toNat) :
    BranchKey.ofParts seqNo piece = .error (.pieceOutOfRange piece) := by
  rw [ofParts, ofParts?_eq_none_iff.2 h]

theorem BranchKey.exists_ofParts_eq_ok (seqNo : UInt64) {piece : UInt8}
    (h : ¬ 16 ≤ piece.toNat) : ∃ key, BranchKey.ofParts seqNo piece = .ok key := by
  cases hkey : BranchKey.ofParts? seqNo piece with
  | none => exact absurd (ofParts?_eq_none_iff.1 hkey) h
  | some key => exact ⟨key, by rw [ofParts, hkey]⟩

/-- The sequence number and the piece index of the key that a hook builds, if it builds one.
The two notifications do so for a register that the baseline is told of. -/
def Hook.parts? : Hook → Option (UInt64 × UInt8)
  | .predict seqNo piece _ | .resolve seqNo piece _ _ _ _ | .squash seqNo piece =>
    some (seqNo, piece)
  | .fetch branch _ => some (branch.seqNo, branch.piece)
  | .decode seqNo piece register | .execute seqNo piece register _ =>
    (Selector.notified? register).map fun _ => (seqNo, piece)
  | .setup | .advanceEpoch | .clearFilter => none

namespace Selector

variable {β : Type}

/-- The ways in which a hook breaks the contract. -/
inductive Breach (s : Selector β) : Hook → Violation → Prop
  /-- The hook builds a key of a piece index out of range. -/
  | piece {hook : Hook} {seqNo : UInt64} {piece : UInt8} :
    hook.parts? = some (seqNo, piece) → 16 ≤ piece.toNat →
      Breach s hook (.pieceOutOfRange piece)
  /-- A branch that is predicted is in flight. -/
  | predict {seqNo : UInt64} {piece : UInt8} {pc : UInt64} {key : BranchKey} :
    BranchKey.ofParts seqNo piece = .ok key → key ∈ s.inFlight →
      Breach s (.predict seqNo piece pc) (.checkpointLive key)
  /-- A branch that resolves is not in flight. -/
  | resolve {seqNo : UInt64} {piece : UInt8} {pc : UInt64} {predicted taken : Bool}
      {nextPc : UInt64} {key : BranchKey} :
    BranchKey.ofParts seqNo piece = .ok key → key ∉ s.inFlight →
      Breach s (.resolve seqNo piece pc predicted taken nextPc) (.resolveUnpredicted key)
  /-- A branch that is squashed is not in flight. -/
  | squash {seqNo : UInt64} {piece : UInt8} {key : BranchKey} :
    BranchKey.ofParts seqNo piece = .ok key → key ∉ s.inFlight →
      Breach s (.squash seqNo piece) (.squashUnpredicted key)

/-- Which hooks break the contract depends on the branches in flight alone. -/
theorem Breach.congr {s t : Selector β} {hook : Hook} {violation : Violation}
    (h : s.Breach hook violation) (hsame : t.inFlight = s.inFlight) : t.Breach hook violation := by
  cases h with
  | piece hparts hpiece => exact .piece hparts hpiece
  | predict hkey live => exact .predict hkey (hsame ▸ live)
  | resolve hkey idle => exact .resolve hkey (hsame ▸ idle)
  | squash hkey idle => exact .squash hkey (hsame ▸ idle)

/-- The key of a hook that does not break the contract. -/
theorem exists_key_of_not_breach {s : Selector β} {hook : Hook} {seqNo : UInt64} {piece : UInt8}
    (sound : ∀ violation, ¬ s.Breach hook violation)
    (hparts : hook.parts? = some (seqNo, piece)) :
    ∃ key, BranchKey.ofParts seqNo piece = .ok key :=
  BranchKey.exists_ofParts_eq_ok seqNo fun hpiece => sound _ (.piece hparts hpiece)

variable [Baseline β]

/-- What a hook answers and where it leads, if it does not fail. -/
inductive Step (s : Selector β) : Hook → Outcome → Selector β → Prop
  | setup : Step s .setup .done s.setup
  | predict {seqNo : UInt64} {piece : UInt8} {pc : UInt64} {key : BranchKey}
      (hkey : BranchKey.ofParts seqNo piece = .ok key) (idle : key ∉ s.inFlight) :
    Step s (.predict seqNo piece pc) (.predicted (s.prediction key pc)) (s.predicted key pc)
  | fetch {branch : Branch} {direction : Bool} {key : BranchKey}
      (hkey : branch.key = .ok key) :
    Step s (.fetch branch direction) .done (s.fetched branch key direction)
  | resolve {seqNo : UInt64} {piece : UInt8} {pc : UInt64} {predicted taken : Bool}
      {nextPc : UInt64} {key : BranchKey} {provider : Provider} {tags : List UInt64}
      {baseline : β} (hkey : BranchKey.ofParts seqNo piece = .ok key)
      (hprovider : s.inFlight[key]? = some provider)
      (htags : s.correlator.checkpoints[key]? = some tags)
      (consumed : s.consume key pc predicted taken nextPc = .ok baseline) :
    Step s (.resolve seqNo piece pc predicted taken nextPc)
      (.resolved (s.resolution key provider tags pc predicted taken))
      { s.resolved key provider tags pc predicted taken with baseline }
  | squash {seqNo : UInt64} {piece : UInt8} {key : BranchKey} {baseline : β}
      (hkey : BranchKey.ofParts seqNo piece = .ok key) (live : key ∈ s.inFlight)
      (discarded : Baseline.killCheckpoint s.baseline key = .ok baseline) :
    Step s (.squash seqNo piece) (.squashed key) { s.squashed key with baseline }
  | decode {seqNo : UInt64} {piece : UInt8} {register : Option UInt64} {r : UInt64}
      {key : BranchKey} (hregister : notified? register = some r)
      (hkey : BranchKey.ofParts seqNo piece = .ok key) :
    Step s (.decode seqNo piece register) .done
      { s with baseline := Baseline.decodeNotify s.baseline key r }
  | decodeUntold {seqNo : UInt64} {piece : UInt8} {register : Option UInt64}
      (hregister : notified? register = none) :
    Step s (.decode seqNo piece register) .done s
  | execute {seqNo : UInt64} {piece : UInt8} {register : Option UInt64} {value r : UInt64}
      {key : BranchKey} (hregister : notified? register = some r)
      (hkey : BranchKey.ofParts seqNo piece = .ok key) :
    Step s (.execute seqNo piece register value) .done
      { s with baseline := Baseline.executeNotify s.baseline key r value }
  | executeUntold {seqNo : UInt64} {piece : UInt8} {register : Option UInt64} {value : UInt64}
      (hregister : notified? register = none) :
    Step s (.execute seqNo piece register value) .done s
  | advanceEpoch : Step s .advanceEpoch .done s.advanceEpoch
  | clearFilter : Step s .clearFilter .done s.clearFilter

variable {C : Baseline.Contract β} {s s' : Selector β} {hook : Hook} {outcome : Outcome}

/-- A hook whose key is out of range fails, whatever else it would do. -/
theorem apply_eq_pieceOutOfRange {seqNo : UInt64} {piece : UInt8}
    (hparts : hook.parts? = some (seqNo, piece)) (hpiece : 16 ≤ piece.toNat) :
    s.apply hook = .error (.pieceOutOfRange piece) := by
  have hkey : BranchKey.ofParts seqNo piece = .error (.pieceOutOfRange piece) :=
    BranchKey.ofParts_eq_error hpiece
  cases hook with
  | setup | advanceEpoch | clearFilter => cases hparts
  | predict | resolve | squash =>
    obtain ⟨rfl, rfl⟩ := Prod.mk.inj (Option.some.inj hparts)
    simp only [apply, predict, resolve, squash, hkey, bind, Except.bind]
  | fetch branch direction =>
    obtain ⟨rfl, rfl⟩ := Prod.mk.inj (Option.some.inj hparts)
    simp only [apply, fetch, Branch.key, hkey, bind, Except.bind]
  | decode _ _ register =>
    obtain ⟨r, hr, hsame⟩ := Option.map_eq_some_iff.1 hparts
    obtain ⟨rfl, rfl⟩ := Prod.mk.inj hsame
    simp only [apply, decode, hr, hkey, bind, Except.bind]
  | execute _ _ register _ =>
    obtain ⟨r, hr, hsame⟩ := Option.map_eq_some_iff.1 hparts
    obtain ⟨rfl, rfl⟩ := Prod.mk.inj hsame
    simp only [apply, execute, hr, hkey, bind, Except.bind]

/-- A breach is answered by its violation. -/
theorem Breach.apply_eq {violation : Violation} (hbreach : s.Breach hook violation)
    (h : s.Coherent C) : s.apply hook = .error violation := by
  cases hbreach with
  | piece hparts hpiece => exact apply_eq_pieceOutOfRange hparts hpiece
  | predict hkey live =>
    simp only [apply, h.predict_eq_error hkey live, bind, Except.bind]
  | resolve hkey idle =>
    simp only [apply, resolve_eq_error hkey idle, bind, Except.bind]
  | squash hkey idle =>
    simp only [apply, squash_eq_error hkey idle, bind, Except.bind]

/-- A hook that does not break the contract makes a step, unless the baseline refuses to
consume its branch. -/
theorem Coherent.apply_ends (h : s.Coherent C)
    (sound : ∀ violation, ¬ s.Breach hook violation) :
    Ends (s.apply hook) (fun answer => s.Step hook answer.1 answer.2) C.refuses := by
  cases hook with
  | setup => exact .of_eq_ok rfl .setup
  | advanceEpoch => exact .of_eq_ok rfl .advanceEpoch
  | clearFilter => exact .of_eq_ok rfl .clearFilter
  | predict seqNo piece pc =>
    obtain ⟨key, hkey⟩ := exists_key_of_not_breach sound rfl
    have idle : key ∉ s.inFlight := fun live => sound _ (.predict hkey live)
    have happly : s.apply (.predict seqNo piece pc) =
        .ok (.predicted (s.prediction key pc), s.predicted key pc) := by
      simp only [apply, h.predict_eq hkey idle, bind, Except.bind]
      rfl
    exact .of_eq_ok happly (.predict hkey idle)
  | fetch branch direction =>
    obtain ⟨key, hkey⟩ := exists_key_of_not_breach sound rfl
    have happly : s.apply (.fetch branch direction) =
        .ok (.done, s.fetched branch key direction) := by
      simp only [apply, s.fetch_eq hkey, bind, Except.bind]
      rfl
    exact .of_eq_ok happly (.fetch hkey)
  | resolve seqNo piece pc predicted taken nextPc =>
    obtain ⟨key, hkey⟩ := exists_key_of_not_breach sound rfl
    have live : key ∈ s.inFlight := by_contra fun idle => sound _ (.resolve hkey idle)
    -- What is in flight has a provider and a checkpoint, so only the baseline can refuse.
    obtain ⟨provider, tags, hprovider, htags⟩ := h.lookup live
    have hends := h.consume_ends live pc predicted taken nextPc
    simp only [apply, h.resolve_eq hkey hprovider htags, bind, Except.bind]
    cases hconsume : s.consume key pc predicted taken nextPc with
    | ok baseline => exact .resolve hkey hprovider htags hconsume
    | error violation => exact hends.of_error hconsume
  | squash seqNo piece =>
    obtain ⟨key, hkey⟩ := exists_key_of_not_breach sound rfl
    have live : key ∈ s.inFlight := by_contra fun idle => sound _ (.squash hkey idle)
    have hends := C.killCheckpoint key h.baseline live
    simp only [apply, h.squash_eq hkey live, bind, Except.bind]
    cases hdiscard : Baseline.killCheckpoint s.baseline key with
    | ok baseline => exact .squash hkey live hdiscard
    | error violation => exact hends.of_error hdiscard
  | decode seqNo piece register =>
    simp only [apply, decode, bind, Except.bind]
    cases hregister : notified? register with
    | none => exact .decodeUntold hregister
    | some r =>
      have hparts : Hook.parts? (.decode seqNo piece register) = some (seqNo, piece) := by
        rw [Hook.parts?, hregister]
        rfl
      obtain ⟨key, hkey⟩ := exists_key_of_not_breach sound hparts
      simp only [hkey]
      exact .decode hregister hkey
  | execute seqNo piece register value =>
    simp only [apply, execute, bind, Except.bind]
    cases hregister : notified? register with
    | none => exact .executeUntold hregister
    | some r =>
      have hparts : Hook.parts? (.execute seqNo piece register value) = some (seqNo, piece) := by
        rw [Hook.parts?, hregister]
        rfl
      obtain ⟨key, hkey⟩ := exists_key_of_not_breach sound hparts
      simp only [hkey]
      exact .execute hregister hkey

/-- A hook that is answered has made a step. -/
theorem Coherent.step (h : s.Coherent C) (happly : s.apply hook = .ok (outcome, s')) :
    s.Step hook outcome s' := by
  have sound : ∀ violation, ¬ s.Breach hook violation := by
    intro violation hbreach
    rw [hbreach.apply_eq h] at happly
    cases happly
  exact (h.apply_ends sound).of_ok happly

/-- A hook that can make a step is answered by it. -/
theorem Step.apply_eq (hstep : s.Step hook outcome s') (h : s.Coherent C) :
    s.apply hook = .ok (outcome, s') := by
  cases hstep with
  | setup | advanceEpoch | clearFilter => rfl
  | predict hkey idle =>
    simp only [apply, h.predict_eq hkey idle, bind, Except.bind]
    rfl
  | fetch hkey =>
    simp only [apply, s.fetch_eq hkey, bind, Except.bind]
    rfl
  | resolve hkey hprovider htags consumed =>
    simp only [apply, h.resolve_eq hkey hprovider htags, consumed, bind, Except.bind]
    rfl
  | squash hkey live discarded =>
    simp only [apply, h.squash_eq hkey live, discarded, bind, Except.bind]
    rfl
  | decode hregister hkey =>
    simp only [apply, Selector.decode, hregister, hkey, bind, Except.bind]
    rfl
  | execute hregister hkey =>
    simp only [apply, Selector.execute, hregister, hkey, bind, Except.bind]
    rfl
  | decodeUntold hregister =>
    simp only [apply, Selector.decode, hregister, bind, Except.bind]
    rfl
  | executeUntold hregister =>
    simp only [apply, Selector.execute, hregister, bind, Except.bind]
    rfl

/-- A hook that fails breaks the contract, or the baseline has refused. -/
theorem Coherent.breach_or_refuses (h : s.Coherent C) {violation : Violation}
    (happly : s.apply hook = .error violation) :
    s.Breach hook violation ∨ C.refuses violation := by
  by_cases hbreach : ∃ v, s.Breach hook v
  · -- A breach is answered by its own violation, which is the one at hand.
    obtain ⟨v, hv⟩ := hbreach
    obtain rfl : v = violation := Except.error.inj ((hv.apply_eq h).symm.trans happly)
    exact .inl hv
  · exact .inr ((h.apply_ends fun v hv => hbreach ⟨v, hv⟩).of_error happly)

/-- A prediction makes a step or breaks the contract. -/
theorem Coherent.predict_ends (h : s.Coherent C) (seqNo : UInt64) (piece : UInt8) (pc : UInt64) :
    Ends (s.predict seqNo piece pc)
      (fun answer => s.Step (.predict seqNo piece pc) (.predicted answer.1) answer.2)
      (s.Breach (.predict seqNo piece pc)) := by
  by_cases hpiece : 16 ≤ piece.toNat
  · have hpredict : s.predict seqNo piece pc = .error (.pieceOutOfRange piece) := by
      simp only [predict, BranchKey.ofParts_eq_error hpiece, bind, Except.bind]
    rw [hpredict]
    exact .piece rfl hpiece
  · obtain ⟨key, hkey⟩ := BranchKey.exists_ofParts_eq_ok seqNo hpiece
    by_cases live : key ∈ s.inFlight
    · rw [h.predict_eq_error hkey live]
      exact .predict hkey live
    · rw [h.predict_eq hkey live]
      exact .predict hkey live

/-- A resolution makes a step or breaks the contract, unless the baseline refuses. -/
theorem Coherent.resolve_ends (h : s.Coherent C) (seqNo : UInt64) (piece : UInt8) (pc : UInt64)
    (predicted taken : Bool) (nextPc : UInt64) :
    Ends (s.resolve seqNo piece pc predicted taken nextPc)
      (fun answer => s.Step (.resolve seqNo piece pc predicted taken nextPc) (.resolved answer.1)
        answer.2)
      (fun violation => s.Breach (.resolve seqNo piece pc predicted taken nextPc) violation ∨
        C.refuses violation) := by
  cases hresolve : s.resolve seqNo piece pc predicted taken nextPc with
  | ok answer =>
    refine h.step ?_
    simp only [apply, hresolve, bind, Except.bind]
    rfl
  | error violation =>
    refine h.breach_or_refuses ?_
    simp only [apply, hresolve, bind, Except.bind]

/-- A step leaves the selector coherent. -/
theorem Step.coherent (hstep : s.Step hook outcome s') (h : s.Coherent C) : s'.Coherent C := by
  cases hstep with
  | setup => exact h.setup
  | predict => exact h.predicted _ _
  | fetch => exact h.fetched _ _ _
  | resolve hkey hprovider htags consumed =>
    have live : _ ∈ s.inFlight :=
      Std.ExtTreeMap.mem_iff_isSome_getElem?.2 (Option.isSome_iff_exists.2 ⟨_, hprovider⟩)
    exact h.resolved htags _ _ _ ((h.consume_ends live _ _ _ _).of_ok consumed)
  | squash hkey live discarded =>
    refine h.squashed _ ?_
    rw [setOf_mem_erase]
    exact (C.killCheckpoint _ h.baseline live).of_ok discarded
  | decode => exact ⟨h.width, h.correlator, h.checkpoints, C.decodeNotify _ _ h.baseline⟩
  | execute => exact ⟨h.width, h.correlator, h.checkpoints, C.executeNotify _ _ _ h.baseline⟩
  | decodeUntold | executeUntold => exact h
  | advanceEpoch | clearFilter =>
    exact ⟨h.width, h.correlator, h.checkpoints, h.baseline⟩

/-- A branch that is in flight after a step was so before and with the same provider, unless the
step has predicted it. -/
theorem Step.getElem?_inFlight (hstep : s.Step hook outcome s') {key : BranchKey}
    {provider : Provider} (h : s'.inFlight[key]? = some provider) :
    s.inFlight[key]? = some provider ∨
      ∃ seqNo piece pc, hook = .predict seqNo piece pc ∧
        BranchKey.ofParts seqNo piece = .ok key ∧ provider = s.provider pc := by
  cases hstep with
  | setup =>
    have hempty : (∅ : Std.ExtTreeMap BranchKey Provider)[key]? = some provider := h
    rw [Std.ExtTreeMap.getElem?_empty] at hempty
    cases hempty
  | @predict seqNo piece pc other hother idle =>
    have hinsert : (s.inFlight.insert other (s.provider pc))[key]? = some provider := h
    obtain ⟨rfl, rfl⟩ | ⟨-, hkept⟩ := eq_or_ne_of_getElem?_insert hinsert
    · exact .inr ⟨seqNo, piece, pc, rfl, hother, rfl⟩
    · exact .inl hkept
  | resolve => exact .inl (getElem?_of_getElem?_erase h)
  | squash => exact .inl (getElem?_of_getElem?_erase h)
  | fetch | decode | decodeUntold | execute | executeUntold | advanceEpoch | clearFilter =>
    exact .inl h

/-! ## Histories -/

/-- A history is answered hook by hook. -/
theorem applyAll_cons_eq_ok {hooks : List Hook} {outcomes : List Outcome} :
    s.applyAll (hook :: hooks) = .ok (outcomes, s') ↔
      ∃ first middle rest, s.apply hook = .ok (first, middle) ∧
        middle.applyAll hooks = .ok (rest, s') ∧ outcomes = first :: rest := by
  rw [applyAll, bind_eq_ok_iff]
  constructor
  · rintro ⟨⟨first, middle⟩, happly, hlater⟩
    obtain ⟨⟨rest, last⟩, hrest, hsame⟩ := bind_eq_ok_iff.1 hlater
    obtain ⟨rfl, rfl⟩ := Prod.mk.inj (Except.ok.inj hsame)
    exact ⟨first, middle, rest, happly, hrest, rfl⟩
  · rintro ⟨first, middle, rest, happly, hrest, rfl⟩
    exact ⟨(first, middle), happly, bind_eq_ok_iff.2 ⟨(rest, s'), hrest, rfl⟩⟩

/-- Every hook that is answered has one outcome. -/
theorem length_of_applyAll {hooks : List Hook} {outcomes : List Outcome}
    (hrun : s.applyAll hooks = .ok (outcomes, s')) : outcomes.length = hooks.length := by
  induction hooks generalizing s outcomes with
  | nil =>
    obtain ⟨rfl, -⟩ := Prod.mk.inj (Except.ok.inj hrun)
    rfl
  | cons hook hooks ih =>
    obtain ⟨first, middle, rest, -, hlater, rfl⟩ := applyAll_cons_eq_ok.1 hrun
    exact congrArg Nat.succ (ih hlater)

/-- What every step keeps, a history keeps. A property may depend on the hooks that have been
answered so far and on their outcomes. -/
theorem Coherent.history_induction {P : List (Hook × Outcome) → Selector β → Prop}
    {hooks : List Hook} {outcomes : List Outcome} (h : s.Coherent C)
    (keeps : ∀ {before : List (Hook × Outcome)} {t t' : Selector β} {hook : Hook}
      {outcome : Outcome}, t.Coherent C → t.Step hook outcome t' → P before t →
        P (before ++ [(hook, outcome)]) t')
    (hrun : s.applyAll hooks = .ok (outcomes, s')) (before : List (Hook × Outcome))
    (start : P before s) : s'.Coherent C ∧ P (before ++ hooks.zip outcomes) s' := by
  induction hooks generalizing s before outcomes with
  | nil =>
    obtain ⟨rfl, rfl⟩ := Prod.mk.inj (Except.ok.inj hrun)
    rw [List.zip_nil_left, List.append_nil]
    exact ⟨h, start⟩
  | cons hook hooks ih =>
    obtain ⟨first, middle, rest, happly, hlater, rfl⟩ := applyAll_cons_eq_ok.1 hrun
    have hstep := h.step happly
    have hlast := ih (hstep.coherent h) hlater (before ++ [(hook, first)]) (keeps h hstep start)
    rw [List.append_assoc, List.singleton_append] at hlast
    exact hlast

/-- What every step keeps, a history keeps. A property may depend on the hooks that have been
answered so far. -/
theorem Coherent.applyAll_induction {P : List Hook → Selector β → Prop} {hooks : List Hook}
    {outcomes : List Outcome} (h : s.Coherent C)
    (keeps : ∀ {before : List Hook} {t t' : Selector β} {hook : Hook} {outcome : Outcome},
      t.Coherent C → t.Step hook outcome t' → P before t → P (before ++ [hook]) t')
    (hrun : s.applyAll hooks = .ok (outcomes, s')) (before : List Hook) (start : P before s) :
    s'.Coherent C ∧ P (before ++ hooks) s' := by
  obtain ⟨hs', hlast⟩ := h.history_induction
    (P := fun history t => P (before ++ history.map Prod.fst) t)
    (by
      intro history t t' hook outcome ht hstep hkept
      rw [List.map_append, ← List.append_assoc]
      exact keeps ht hstep hkept)
    hrun [] (by rwa [List.map_nil, List.append_nil])
  -- Every hook has an outcome, so that none is lost in the history.
  rw [List.nil_append, List.map_fst_zip (Nat.le_of_eq (length_of_applyAll hrun).symm)] at hlast
  exact ⟨hs', hlast⟩

/-- What a selector starts with, and every step keeps, holds after any history. The selector is
built around a baseline that serves no branch yet. -/
theorem created_induction {P : List Hook → Selector β → Prop} {config : Config} {baseline : β}
    {s₀ : Selector β} {hooks : List Hook} {outcomes : List Outcome}
    (created : create config baseline = .ok s₀) (idle : C.serves baseline ∅)
    (keeps : ∀ {before : List Hook} {t t' : Selector β} {hook : Hook} {outcome : Outcome},
      t.Coherent C → t.Step hook outcome t' → P before t → P (before ++ [hook]) t')
    (run : s₀.applyAll hooks = .ok (outcomes, s')) (start : P [] (ofConfig config baseline)) :
    s'.Coherent C ∧ P hooks s' := by
  obtain ⟨valid, rfl⟩ := create_eq_ok created
  exact (coherent_ofConfig valid idle).applyAll_induction keeps run [] start

/-- A history leaves the selector coherent. -/
theorem Coherent.of_applyAll {hooks : List Hook} {outcomes : List Outcome} (h : s.Coherent C)
    (hrun : s.applyAll hooks = .ok (outcomes, s')) : s'.Coherent C :=
  (h.applyAll_induction (P := fun _ _ => True) (fun _ _ _ => trivial) hrun [] trivial).1

end Selector

end BranchSelector
