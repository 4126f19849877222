import BranchSelector.Proofs.Selector.History
import BranchSelector.Proofs.Selector.Shadow

/-!
# Squashed predictions

A prediction that is squashed makes no difference to any other branch, whatever hooks come before
it, between it and the squash, and after. Between the two the selector carries traces of the
branch (`Selector.Shadows`), and the same hooks have the same outcomes with them as without
(`Shadows.applyAll`). The squash takes the checkpoints away, so that in the end both selectors
differ in nothing that a hook would look at (`Selector.Indistinct`,
`indistinct_of_squash`).
-/

namespace BranchSelector

namespace Selector

/-! ## Branches that no hook is about -/

section Hooks

variable {β : Type} [Baseline β] {C : Baseline.Contract β} {s s' : Selector β} {hook : Hook}
  {hooks before after : List Hook} {outcome : Outcome} {outcomes : List Outcome} {key : BranchKey}

/-- Apart from a setup, a hook about other branches leaves a branch in flight or out of it. -/
theorem Step.mem_inFlight_iff (hstep : s.Step hook outcome s') (hbranch : hook.branch? ≠ some key)
    (hsetup : hook ≠ .setup) : key ∈ s'.inFlight ↔ key ∈ s.inFlight := by
  cases hstep with
  | setup => exact absurd rfl hsetup
  | predict hkey idle =>
    show key ∈ s.inFlight.insert _ _ ↔ _
    rw [Std.ExtTreeMap.mem_insert, Std.LawfulEqCmp.compare_eq_iff_eq]
    exact or_iff_right (Hook.ne_of_branch? hbranch hkey rfl)
  | resolve hkey =>
    show key ∈ s.inFlight.erase _ ↔ _
    rw [Std.ExtTreeMap.mem_erase, ne_eq, Std.LawfulEqCmp.compare_eq_iff_eq]
    exact and_iff_right (Hook.ne_of_branch? hbranch hkey rfl)
  | squash hkey =>
    show key ∈ s.inFlight.erase _ ↔ _
    rw [Std.ExtTreeMap.mem_erase, ne_eq, Std.LawfulEqCmp.compare_eq_iff_eq]
    exact and_iff_right (Hook.ne_of_branch? hbranch hkey rfl)
  | fetch | decode | decodeUntold | execute | executeUntold | advanceEpoch | clearFilter =>
    exact Iff.rfl

/-- A branch that no hook is about stays out of flight. -/
theorem Coherent.idle_of_applyAll (h : s.Coherent C) (idle : key ∉ s.inFlight)
    (hbranches : ∀ hook ∈ hooks, hook.branch? ≠ some key)
    (hrun : s.applyAll hooks = .ok (outcomes, s')) : s'.Coherent C ∧ key ∉ s'.inFlight := by
  refine (h.applyAll_induction
    (P := fun done t => (∀ hook ∈ done, hook.branch? ≠ some key) → key ∉ t.inFlight) ?_ hrun []
    (fun _ => idle)).imp_right fun hidle => hidle hbranches
  intro done t t' hook outcome _ hstep ih hdone
  obtain ⟨hearlier, hhook⟩ := List.forall_mem_append.1 hdone
  by_cases hsetup : hook = .setup
  · subst hsetup
    cases hstep
    exact Std.ExtTreeMap.not_mem_empty
  · rw [hstep.mem_inFlight_iff (hhook hook (List.mem_singleton_self hook)) hsetup]
    exact ih hearlier

/-- A branch in flight that no hook is about stays there as long as there is no setup. -/
theorem Coherent.live_of_applyAll (h : s.Coherent C) (live : key ∈ s.inFlight)
    (hbranches : ∀ hook ∈ hooks, hook.branch? ≠ some key) (hsetup : .setup ∉ hooks)
    (hrun : s.applyAll hooks = .ok (outcomes, s')) : s'.Coherent C ∧ key ∈ s'.inFlight := by
  refine (h.applyAll_induction
    (P := fun done t => (∀ hook ∈ done, hook.branch? ≠ some key) → .setup ∉ done →
      key ∈ t.inFlight) ?_ hrun [] (fun _ _ => live)).imp_right fun hlive =>
    hlive hbranches hsetup
  intro done t t' hook outcome _ hstep ih hdone hnone
  obtain ⟨hearlier, hhook⟩ := List.forall_mem_append.1 hdone
  rw [List.mem_append, not_or] at hnone
  have hother : hook ≠ .setup := fun hsame => hnone.2 (hsame ▸ List.mem_singleton_self hook)
  rw [hstep.mem_inFlight_iff (hhook hook (List.mem_singleton_self hook)) hother]
  exact ih hearlier hnone.1

/-- A history that is answered can be cut anywhere. -/
theorem applyAll_append_eq_ok :
    s.applyAll (before ++ after) = .ok (outcomes, s') ↔
      ∃ first middle last, s.applyAll before = .ok (first, middle) ∧
        middle.applyAll after = .ok (last, s') ∧ outcomes = first ++ last := by
  rw [applyAll_append, bind_eq_ok_iff]
  constructor
  · rintro ⟨⟨first, middle⟩, hbefore, hlater⟩
    obtain ⟨⟨last, final⟩, hafter, hsame⟩ := bind_eq_ok_iff.1 hlater
    obtain ⟨rfl, rfl⟩ := Prod.mk.inj (Except.ok.inj hsame)
    exact ⟨first, middle, last, hbefore, hafter, rfl⟩
  · rintro ⟨first, middle, last, hbefore, hafter, rfl⟩
    exact ⟨(first, middle), hbefore, bind_eq_ok_iff.2 ⟨(last, s'), hafter, rfl⟩⟩

end Hooks

/-! ## Traces come and go -/

variable {bits : Nat} {key : BranchKey} {s s' t t' : Selector (Gshare bits)}

/-- The prediction of a branch leaves traces of it. -/
theorem shadows_predicted (s : Selector (Gshare bits)) (key : BranchKey) (pc : UInt64) :
    Shadows key s (s.predicted key pc) := by
  have hpadded := (Correlator.Padded.refl s.correlator).touch_right s.tags
  exact .intro ⟨hpadded.keep _ _, (AgreeOff.refl _).insert_right _⟩
    ⟨rfl, rfl⟩ ((AgreeOff.refl _).insert_right _) (.inr ⟨s.provider pc, rfl⟩)
    ⟨rfl, rfl, (AgreeOff.refl _).insert_right _⟩

/-- The squash of a branch leaves no more traces of it than there were. -/
theorem Shadows.squashed (h : Shadows key s t) {baseline : Gshare bits}
    (discarded : t.baseline.killCheckpoint key = .ok baseline) :
    Shadows key s { t.squashed key with baseline } := by
  obtain ⟨hcorrelator, hknobs, hinFlight, hstats, hbaseline⟩ := h
  unfold Gshare.killCheckpoint at discarded
  split at discarded
  · obtain rfl := Except.ok.inj discarded
    exact .intro ⟨hcorrelator.padded.keep _ _, hcorrelator.checkpoints.erase_right⟩
      hknobs hinFlight.erase_right hstats
      ⟨hbaseline.history, hbaseline.trained, hbaseline.checkpoints.erase_right⟩
  · cases discarded

/-- The same hooks have the same outcomes with traces of a branch as without, if none of them is
about the branch. -/
theorem Shadows.applyAll {hooks : List Hook} {outcomes : List Outcome} (h : Shadows key s t)
    (hs : s.Coherent (Gshare.contract bits)) (ht : t.Coherent (Gshare.contract bits))
    (hbranches : ∀ hook ∈ hooks, hook.branch? ≠ some key)
    (hrun : s.applyAll hooks = .ok (outcomes, s')) :
    ∃ t', t.applyAll hooks = .ok (outcomes, t') ∧ Shadows key s' t' := by
  induction hooks generalizing s t outcomes with
  | nil =>
    obtain ⟨rfl, rfl⟩ := Prod.mk.inj (Except.ok.inj hrun)
    exact ⟨t, rfl, h⟩
  | cons hook hooks ih =>
    obtain ⟨first, middle, rest, happly, hlater, rfl⟩ := applyAll_cons_eq_ok.1 hrun
    have hstep := hs.step happly
    obtain ⟨middle', hstep', hmiddle⟩ := h.step hs ht (hbranches hook List.mem_cons_self) hstep
    obtain ⟨t', hrest, hlast⟩ := ih hmiddle (hstep.coherent hs) (hstep'.coherent ht)
      (fun later hmem => hbranches later (List.mem_cons_of_mem _ hmem)) hlater
    exact ⟨t', applyAll_cons_eq_ok.2 ⟨first, middle', rest, hstep'.apply_eq ht, hrest, rfl⟩, hlast⟩

/-- Two selectors are the same, but for entries of weight zero, the knobs that a prediction copies
in and one prediction in the statistics. -/
structure Indistinct (s t : Selector (Gshare bits)) : Prop where
  eq : t = { s with
    correlator := { s.correlator with tables := t.correlator.tables }
    knobs := t.knobs
    stats := t.stats }
  tables : PaddedAll s.correlator.tables t.correlator.tables
  votes : ∀ tags, t.correlator.vote tags = s.correlator.vote tags
  knobs : s.knobs.SameRunning t.knobs
  stats : s.stats.OneMore t.stats

/-- Traces of a branch that is not in flight are nothing that a hook looks at. -/
theorem Shadows.indistinct (h : Shadows key s t) (hs : s.Coherent (Gshare.contract bits))
    (ht : t.Coherent (Gshare.contract bits)) (idle : key ∉ s.inFlight)
    (idle' : key ∉ t.inFlight) : Indistinct s t := by
  have hcheckpoints := h.correlator.checkpoints.eq (mt (hs.checkpoints key).1 idle)
    (mt (ht.checkpoints key).1 idle')
  have hgshare := h.baseline.checkpoints.eq (mt (hs.baseline key).1 idle)
    (mt (ht.baseline key).1 idle')
  obtain @⟨correlator, knobs, inFlight, stats, baseline, hcorrelator, hknobs, hinFlight, hstats,
    hbaseline⟩ := h
  obtain rfl := hinFlight.eq idle idle'
  have hparts : correlator = { s.correlator with tables := correlator.tables } := by
    obtain ⟨tables, mask, checkpoints, threshold, useTheta⟩ := correlator
    obtain ⟨⟨-, hmask, hthreshold, huse⟩, -⟩ := hcorrelator
    simp only at hmask hthreshold huse hcheckpoints
    rw [hmask, hthreshold, huse, hcheckpoints]
  have hsame : baseline = s.baseline := by
    obtain ⟨history, trained, checkpoints⟩ := baseline
    obtain ⟨hhistory, htrained, -⟩ := hbaseline
    simp only at hhistory htrained hgshare
    rw [hhistory, htrained, hgshare]
  refine ⟨?_, hcorrelator.padded.tables, hcorrelator.padded.vote_eq, hknobs, hstats⟩
  subst hsame
  exact congrArg (fun correlator => { s with correlator, knobs, stats }) hparts

/-! ## The squash of a prediction -/

/-- Into any hooks that are answered, a prediction of a branch is put that no other prediction,
resolution or squash is about, and a squash of it at any later place without a setup between
the two. Then all hooks are answered still, those that were there before with the same outcomes,
and the selectors are indistinct in the end. -/
theorem indistinct_of_squash {config : Config} {g : Gshare bits} {s₀ : Selector (Gshare bits)}
    {before between after : List Hook} {outcomes : List Outcome} {seqNo : UInt64} {piece : UInt8}
    (created : create config g = .ok s₀) (unused : g.checkpoints = ∅)
    (run : s₀.applyAll (before ++ between ++ after) = .ok (outcomes, s))
    (hkey : BranchKey.ofParts seqNo piece = .ok key)
    (others : ∀ hook ∈ before ++ between ++ after, hook.branch? ≠ some key)
    (hsetup : .setup ∉ between) (pc : UInt64) :
    ∃ first middle last prediction t,
      outcomes = first ++ middle ++ last ∧ first.length = before.length ∧
      middle.length = between.length ∧
      s₀.applyAll (before ++ .predict seqNo piece pc ::
          (between ++ .squash seqNo piece :: after)) =
        .ok (first ++ .predicted prediction :: (middle ++ .squashed key :: last), t) ∧
      Indistinct s t := by
  obtain ⟨valid, rfl⟩ := create_eq_ok created
  have hidle : g.Serves ∅ := fun other => by
    rw [unused]
    exact Gshare.serves_fresh other
  have hs₀ : (ofConfig config g).Coherent (Gshare.contract bits) := coherent_ofConfig valid hidle
  -- The hooks that were there before, in their three parts.
  obtain ⟨firsts, s₂, last, hfirsts, hafter, rfl⟩ := applyAll_append_eq_ok.1 run
  obtain ⟨first, s₁, middle, hbefore, hbetween, rfl⟩ := applyAll_append_eq_ok.1 hfirsts
  simp only [List.mem_append, or_imp, forall_and] at others
  obtain ⟨⟨hother₁, hother₂⟩, hother₃⟩ := others
  obtain ⟨hs₁, idle₁⟩ := hs₀.idle_of_applyAll Std.ExtTreeMap.not_mem_empty hother₁ hbefore
  obtain ⟨hs₂, idle₂⟩ := hs₁.idle_of_applyAll idle₁ hother₂ hbetween
  obtain ⟨hs₃, idle₃⟩ := hs₂.idle_of_applyAll idle₂ hother₃ hafter
  -- The prediction, after which the branch is in flight up to the squash.
  have hpredict : s₁.Step (.predict seqNo piece pc) _ _ := .predict hkey idle₁
  have ht₁ := hpredict.coherent hs₁
  obtain ⟨t₂, hbetween', hshadows₂⟩ :=
    (shadows_predicted s₁ key pc).applyAll hs₁ ht₁ hother₂ hbetween
  obtain ⟨ht₂, live₂⟩ :=
    ht₁.live_of_applyAll Std.ExtTreeMap.mem_insert_self hother₂ hsetup hbetween'
  -- The squash, which gshare does not refuse.
  obtain ⟨baseline, hdiscarded, -⟩ :=
    ((Gshare.contract bits).killCheckpoint key ht₂.baseline live₂).exists_ok
  have hsquash : t₂.Step (.squash seqNo piece) _ _ := .squash hkey live₂ hdiscarded
  have ht₃ := hsquash.coherent ht₂
  have hshadows₃ := hshadows₂.squashed hdiscarded
  have idle' : key ∉ ({ t₂.squashed key with baseline } : Selector (Gshare bits)).inFlight := by
    show key ∉ t₂.inFlight.erase key
    simp
  obtain ⟨t, hafter', hshadows⟩ := hshadows₃.applyAll hs₂ ht₃ hother₃ hafter
  obtain ⟨ht, idle⟩ := ht₃.idle_of_applyAll idle' hother₃ hafter'
  refine ⟨first, middle, last, s₁.prediction key pc, t, rfl, length_of_applyAll hbefore,
    length_of_applyAll hbetween, ?_, hshadows.indistinct hs₃ ht idle₃ idle⟩
  refine applyAll_append_eq_ok.2 ⟨first, s₁, _, hbefore, ?_, rfl⟩
  refine applyAll_cons_eq_ok.2 ⟨_, _, _, hpredict.apply_eq hs₁, ?_, rfl⟩
  refine applyAll_append_eq_ok.2 ⟨middle, t₂, _, hbetween', ?_, rfl⟩
  exact applyAll_cons_eq_ok.2 ⟨_, _, last, hsquash.apply_eq ht₂, hafter', rfl⟩

/-- Between two overlapping branches a third one is predicted, and it is squashed before the
later of the two resolves. -/
theorem indistinct_of_squash_overlapping :
    ∃ outcomes s first middle last prediction t,
      (ofConfig {} (Gshare.fresh 4)).applyAll overlappingHooks = .ok (outcomes, s) ∧
      outcomes = first ++ middle ++ last ∧
      (ofConfig {} (Gshare.fresh 4)).applyAll (overlappingHooks.take 3 ++ .predict 4 0 0x90 ::
          ((overlappingHooks.drop 3).take 2 ++ .squash 4 0 :: overlappingHooks.drop 5)) =
        .ok (first ++ .predicted prediction :: (middle ++ .squashed ⟨4, 0⟩ :: last), t) ∧
      Indistinct s t := by
  have hcreated : create {} (Gshare.fresh 4) = .ok (ofConfig {} (Gshare.fresh 4)) := rfl
  obtain ⟨⟨outcomes, s⟩, hrun⟩ := exists_eq_ok_of_isOk
    (show ((ofConfig {} (Gshare.fresh 4)).applyAll overlappingHooks).isOk = true by
      decide +kernel)
  have hsplit : overlappingHooks = overlappingHooks.take 3 ++ (overlappingHooks.drop 3).take 2 ++
      overlappingHooks.drop 5 := rfl
  have hkey : BranchKey.ofParts 4 0 = .ok ⟨4, 0⟩ := rfl
  rw [hsplit] at hrun
  obtain ⟨first, middle, last, prediction, t, houtcomes, -, -, hrun', hsame⟩ :=
    indistinct_of_squash hcreated rfl hrun hkey (by decide) (by decide) 0x90
  exact ⟨outcomes, s, first, middle, last, prediction, t, hrun, houtcomes, hrun', hsame⟩

end Selector

end BranchSelector
