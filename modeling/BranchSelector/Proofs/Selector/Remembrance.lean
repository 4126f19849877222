import BranchSelector.Proofs.Selector.Routing

/-!
# What a filter remembers

A history of hooks says which addresses were missed: those that a resolution has found mispredicted
since a hook last emptied the filter (`Selector.Missed`). The filter follows it, hook by hook
(`Step.remembers`), however the epochs advance. An exact set holds the addresses that were missed
and no others. A Bloom filter holds all that were missed in even epochs. It may hold more, but its
bits change only when it is emptied and when in an even epoch an address is missed that is not a
member (`Step.of_filter_ne`).

Each resolution asks the filter that it leaves behind which call to make to the baseline
(`filter_of_run`).
-/

namespace BranchSelector

/-- Whether a hook is a resolution that finds an address mispredicted. -/
def Hook.misses (pc : UInt64) : Hook → Bool
  | .resolve _ _ other predicted taken _ => other == pc && predicted != taken
  | .setup | .predict _ _ _ | .fetch _ _ | .squash _ _ | .decode _ _ _ | .execute _ _ _ _
  | .advanceEpoch | .clearFilter => false

theorem Hook.misses_resolve {seqNo : UInt64} {piece : UInt8} {pc other nextPc : UInt64}
    {predicted taken : Bool} :
    Hook.misses other (.resolve seqNo piece pc predicted taken nextPc) = true ↔
      pc = other ∧ predicted ≠ taken := by
  rw [misses, Bool.and_eq_true, beq_iff_eq, bne_iff_ne]

namespace Selector

/-! ## What a history says -/

/-- The number of the epoch after some hooks: how often it was advanced since the last setup. -/
def epochAfter (hooks : List Hook) : Nat :=
  (hooks.reverse.takeWhile (· != .setup)).count .advanceEpoch

/-- Some resolution has found an address mispredicted in an epoch that counts, and no hook has
emptied the filter since. -/
def Missed (counts : Nat → Prop) (pc : UInt64) (hooks : List Hook) : Prop :=
  ∃ before hook after, hooks = before ++ hook :: after ∧ hook.misses pc = true ∧
    counts (epochAfter before) ∧ ∀ later ∈ after, later.empties = false

theorem epochAfter_concat (hooks : List Hook) (hook : Hook) :
    epochAfter (hooks ++ [hook]) =
      if hook = .setup then 0 else epochAfter hooks + if hook = .advanceEpoch then 1 else 0 := by
  unfold epochAfter
  rw [List.reverse_append, List.reverse_singleton, List.singleton_append, List.takeWhile_cons]
  by_cases hsetup : hook = .setup
  · simp [hsetup]
  · by_cases hadvance : hook = .advanceEpoch
    · simp [hadvance]
    · simp [hsetup, hadvance]

/-- An address was missed if the last hook misses it, or if it was missed before and the last hook
does not empty the filter. -/
theorem missed_concat {counts : Nat → Prop} {pc : UInt64} {hooks : List Hook} {hook : Hook} :
    Missed counts pc (hooks ++ [hook]) ↔
      hook.misses pc = true ∧ counts (epochAfter hooks) ∨
        hook.empties = false ∧ Missed counts pc hooks := by
  constructor
  · rintro ⟨before, miss, after, hsplit, hmiss, hcounts, hkept⟩
    rcases List.eq_nil_or_concat after with rfl | ⟨front, last, rfl⟩
    · obtain ⟨rfl, hsame⟩ := List.append_inj' hsplit rfl
      obtain rfl := List.singleton_inj.1 hsame
      exact .inl ⟨hmiss, hcounts⟩
    · rw [List.concat_eq_append] at hsplit hkept
      rw [List.forall_mem_append, List.forall_mem_singleton] at hkept
      rw [← List.cons_append, ← List.append_assoc] at hsplit
      obtain ⟨rfl, hsame⟩ := List.append_inj' hsplit rfl
      obtain rfl := List.singleton_inj.1 hsame
      exact .inr ⟨hkept.2, before, miss, front, rfl, hmiss, hcounts, hkept.1⟩
  · rintro (⟨hmiss, hcounts⟩ | ⟨hlast, before, miss, after, rfl, hmiss, hcounts, hkept⟩)
    · exact ⟨hooks, hook, [], rfl, hmiss, hcounts, nofun⟩
    · refine ⟨before, miss, after ++ [hook], ?_, hmiss, hcounts, ?_⟩
      · rw [List.append_assoc, List.cons_append]
      · rw [List.forall_mem_append, List.forall_mem_singleton]
        exact ⟨hkept, hlast⟩

theorem not_missed_nil {counts : Nat → Prop} {pc : UInt64} : ¬ Missed counts pc [] := by
  rintro ⟨before, hook, after, hsplit, -⟩
  exact List.append_ne_nil_of_right_ne_nil _ (List.cons_ne_nil _ _) hsplit.symm

/-! ## The filter follows -/

variable {β : Type}

/-- The filter as it follows from some hooks. -/
structure Remembers (hooks : List Hook) (s : Selector β) : Prop where
  epoch : s.epoch = epochAfter hooks
  /-- An exact set holds exactly what was missed. -/
  oracle : s.filter.kind = .oracle → ∀ pc,
    s.filter.contains pc = true ↔ Missed (fun _ => True) pc hooks
  /-- A Bloom filter holds all that was missed in even epochs. -/
  bloom : s.filter.kind = .bloom → ∀ pc,
    Missed (fun epoch => epoch % 2 = 0) pc hooks → s.filter.contains pc = true

theorem remembers_ofConfig (config : Config) (baseline : β) :
    (ofConfig config baseline).Remembers [] where
  epoch := rfl
  oracle hkind pc := by
    have hempty : (ofConfig config baseline).filter.clear = (ofConfig config baseline).filter :=
      Filter.clear_empty _ _
    have hcleared := Filter.contains_clear hkind pc
    rw [← hempty, hcleared]
    exact iff_of_false Bool.false_ne_true not_missed_nil
  bloom _ _ hmissed := absurd hmissed not_missed_nil

/-- An exact set takes in what was mispredicted and nothing else. -/
theorem contains_filterAfter_iff {s : Selector β} (hkind : s.filter.kind = .oracle)
    {pc other : UInt64} {right : Bool} :
    (s.filterAfter pc right).contains other = true ↔
      pc = other ∧ right = false ∨ s.filter.contains other = true := by
  have hreceptive : s.Receptive := .inl hkind
  cases right with
  | true =>
    show s.filter.contains other = true ↔ _
    simp
  | false =>
    cases hmember : s.filter.contains pc with
    | true =>
      rw [filterAfter_of_contains hmember]
      constructor
      · exact .inr
      · rintro (⟨rfl, -⟩ | h)
        · exact hmember
        · exact h
    | false =>
      rw [hreceptive.filterAfter_wrong hmember, Filter.contains_insert_iff hkind]
      simp [or_comm]

section Steps

variable [Baseline β] {s s' : Selector β} {hook : Hook} {outcome : Outcome} {hooks : List Hook}

theorem Step.epoch_eq (hstep : s.Step hook outcome s') :
    s'.epoch = if hook = .setup then 0 else s.epoch + if hook = .advanceEpoch then 1 else 0 := by
  cases hstep <;> rfl

theorem Step.remembers (hstep : s.Step hook outcome s') (h : s.Remembers hooks) :
    s'.Remembers (hooks ++ [hook]) where
  epoch := by
    rw [hstep.epoch_eq, epochAfter_concat, h.epoch]
  oracle hkind pc := by
    rw [hstep.kind_eq] at hkind
    rw [hstep.filter_eq, missed_concat, ← h.oracle hkind]
    cases hook with
    | setup | clearFilter =>
      have hcleared := Filter.contains_clear hkind pc
      simp [filterBy, hcleared, Hook.misses, Hook.empties]
    | resolve seqNo piece other predicted taken nextPc =>
      rw [filterBy, contains_filterAfter_iff hkind, Hook.misses_resolve]
      simp [Hook.empties]
    | predict | fetch | squash | decode | execute | advanceEpoch =>
      simp [filterBy, Hook.misses, Hook.empties]
  bloom hkind pc hmissed := by
    rw [hstep.kind_eq] at hkind
    rcases missed_concat.1 hmissed with ⟨hmiss, heven⟩ | ⟨hkept, hearlier⟩
    · -- In an even epoch the address is offered to the filter, and is taken in.
      have hreceptive : s.Receptive := .inr (h.epoch ▸ heven)
      rw [hstep.filter_eq]
      cases hook with
      | resolve seqNo piece other predicted taken nextPc =>
        obtain ⟨rfl, hwrong⟩ := Hook.misses_resolve.1 hmiss
        rw [filterBy, beq_eq_false_iff_ne.2 hwrong]
        exact hreceptive.contains_filterAfter_wrong other
      | setup | predict | fetch | squash | decode | execute | advanceEpoch | clearFilter =>
        cases hmiss
    · exact hstep.contains hkept (h.bloom hkind pc hearlier)

/-- What changes the bits of a Bloom filter. -/
theorem Step.of_filter_ne (hstep : s.Step hook outcome s') (hkind : s.filter.kind = .bloom)
    (hne : s'.filter ≠ s.filter) :
    hook.empties = true ∨
      ∃ pc, hook.misses pc = true ∧ s.filter.contains pc = false ∧ s.epoch % 2 = 0 := by
  rw [hstep.filter_eq] at hne
  cases hook with
  | setup | clearFilter => exact .inl rfl
  | resolve seqNo piece pc predicted taken nextPc =>
    have hmember : s.filter.contains pc = false := by
      by_contra hmember
      exact hne (filterAfter_of_contains (Bool.eq_true_of_not_eq_false hmember) _)
    have henters : s.enters pc (predicted == taken) = true := by
      by_contra henters
      exact hne (if_neg henters)
    obtain ⟨hwrong, hadmits⟩ := (Bool.and_eq_true _ _).mp henters
    refine .inr ⟨pc, Hook.misses_resolve.2 ⟨rfl, ?_⟩, hmember, ?_⟩
    · rw [Bool.not_eq_true'] at hwrong
      exact beq_eq_false_iff_ne.1 hwrong
    · unfold admits at hadmits
      cases hfilter : s.filter with
      | oracle keys =>
        rw [hfilter] at hkind
        cases hkind
      | bloom bits =>
        rw [hfilter] at hadmits
        exact beq_iff_eq.1 ((Bool.and_eq_true _ _).mp hadmits).2
  | predict | fetch | squash | decode | execute | advanceEpoch => exact absurd rfl hne

end Steps

/-- After any hooks, the filter is of the kind that the configuration asks for and follows from the
hooks: an exact set holds exactly what was missed since it was last emptied, and a Bloom filter all
of it that was missed in even epochs. The next hook changes the bits of a Bloom filter only if it
empties it, or if it misses an address in an even epoch that is not a member. A resolution, unless
it breaks the contract or the baseline refuses, makes one call to the baseline: that is trained if
the address is a member of the filter that the resolution leaves behind, and discards the branch
otherwise. -/
theorem filter_of_run [Baseline β] {config : Config} {b : Recorded β}
    {s₀ s : Selector (Recorded β)} {hooks : List Hook} {outcomes : List Outcome}
    (created : create config b = .ok s₀) (run : s₀.applyAll hooks = .ok (outcomes, s)) :
    s.filter.kind = config.effectiveFilterKind ∧ s.Remembers hooks ∧
      (∀ {hook : Hook} {outcome : Outcome} {t : Selector (Recorded β)},
        s.apply hook = .ok (outcome, t) → s.filter.kind = .bloom → t.filter ≠ s.filter →
        hook.empties = true ∨
          ∃ pc, hook.misses pc = true ∧ s.filter.contains pc = false ∧ s.epoch % 2 = 0) ∧
      ∀ {seqNo : UInt64} {piece : UInt8} {key : BranchKey},
        BranchKey.ofParts seqNo piece = .ok key →
        ∀ (pc : UInt64) (predicted taken : Bool) (nextPc : UInt64),
        Ends (s.resolve seqNo piece pc predicted taken nextPc)
          (fun answer => answer.2.baseline.calls = s.baseline.calls ++
            [if answer.2.filter.contains pc then .update key pc taken predicted nextPc
              else .killCheckpoint key])
          (fun violation => s.Breach (.resolve seqNo piece pc predicted taken nextPc) violation ∨
            Baseline.Refuses β violation) := by
  have hkind := kind_of_run created run
  obtain ⟨h, hremembers⟩ := created_induction (C := Baseline.anyContract (Recorded β))
    (P := fun done t => t.Remembers done) created trivial
    (fun _ hstep hremembers => hstep.remembers hremembers) run (remembers_ofConfig config b)
  refine ⟨hkind, hremembers, ?_, ?_⟩
  · intro hook outcome t happly hbloom hne
    exact (h.step happly).of_filter_ne hbloom hne
  · intro seqNo piece key hkey pc predicted taken nextPc
    refine (h.resolve_calls hkey pc predicted taken nextPc).imp ?_ ?_
    · rintro ⟨resolution, t⟩ ⟨hfilter, hcalls⟩
      rw [hfilter]
      exact hcalls
    · rintro violation (hbreach | hrefused)
      · exact .inl hbreach
      · exact .inr (Baseline.refuses_of_recorded hrefused)

/-- An address is missed in the first epoch, and another one in the second. The filter holds the
first of them, and the resolution of the second leaves it alone. -/
theorem filter_of_run_oddEpoch :
    let s₀ : Selector (Recorded Static) :=
      ofConfig { arbiter := { mode := .bloom } } ⟨.always false, []⟩
    let hooks := memberHooks ++ [.advanceEpoch, .predict 3 0 0x80]
    ∃ outcomes s resolution t,
      s₀.applyAll hooks = .ok (outcomes, s) ∧
      s.resolve 3 0 0x80 true false 0x84 = .ok (resolution, t) ∧
      s.filter.kind = .bloom ∧ s.Remembers hooks ∧ s.filter.contains 0x40 = true ∧
      t.filter = s.filter ∧
      t.baseline.calls = s.baseline.calls ++ [.killCheckpoint ⟨3, 0⟩] := by
  intro s₀ hooks
  have hcreated : create { arbiter := { mode := .bloom } } (⟨.always false, []⟩ : Recorded Static) =
    .ok s₀ := rfl
  have hanswers : (do
      let (_, s) ← s₀.applyAll hooks
      let (_, t) ← s.resolve 3 0 0x80 true false 0x84
      return (s.epoch, t.filter.contains 0x80)) =
      (.ok (1, false) : Except Violation (Nat × Bool)) := by
    decide +kernel
  obtain ⟨⟨outcomes, s⟩, hrun, hrest⟩ := bind_eq_ok_iff.1 hanswers
  obtain ⟨⟨resolution, t⟩, hresolve, hvalues⟩ := bind_eq_ok_iff.1 hrest
  obtain ⟨hepoch, hmember⟩ := Prod.mk.inj (Except.ok.inj hvalues)
  obtain ⟨hkind, hremembers, hchanges, hcalls⟩ := filter_of_run hcreated hrun
  have happly : s.apply (.resolve 3 0 0x80 true false 0x84) = .ok (.resolved resolution, t) := by
    simp only [apply, hresolve, bind, Except.bind]
    rfl
  have hmissed : Missed (fun epoch => epoch % 2 = 0) 0x40 hooks :=
    ⟨[.setup, .predict 1 0 0x40], .resolve 1 0 0x40 true false 0x44,
      [.advanceEpoch, .predict 3 0 0x80], rfl, rfl, rfl, by decide⟩
  have hfilter : t.filter = s.filter := by
    by_contra hne
    rcases hchanges happly hkind hne with hempties | ⟨pc, -, -, heven⟩
    · cases hempties
    · rw [hepoch] at heven
      cases heven
  have hkey : BranchKey.ofParts 3 0 = .ok ⟨3, 0⟩ := rfl
  have hlast := (hcalls hkey 0x80 true false 0x84).of_ok hresolve
  rw [hmember] at hlast
  exact ⟨outcomes, s, resolution, t, hrun, hresolve, hkind, hremembers,
    hremembers.bloom hkind 0x40 hmissed, hfilter, hlast⟩

end Selector

end BranchSelector
