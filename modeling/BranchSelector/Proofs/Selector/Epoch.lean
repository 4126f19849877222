import BranchSelector.Baseline.Static
import BranchSelector.Proofs.Selector.Routing
import Mathlib.Data.Finset.Card
import Mathlib.Data.List.DropRight

/-!
# Epochs of the filter

The selector counts the addresses that enter the filter in an epoch, which is begun by a setup or
by an advance. A history says which addresses these are (`Selector.entries`): those that a
resolution finds outside the filter and leaves inside. They are listed in stretches, of which the
first begins with the epoch and every further one when the filter is emptied by hand.

The count is the number of all entries, hook by hook (`Step.logs`). Within a stretch no address
enters twice, for the filter forgets none, so the count of an epoch without an emptying is that of
the different addresses. An address that enters again after an emptying is counted again, though the
epoch is the same (`epochInsertions_reentering`).
-/

namespace BranchSelector

/-- Whether a hook begins an epoch of the filter. -/
def Hook.opensEpoch : Hook → Bool
  | .setup | .advanceEpoch => true
  | .predict _ _ _ | .fetch _ _ | .resolve _ _ _ _ _ _ | .squash _ _ | .decode _ _ _
  | .execute _ _ _ _ | .clearFilter => false

/-- The address that a hook finds mispredicted. -/
def Hook.missed? : Hook → Option UInt64
  | .resolve _ _ pc predicted taken _ => if predicted = taken then none else some pc
  | .setup | .predict _ _ _ | .fetch _ _ | .squash _ _ | .decode _ _ _ | .execute _ _ _ _
  | .advanceEpoch | .clearFilter => none

/-- The hooks of the current epoch, without the one that began it. -/
def sinceEpoch (hooks : List Hook) : List Hook :=
  hooks.rtakeWhile fun hook => !hook.opensEpoch

/-- The addresses that were found mispredicted in the current epoch, with repetitions. -/
def missedInEpoch (hooks : List Hook) : List UInt64 :=
  (sinceEpoch hooks).filterMap Hook.missed?

theorem sinceEpoch_concat {hook : Hook} (hopens : hook.opensEpoch = false) (hooks : List Hook) :
    sinceEpoch (hooks ++ [hook]) = sinceEpoch hooks ++ [hook] :=
  List.rtakeWhile_concat_pos _ _ _ (by rw [hopens]; rfl)

theorem mem_missedInEpoch_concat {hook : Hook} (hopens : hook.opensEpoch = false)
    {hooks : List Hook} {pc : UInt64} :
    pc ∈ missedInEpoch (hooks ++ [hook]) ↔ pc ∈ missedInEpoch hooks ∨ hook.missed? = some pc := by
  rw [missedInEpoch, sinceEpoch_concat hopens, List.filterMap_append, List.mem_append,
    List.mem_filterMap, List.mem_filterMap]
  simp only [List.mem_singleton, exists_eq_left]
  rw [missedInEpoch, List.mem_filterMap]

namespace Selector

variable {β : Type}

/-! ## The addresses that enter -/

/-- The address that a hook finds outside the filter and leaves inside. -/
def newcomer? (before after : Selector β) : Hook → Option UInt64
  | .resolve _ _ pc _ _ _ =>
    if !before.filter.contains pc && after.filter.contains pc then some pc else none
  | .setup | .predict _ _ _ | .fetch _ _ | .squash _ _ | .decode _ _ _ | .execute _ _ _ _
  | .advanceEpoch | .clearFilter => none

/-- Puts an address into the current stretch, which is the first one listed. -/
def enterStretch (pc : UInt64) : List (List UInt64) → List (List UInt64)
  | [] => [[pc]]
  | stretch :: earlier => (pc :: stretch) :: earlier

/-- The stretches of the current epoch after a hook that took the selector `before` to the selector
`after`. -/
def logged (log : List (List UInt64)) (before after : Selector β) (hook : Hook) :
    List (List UInt64) :=
  if hook.opensEpoch then [[]]
  else if hook.empties then [] :: log
  else (newcomer? before after hook).elim log fun pc => enterStretch pc log

/-- The stretches of the current epoch after some hooks that are answered in order, if there were
those of `log` before. -/
def entriesFrom [Baseline β] (log : List (List UInt64)) (s : Selector β) :
    List Hook → List (List UInt64)
  | [] => log
  | hook :: hooks =>
    match s.apply hook with
    | .ok (_, after) => entriesFrom (logged log s after hook) after hooks
    | .error _ => log

/-- The addresses that enter the filter in the epoch that is current after some hooks: one list for
each stretch between two emptyings, the latest stretch first, and in it the latest address. -/
def entries [Baseline β] (s : Selector β) (hooks : List Hook) : List (List UInt64) :=
  entriesFrom [[]] s hooks

theorem flatten_enterStretch (pc : UInt64) (log : List (List UInt64)) :
    (enterStretch pc log).flatten = pc :: log.flatten := by
  cases log <;> rfl

theorem length_enterStretch (pc : UInt64) {log : List (List UInt64)} (h : log.length = 1) :
    (enterStretch pc log).length = 1 := by
  obtain ⟨stretch, rfl⟩ := List.length_eq_one_iff.1 h
  rfl

/-- A resolution counts an address if and only if that is a newcomer. -/
theorem added_eq (s : Selector β) (pc : UInt64) (right : Bool) :
    s.added pc right =
      if !s.filter.contains pc && (s.filterAfter pc right).contains pc then 1 else 0 := by
  unfold added filterAfter
  cases henters : s.enters pc right with
  | true =>
    have hcontains := s.filter.contains_insert pc
    simp [hcontains]
  | false => cases hcontains : s.filter.contains pc <;> simp [hcontains]

/-- Only a mispredicted address is a newcomer. -/
theorem wrong_of_newcomer {s : Selector β} {pc : UInt64} {right : Bool}
    (hout : s.filter.contains pc = false) (hin : (s.filterAfter pc right).contains pc = true) :
    right = false := by
  by_contra hright
  have hsame : s.filterAfter pc true = s.filter := rfl
  rw [Bool.eq_true_of_not_eq_false hright, hsame, hout] at hin
  cases hin

/-! ## The count -/

/-- The selector has counted the addresses of some stretches, which are those of the current epoch
after some hooks. -/
structure Logs (hooks : List Hook) (log : List (List UInt64)) (s : Selector β) : Prop where
  count : s.epochInsertions = log.flatten.length
  distinct : ∀ stretch ∈ log, stretch.Nodup
  /-- What has entered since the filter was last emptied is a member. -/
  members : ∀ stretch ∈ log.head?, ∀ pc ∈ stretch, s.filter.contains pc = true
  missed : ∀ pc ∈ log.flatten, pc ∈ missedInEpoch hooks
  single : .clearFilter ∉ sinceEpoch hooks → log.length = 1

theorem logs_of_opened (hooks : List Hook) {s : Selector β} (hnone : s.epochInsertions = 0) :
    s.Logs hooks [[]] where
  count := hnone
  distinct stretch hstretch := List.mem_singleton.1 hstretch ▸ List.nodup_nil
  members stretch hstretch pc hpc := by
    obtain rfl : [] = stretch := Option.some.inj hstretch
    cases hpc
  missed pc hpc := nomatch hpc
  single _ := rfl

section Steps

variable [Baseline β] {C : Baseline.Contract β} {s t : Selector β} {hook : Hook}
  {outcome : Outcome} {hooks : List Hook} {log : List (List UInt64)}

/-- What a hook that neither begins an epoch nor empties the filter does to the count. -/
theorem Step.epochInsertions_eq (hstep : s.Step hook outcome t) (hopens : hook.opensEpoch = false) :
    t.epochInsertions = s.epochInsertions + (newcomer? s t hook).toList.length := by
  cases hstep with
  | setup | advanceEpoch => cases hopens
  | @resolve seqNo piece pc predicted taken nextPc key provider tags baseline =>
    have hnew : newcomer? s { s.resolved key provider tags pc predicted taken with baseline }
        (.resolve seqNo piece pc predicted taken nextPc) =
        if !s.filter.contains pc && (s.filterAfter pc (predicted == taken)).contains pc then
          some pc else none := rfl
    show s.epochInsertions + s.added pc (predicted == taken) = _
    rw [hnew, added_eq]
    split <;> rfl
  | predict | fetch | squash | decode | decodeUntold | execute | executeUntold | clearFilter =>
    rfl

/-- An address that enters was not a member, is one from then on, and was mispredicted. -/
theorem Step.newcomer (hstep : s.Step hook outcome t) {pc : UInt64}
    (h : newcomer? s t hook = some pc) :
    s.filter.contains pc = false ∧ t.filter.contains pc = true ∧ hook.missed? = some pc := by
  cases hook with
  | resolve seqNo piece other predicted taken nextPc =>
    obtain ⟨henters, hsame⟩ := Option.ite_none_right_eq_some.1 h
    obtain rfl : other = pc := Option.some.inj hsame
    obtain ⟨hout, hin⟩ := (Bool.and_eq_true _ _).mp henters
    rw [Bool.not_eq_true'] at hout
    refine ⟨hout, hin, if_neg ?_⟩
    rw [hstep.filter_eq] at hin
    exact beq_eq_false_iff_ne.1 (wrong_of_newcomer hout hin)
  | setup | predict | fetch | squash | decode | execute | advanceEpoch | clearFilter => cases h

theorem Logs.enter (h : s.Logs hooks log) (hstep : s.Step hook outcome t)
    (hopens : hook.opensEpoch = false) (hkept : hook.empties = false) {pc : UInt64}
    (hnew : newcomer? s t hook = some pc) : t.Logs (hooks ++ [hook]) (enterStretch pc log) := by
  obtain ⟨hout, hin, hmissed⟩ := hstep.newcomer hnew
  constructor
  · rw [hstep.epochInsertions_eq hopens, hnew, flatten_enterStretch, h.count]
    rfl
  · intro stretch hstretch
    cases log with
    | nil => exact List.mem_singleton.1 hstretch ▸ List.nodup_singleton pc
    | cons current earlier =>
      rcases List.mem_cons.1 hstretch with rfl | hearlier
      · -- What is in the stretch is a member, and the newcomer is none.
        refine List.nodup_cons.2 ⟨fun hpc => ?_, h.distinct current List.mem_cons_self⟩
        rw [h.members current rfl pc hpc] at hout
        cases hout
      · exact h.distinct stretch (List.mem_cons_of_mem _ hearlier)
  · intro stretch hstretch other hother
    cases log with
    | nil =>
      obtain rfl : [pc] = stretch := Option.some.inj hstretch
      exact List.mem_singleton.1 hother ▸ hin
    | cons current earlier =>
      obtain rfl : pc :: current = stretch := Option.some.inj hstretch
      rcases List.mem_cons.1 hother with rfl | hold
      · exact hin
      · exact hstep.contains hkept (h.members current rfl other hold)
  · intro other hother
    rw [flatten_enterStretch] at hother
    rw [mem_missedInEpoch_concat hopens]
    rcases List.mem_cons.1 hother with rfl | hold
    · exact .inr hmissed
    · exact .inl (h.missed other hold)
  · intro hnone
    rw [sinceEpoch_concat hopens, List.mem_append, not_or] at hnone
    exact length_enterStretch pc (h.single hnone.1)

/-- Nobody enters, and the filter keeps what it holds. -/
theorem Logs.keep (h : s.Logs hooks log) (hstep : s.Step hook outcome t)
    (hopens : hook.opensEpoch = false) (hkept : hook.empties = false)
    (hnone : newcomer? s t hook = none) : t.Logs (hooks ++ [hook]) log where
  count := by
    rw [hstep.epochInsertions_eq hopens, hnone, h.count]
    rfl
  distinct := h.distinct
  members stretch hstretch pc hpc := hstep.contains hkept (h.members stretch hstretch pc hpc)
  missed pc hpc := (mem_missedInEpoch_concat hopens).2 (.inl (h.missed pc hpc))
  single hclear := by
    rw [sinceEpoch_concat hopens, List.mem_append, not_or] at hclear
    exact h.single hclear.1

omit [Baseline β] in
/-- An emptying by hand begins a stretch and leaves the count as it is. -/
theorem Logs.clearFilter (h : s.Logs hooks log) :
    s.clearFilter.Logs (hooks ++ [.clearFilter]) ([] :: log) where
  count := h.count
  distinct := List.forall_mem_cons.2 ⟨List.nodup_nil, h.distinct⟩
  members stretch hstretch pc hpc := by
    obtain rfl : [] = stretch := Option.some.inj hstretch
    cases hpc
  missed pc hpc := (mem_missedInEpoch_concat rfl).2 (.inl (h.missed pc hpc))
  single hclear := by
    rw [sinceEpoch_concat rfl] at hclear
    exact absurd (List.mem_append_right _ (List.mem_singleton_self _)) hclear

theorem Step.logs (hstep : s.Step hook outcome t) (h : s.Logs hooks log) :
    t.Logs (hooks ++ [hook]) (logged log s t hook) := by
  unfold logged
  by_cases hopens : hook.opensEpoch = true
  · rw [if_pos hopens]
    refine logs_of_opened _ ?_
    cases hstep with
    | setup | advanceEpoch => rfl
    | predict | fetch | resolve | squash | decode | decodeUntold | execute | executeUntold
    | clearFilter => cases hopens
  · rw [if_neg hopens]
    rw [Bool.not_eq_true] at hopens
    by_cases hempties : hook.empties = true
    · rw [if_pos hempties]
      cases hstep with
      | clearFilter => exact h.clearFilter
      | setup => cases hopens
      | predict | fetch | resolve | squash | decode | decodeUntold | execute | executeUntold
      | advanceEpoch => cases hempties
    · rw [if_neg hempties]
      rw [Bool.not_eq_true] at hempties
      cases hnew : newcomer? s t hook with
      | none => exact h.keep hstep hopens hempties hnew
      | some pc => exact h.enter hstep hopens hempties hnew

theorem Coherent.logs_of_applyAll (hs : s.Coherent C) {outcomes : List Outcome}
    (run : s.applyAll hooks = .ok (outcomes, t)) {before : List Hook} (h : s.Logs before log) :
    t.Logs (before ++ hooks) (entriesFrom log s hooks) := by
  induction hooks generalizing s before log outcomes with
  | nil =>
    obtain ⟨-, rfl⟩ := Prod.mk.inj (Except.ok.inj run)
    rw [List.append_nil]
    exact h
  | cons hook hooks ih =>
    obtain ⟨first, middle, rest, happly, hlater, -⟩ := applyAll_cons_eq_ok.1 run
    have hstep := hs.step happly
    have hlast := ih (hstep.coherent hs) hlater (hstep.logs h)
    rw [List.append_assoc, List.singleton_append] at hlast
    rw [entriesFrom, happly]
    exact hlast

/-- After any hooks, around any baseline and with a filter of either kind, the count of the current
epoch is the number of the entries into the filter, and in no stretch between two emptyings does an
address enter twice. So the count is that of the different addresses exactly if none has entered in
two stretches. As long as the filter was not emptied by hand since the epoch began this is so, and
the count does not exceed the number of different addresses that were mispredicted in the epoch. -/
theorem epochInsertions_of_run {config : Config} {baseline : β} {s₀ : Selector β}
    {outcomes : List Outcome} (created : create config baseline = .ok s₀)
    (run : s₀.applyAll hooks = .ok (outcomes, s)) :
    s.epochInsertions = (s₀.entries hooks).flatten.length ∧
      (∀ stretch ∈ s₀.entries hooks, stretch.Nodup) ∧
      (s.epochInsertions = (s₀.entries hooks).flatten.toFinset.card ↔
        (s₀.entries hooks).flatten.Nodup) ∧
      (.clearFilter ∉ sinceEpoch hooks →
        s.epochInsertions = (s₀.entries hooks).flatten.toFinset.card ∧
        s.epochInsertions ≤ (missedInEpoch hooks).toFinset.card) := by
  obtain ⟨valid, rfl⟩ := create_eq_ok created
  have hs : (ofConfig config baseline).Coherent (Baseline.anyContract β) :=
    coherent_ofConfig valid trivial
  have h := hs.logs_of_applyAll run (logs_of_opened (s := ofConfig config baseline) [] rfl)
  rw [List.nil_append] at h
  generalize hlog : (ofConfig config baseline).entries hooks = log
  rw [entries] at hlog
  rw [hlog] at h
  have hexact : s.epochInsertions = log.flatten.toFinset.card ↔ log.flatten.Nodup := by
    rw [h.count, eq_comm]
    exact Multiset.toFinset_card_eq_card_iff_nodup
  refine ⟨h.count, h.distinct, hexact, fun hkept => ?_⟩
  have hnodup : log.flatten.Nodup := by
    obtain ⟨stretch, rfl⟩ := List.length_eq_one_iff.1 (h.single hkept)
    rw [List.flatten_singleton]
    exact h.distinct stretch (List.mem_singleton_self stretch)
  have hsubset : log.flatten.toFinset ⊆ (missedInEpoch hooks).toFinset := fun pc hpc =>
    List.mem_toFinset.2 (h.missed pc (List.mem_toFinset.1 hpc))
  exact ⟨hexact.2 hnodup, hexact.2 hnodup ▸ Finset.card_le_card hsubset⟩

end Steps

/-- Two addresses are missed in an epoch, the first of them twice, after another was missed in the
epoch before. -/
def secondEpochHooks : List Hook :=
  [.setup, .predict 1 0 0x40, .resolve 1 0 0x40 true false 0x44, .advanceEpoch,
    .predict 2 0 0x80, .resolve 2 0 0x80 true false 0x84,
    .predict 3 0 0xc0, .resolve 3 0 0xc0 true false 0xc4,
    .predict 4 0 0x80, .resolve 4 0 0x80 true false 0x84]

theorem epochInsertions_of_run_secondEpoch :
    ∃ outcomes s, (ofConfig {} (Static.always true)).applyAll secondEpochHooks =
        .ok (outcomes, s) ∧
      (ofConfig {} (Static.always true)).entries secondEpochHooks = [[0xc0, 0x80]] ∧
      s.epochInsertions = 2 ∧ s.epochInsertions ≤ (missedInEpoch secondEpochHooks).toFinset.card := by
  have hcreated : create {} (Static.always true) = .ok (ofConfig {} (Static.always true)) := rfl
  have hentries : (ofConfig {} (Static.always true)).entries secondEpochHooks =
      [[0xc0, 0x80]] := by
    decide +kernel
  obtain ⟨⟨outcomes, s⟩, hrun⟩ := exists_eq_ok_of_isOk
    (show ((ofConfig {} (Static.always true)).applyAll secondEpochHooks).isOk = true by
      decide +kernel)
  obtain ⟨hcount, -, -, hkept⟩ := epochInsertions_of_run hcreated hrun
  rw [hentries] at hcount
  exact ⟨outcomes, s, hrun, hentries, hcount, (hkept (by decide)).2⟩

/-- One address is missed, the filter is emptied, and the address is missed again. -/
def reenteringHooks : List Hook :=
  [.setup, .predict 1 0 0x40, .resolve 1 0 0x40 true false 0x44, .clearFilter,
    .predict 2 0 0x40, .resolve 2 0 0x40 true false 0x44]

/-- The only address that is mispredicted in an epoch is counted twice. -/
theorem epochInsertions_reentering :
    ∃ outcomes s, (ofConfig {} (Static.always true)).applyAll reenteringHooks =
        .ok (outcomes, s) ∧
      s.epochInsertions = 2 ∧
      ((ofConfig {} (Static.always true)).entries reenteringHooks).flatten.toFinset.card = 1 ∧
      (missedInEpoch reenteringHooks).toFinset.card = 1 := by
  have hanswers : (do
      let (_, s) ← (ofConfig {} (Static.always true)).applyAll reenteringHooks
      return s.epochInsertions) = (.ok 2 : Except Violation Nat) := by
    decide +kernel
  obtain ⟨⟨outcomes, s⟩, hrun, hvalue⟩ := bind_eq_ok_iff.1 hanswers
  have hentries : (ofConfig {} (Static.always true)).entries reenteringHooks =
      [[0x40], [0x40]] := by
    decide +kernel
  refine ⟨outcomes, s, hrun, Except.ok.inj hvalue, ?_, rfl⟩
  rw [hentries]
  rfl

end Selector

end BranchSelector
