import BranchSelector.Baseline.Call
import BranchSelector.Baseline.Gshare
import BranchSelector.Proofs.Correlator.Checkpoint
import Mathlib.Data.List.Induction
import Mathlib.Data.Nat.Digits.Defs

/-!
# Gshare as a function of its calls

The calls of a gshare predictor say what it holds, without any predictor. Only those since the last
setup count (`Gshare.sinceSetup`), here with the latest first, as the later ones are about what the
earlier ones have left:

* the history is the number that the last directions make (`Gshare.register`);
* a branch has kept the place in the table at which it was predicted (`Gshare.kept`), which is not
  the one that its address names by the time it is trained on;
* a counter has seen the directions of the branches that had kept its place (`Gshare.outcomes`).

The predictor follows its calls, one by one, however the branches interleave (`Follows.step`).
-/

namespace BranchSelector

namespace BaselineCall

/-- The direction that a call adds to the history. -/
def direction? : BaselineCall → Option Bool
  | updateHistory _ _ _ _ taken _ => some taken
  | setup | predict _ _ _ | trackOther _ _ _ _ _ | update _ _ _ _ _ | killCheckpoint _
  | decodeNotify _ _ | executeNotify _ _ _ | terminate => none

/-- The branch whose checkpoint a call takes or consumes. -/
def checkpoint? : BaselineCall → Option BranchKey
  | predict key _ _ | update key _ _ _ _ | killCheckpoint key => some key
  | setup | updateHistory _ _ _ _ _ _ | trackOther _ _ _ _ _ | decodeNotify _ _
  | executeNotify _ _ _ | terminate => none

end BaselineCall

namespace Gshare

/-! ## What the calls leave behind -/

/-- The calls since the last setup, the latest first. -/
def sinceSetup (calls : List BaselineCall) : List BaselineCall :=
  calls.reverse.takeWhile (· != .setup)

/-- The directions of the conditional branches, the latest first. -/
def directions (past : List BaselineCall) : List Bool :=
  past.filterMap BaselineCall.direction?

/-- The last `bits` directions as a number, with the latest in the lowest bit. -/
def register (bits : Nat) (past : List BaselineCall) : Nat :=
  Nat.ofDigits 2 (((directions past).take bits).map Bool.toNat)

/-- The place of an address in a table of `2 ^ bits` counters. -/
def place (bits : Nat) (pc : UInt64) (past : List BaselineCall) : Nat :=
  ((pc.toNat >>> 2) ^^^ register bits past) % 2 ^ bits

/-- The place at which a branch was predicted last, if it has not been consumed since. -/
def kept (bits : Nat) (key : BranchKey) : List BaselineCall → Option Nat
  | [] => none
  | .predict other pc _ :: earlier =>
    if other = key then some (place bits pc earlier) else kept bits key earlier
  | .update other _ _ _ _ :: earlier | .killCheckpoint other :: earlier =>
    if other = key then none else kept bits key earlier
  | _ :: earlier => kept bits key earlier

/-- The directions of the branches that were trained on and had kept a place, in the order of the
training. -/
def outcomes (bits i : Nat) : List BaselineCall → List Bool
  | [] => []
  | .update key _ taken _ _ :: earlier =>
    if kept bits key earlier = some i then outcomes bits i earlier ++ [taken]
    else outcomes bits i earlier
  | _ :: earlier => outcomes bits i earlier

/-- A two-bit counter that starts at one and has seen some directions. -/
def counted (outcomes : List Bool) : Int :=
  outcomes.foldl (fun value taken => if taken then min 3 (value + 1) else max 0 (value - 1)) 1

section

variable {bits : Nat} {past calls : List BaselineCall} {call : BaselineCall} {key : BranchKey}

theorem sinceSetup_concat_setup (calls : List BaselineCall) :
    sinceSetup (calls ++ [.setup]) = [] := by
  rw [sinceSetup, List.reverse_concat]
  exact List.takeWhile_cons_of_neg (by simp)

theorem sinceSetup_concat (hsetup : call ≠ .setup) (calls : List BaselineCall) :
    sinceSetup (calls ++ [call]) = call :: sinceSetup calls := by
  rw [sinceSetup, List.reverse_concat]
  exact List.takeWhile_cons_of_pos (by simpa using hsetup)

/-- Directions that are older do not count. -/
theorem register_eq_mod (bits : Nat) (past : List BaselineCall) :
    register bits past = Nat.ofDigits 2 ((directions past).map Bool.toNat) % 2 ^ bits := by
  rw [Nat.ofDigits_mod_pow_eq_ofDigits_take bits Nat.two_pos, register, List.map_take]
  intro digit hdigit
  obtain ⟨taken, -, rfl⟩ := List.mem_map.1 hdigit
  exact Bool.toNat_lt taken

theorem register_lt (bits : Nat) (past : List BaselineCall) :
    register bits past < 2 ^ bits := by
  rw [register_eq_mod]
  exact Nat.mod_lt _ (Nat.two_pow_pos bits)

/-- A direction more moves the others up by one bit. -/
theorem register_cons {taken : Bool} (hcall : call.direction? = some taken) :
    register bits (call :: past) = (2 * register bits past + taken.toNat) % 2 ^ bits := by
  have hdirections : directions (call :: past) = taken :: directions past :=
    List.filterMap_cons_some hcall
  rw [register_eq_mod, register_eq_mod, hdirections, List.map_cons, Nat.ofDigits_cons]
  -- A bit that is dropped before the move would be dropped after it as well.
  simp only [Nat.add_mod, Nat.mul_mod, Nat.mod_mod]
  rw [Nat.add_comm]

theorem kept_cons_of_ne (hcall : call.checkpoint? ≠ some key) :
    kept bits key (call :: past) = kept bits key past := by
  cases call with
  | predict other | update other | killCheckpoint other =>
    exact if_neg fun hsame => hcall (congrArg some hsame)
  | setup | updateHistory | trackOther | decodeNotify | executeNotify | terminate => rfl

/-- Calls about other branches leave a place alone. -/
theorem kept_append {after : List BaselineCall}
    (hafter : ∀ call ∈ after, call ≠ .setup ∧ call.checkpoint? ≠ some key) :
    kept bits key (sinceSetup (calls ++ after)) = kept bits key (sinceSetup calls) := by
  induction after using List.reverseRecOn with
  | nil => rw [List.append_nil]
  | append_singleton after call ih =>
    obtain ⟨hsetup, hother⟩ := hafter call (List.mem_append_right _ (List.mem_singleton_self _))
    rw [← List.append_assoc, sinceSetup_concat hsetup, kept_cons_of_ne hother]
    exact ih fun call hcall => hafter call (List.mem_append_left _ hcall)

/-- A branch that keeps a place was predicted at some time, and no later call is about it. -/
theorem exists_predict_of_kept {i : Nat} (hkept : kept bits key (sinceSetup calls) = some i) :
    ∃ before pc vote after, calls = before ++ .predict key pc vote :: after ∧
      (∀ call ∈ after, call ≠ .setup ∧ call.checkpoint? ≠ some key) ∧
      place bits pc (sinceSetup before) = i := by
  induction calls using List.reverseRecOn with
  | nil => cases hkept
  | append_singleton calls call ih =>
    by_cases hsetup : call = .setup
    · subst hsetup
      rw [sinceSetup_concat_setup] at hkept
      cases hkept
    rw [sinceSetup_concat hsetup] at hkept
    by_cases hkey : call.checkpoint? = some key
    · -- The last call about the branch is its prediction, as otherwise no place is kept.
      cases call with
      | predict other pc vote =>
        obtain rfl := Option.some.inj hkey
        rw [kept, if_pos rfl] at hkept
        exact ⟨calls, pc, vote, [], rfl, nofun, Option.some.inj hkept⟩
      | update other | killCheckpoint other =>
        obtain rfl := Option.some.inj hkey
        rw [kept, if_pos rfl] at hkept
        cases hkept
      | setup | updateHistory | trackOther | decodeNotify | executeNotify | terminate =>
        cases hkey
    · rw [kept_cons_of_ne hkey] at hkept
      obtain ⟨before, pc, vote, after, rfl, hafter, hplace⟩ := ih hkept
      refine ⟨before, pc, vote, after ++ [call], by simp, fun later hlater => ?_, hplace⟩
      rcases List.mem_append.1 hlater with hold | hnew
      · exact hafter later hold
      · obtain rfl := List.mem_singleton.1 hnew
        exact ⟨hsetup, hkey⟩

theorem kept_eq_some_iff {i : Nat} :
    kept bits key (sinceSetup calls) = some i ↔
      ∃ before pc vote after, calls = before ++ .predict key pc vote :: after ∧
        (∀ call ∈ after, call ≠ .setup ∧ call.checkpoint? ≠ some key) ∧
        place bits pc (sinceSetup before) = i := by
  constructor
  · exact exists_predict_of_kept
  · rintro ⟨before, pc, vote, after, rfl, hafter, rfl⟩
    rw [List.append_cons, kept_append hafter, sinceSetup_concat BaselineCall.noConfusion]
    exact if_pos rfl

/-- A direction more is a step of the counter. -/
theorem counted_concat (outcomes : List Bool) (taken : Bool) :
    counted (outcomes ++ [taken]) = counterRange.step (counted outcomes) taken := by
  rw [counted, List.foldl_concat, ← counted]
  cases taken with
  | false =>
    show max 0 (counted outcomes - 1) = if 0 < counted outcomes then counted outcomes - 1 else 0
    split_ifs <;> omega
  | true =>
    show min 3 (counted outcomes + 1) = if counted outcomes < 3 then counted outcomes + 1 else 3
    split_ifs <;> omega

theorem counted_bounds (outcomes : List Bool) : 0 ≤ counted outcomes ∧ counted outcomes ≤ 3 := by
  have hrange : counterRange.contains (counted outcomes) = true := by
    induction outcomes using List.reverseRecOn with
    | nil => rfl
    | append_singleton outcomes taken ih =>
      rw [counted_concat]
      exact CounterRange.contains_step taken ih
  exact CounterRange.contains_iff.1 hrange

end

/-! ## One call -/

/-- A gshare predictor follows the calls since the last setup. -/
structure Follows {bits : Nat} (past : List BaselineCall) (g : Gshare bits) : Prop where
  history : g.history.toNat = register bits past
  checkpoints : ∀ key, g.checkpoints[key]?.map BitVec.toNat = kept bits key past
  counters : ∀ i, g.counter i = counted (outcomes bits i.toNat past)

section Follows

variable {bits : Nat} {past calls : List BaselineCall} {call : BaselineCall} {key : BranchKey}
  {g g' : Gshare bits}

theorem follows_fresh (bits : Nat) : (fresh bits).Follows [] where
  history := (BitVec.toNat_ofNat 0 bits).trans (register_eq_mod bits []).symm
  checkpoints _ := rfl
  counters _ := rfl

/-- An address reads the counter at its place. -/
theorem Follows.toNat_index (h : g.Follows past) (pc : UInt64) :
    (g.index pc).toNat = place bits pc past := by
  unfold index place
  rw [BitVec.toNat_xor, BitVec.toNat_setWidth, h.history, Nat.xor_mod_two_pow,
    Nat.mod_eq_of_lt (register_lt bits past)]
  rfl

theorem Follows.predict (h : g.Follows past) (key : BranchKey) (pc : UInt64) (vote : Bool) :
    (g.predict key pc).2.Follows (.predict key pc vote :: past) where
  history := h.history
  checkpoints other := by
    show (g.checkpoints.insert key (g.index pc))[other]?.map BitVec.toNat =
      if key = other then some (place bits pc past) else kept bits other past
    rw [getElem?_insert_eq_ite, apply_ite (Option.map BitVec.toNat), Option.map_some,
      h.toNat_index, h.checkpoints]
  counters := h.counters

/-- The register drops the direction that is too old. -/
theorem Follows.shift (h : g.Follows past) (key : BranchKey) (pc : UInt64) (typeCode : Nat)
    (predicted taken : Bool) (nextPc : UInt64) :
    (g.shift taken).Follows (.updateHistory key pc typeCode predicted taken nextPc :: past) where
  history := by
    show ((g.history.concat taken).setWidth bits).toNat = _
    rw [BitVec.toNat_setWidth, BitVec.toNat_concat, h.history, register_cons rfl, Nat.mul_comm]
  checkpoints := h.checkpoints
  counters := h.counters

/-- A branch that is consumed keeps no place. -/
theorem Follows.getElem?_erase (h : g.Follows past) (key other : BranchKey) :
    (g.checkpoints.erase key)[other]?.map BitVec.toNat =
      if key = other then none else kept bits other past := by
  rw [getElem?_erase_eq_ite, apply_ite (Option.map BitVec.toNat), Option.map_none, h.checkpoints]

/-- The counter that a branch had read takes a step, and no other one does. -/
theorem Follows.update (h : g.Follows past) {taken : Bool} (hupdate : g.update key taken = .ok g')
    (pc : UInt64) (predicted : Bool) (nextPc : UInt64) :
    g'.Follows (.update key pc taken predicted nextPc :: past) := by
  have hkept := h.checkpoints key
  unfold Gshare.update at hupdate
  cases hlive : g.checkpoints[key]? with
  | none =>
    rw [hlive] at hupdate
    cases hupdate
  | some i =>
    rw [hlive] at hupdate hkept
    obtain rfl := Except.ok.inj hupdate
    refine ⟨h.history, h.getElem?_erase key, fun j => ?_⟩
    show (g.trained.insert i (counterRange.step (g.counter i) taken)).getD j weaklyNotTaken =
      counted (if kept bits key past = some j.toNat then outcomes bits j.toNat past ++ [taken]
        else outcomes bits j.toNat past)
    rw [← hkept, Option.map_some, Std.ExtTreeMap.getD_insert]
    by_cases hsame : i = j
    · subst hsame
      rw [if_pos (Std.LawfulEqCmp.compare_eq_iff_eq.2 rfl), if_pos rfl, counted_concat, h.counters]
    · have hplaces : some i.toNat ≠ some j.toNat :=
        fun heq => hsame (BitVec.eq_of_toNat_eq (Option.some.inj heq))
      rw [if_neg (mt Std.LawfulEqCmp.compare_eq_iff_eq.1 hsame), if_neg hplaces]
      exact h.counters j

theorem Follows.killCheckpoint (h : g.Follows past) (hkill : g.killCheckpoint key = .ok g') :
    g'.Follows (.killCheckpoint key :: past) := by
  unfold Gshare.killCheckpoint at hkill
  split_ifs at hkill
  obtain rfl := Except.ok.inj hkill
  exact ⟨h.history, h.getElem?_erase key, h.counters⟩

/-- Any call but a setup. -/
theorem Follows.step (h : g.Follows past) (happly : Baseline.apply g call = .ok g')
    (hsetup : call ≠ .setup) : g'.Follows (call :: past) := by
  cases call with
  | setup => exact absurd rfl hsetup
  | predict key pc vote =>
    obtain rfl := Except.ok.inj happly
    exact h.predict key pc vote
  | updateHistory key pc typeCode predicted taken nextPc =>
    obtain rfl := Except.ok.inj happly
    exact h.shift key pc typeCode predicted taken nextPc
  | update key pc taken predicted nextPc => exact h.update happly pc predicted nextPc
  | killCheckpoint key => exact h.killCheckpoint happly
  | trackOther | decodeNotify | executeNotify | terminate =>
    obtain rfl := Except.ok.inj happly
    exact ⟨h.history, h.checkpoints, h.counters⟩

/-- After any calls that are answered, a predictor follows those since the last setup. -/
theorem follows_of_calls (run : Baseline.applyAll (fresh bits) calls = .ok g) :
    g.Follows (sinceSetup calls) := by
  induction calls using List.reverseRecOn generalizing g with
  | nil =>
    obtain rfl := Except.ok.inj run
    exact follows_fresh bits
  | append_singleton calls call ih =>
    unfold Baseline.applyAll at run
    rw [List.foldlM_append] at run
    obtain ⟨before, hbefore, hlast⟩ := bind_eq_ok_iff.1 run
    rw [List.foldlM_cons] at hlast
    obtain ⟨after, happly, hafter⟩ := bind_eq_ok_iff.1 hlast
    obtain rfl := Except.ok.inj hafter
    by_cases hsetup : call = .setup
    · subst hsetup
      rw [sinceSetup_concat_setup]
      obtain rfl := Except.ok.inj happly
      exact follows_fresh bits
    · rw [sinceSetup_concat hsetup]
      exact (ih hbefore).step happly hsetup

/-- After any calls that are answered, in which the branches interleave at will, count the calls
since the last setup. The history is the number that the last `bits` directions make, with the
latest in the lowest bit. The checkpoint of a branch is the place that its address had when it was
predicted last, by the history of that time, and there is one as long as the branch has not been
consumed. All places, the ones that are kept and the ones that addresses have now, are in a table of
`2 ^ bits` counters. A counter has taken one step from one, up or down and between zero and three,
for the direction of each branch that was trained on and had kept its place, in the order of the
training. -/
theorem counters_of_calls (run : Baseline.applyAll (fresh bits) calls = .ok g) :
    g.history.toNat = register bits (sinceSetup calls) ∧
      (∀ key i, g.checkpoints[key]? = some i ↔
        ∃ before pc vote after, calls = before ++ .predict key pc vote :: after ∧
          (∀ call ∈ after, call ≠ .setup ∧ call.checkpoint? ≠ some key) ∧
          ((pc.toNat >>> 2) ^^^ register bits (sinceSetup before)) % 2 ^ bits = i.toNat) ∧
      (∀ (key : BranchKey) (i : BitVec bits), g.checkpoints[key]? = some i → i.toNat < 2 ^ bits) ∧
      (∀ pc, (g.index pc).toNat =
          ((pc.toNat >>> 2) ^^^ register bits (sinceSetup calls)) % 2 ^ bits ∧
        (g.index pc).toNat < 2 ^ bits) ∧
      (∀ i, g.counter i = counted (outcomes bits i.toNat (sinceSetup calls)) ∧
        0 ≤ g.counter i ∧ g.counter i ≤ 3) := by
  have hfollows := follows_of_calls run
  refine ⟨hfollows.history, fun key i => ?_, fun _ i _ => i.isLt,
    fun pc => ⟨hfollows.toNat_index pc, (g.index pc).isLt⟩, fun i => ?_⟩
  · refine Iff.trans ?_ kept_eq_some_iff
    rw [← hfollows.checkpoints key, Option.map_eq_some_iff]
    constructor
    · exact fun hlive => ⟨i, hlive, rfl⟩
    · rintro ⟨kept, hlive, hsame⟩
      rwa [← BitVec.eq_of_toNat_eq hsame]
  · rw [hfollows.counters i]
    exact ⟨rfl, counted_bounds _⟩

/-- After a setup, two branches with predictions that overlap. The later one is trained on before
the earlier one, and by then a third one has read the counter of the later one. -/
theorem counters_of_calls_overlapping :
    let calls : List BaselineCall :=
      [.predict ⟨1, 0⟩ 0x4 false, .updateHistory ⟨1, 0⟩ 0x4 0 false true 0x40, .setup,
        .predict ⟨2, 0⟩ 0x4 false, .updateHistory ⟨2, 0⟩ 0x4 0 false true 0x40,
        .predict ⟨3, 0⟩ 0x8 false, .updateHistory ⟨3, 0⟩ 0x8 0 false false 0xc,
        .predict ⟨4, 0⟩ 0x4 false, .update ⟨3, 0⟩ 0x8 false false 0xc,
        .update ⟨2, 0⟩ 0x4 true false 0x40]
    ∃ g, Baseline.applyAll (fresh 2) calls = .ok g ∧ g.history.toNat = 0b10 ∧
      g.checkpoints[(⟨4, 0⟩ : BranchKey)]? = some 3 ∧
      g.counter 0 = 1 ∧ g.counter 1 = 2 ∧ g.counter 2 = 1 ∧ g.counter 3 = 0 := by
  intro calls
  have hanswers : (Baseline.applyAll (fresh 2) calls).isOk = true := by decide +kernel
  obtain ⟨g, hrun⟩ := exists_eq_ok_of_isOk hanswers
  obtain ⟨hhistory, hlive, -, -, hcounters⟩ := counters_of_calls hrun
  refine ⟨g, hrun, hhistory.trans (by decide +kernel), ?_, ?_⟩
  · refine (hlive _ _).2 ⟨calls.take 7, 0x4, false, calls.drop 8, rfl, ?_, ?_⟩
    · decide
    · decide +kernel
  · simp only [hcounters]
    decide +kernel

end Follows

end Gshare

end BranchSelector
