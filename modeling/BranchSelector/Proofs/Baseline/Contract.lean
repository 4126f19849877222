import BranchSelector.Baseline.Gshare
import BranchSelector.Proofs.Answer
import Mathlib.Data.Set.Insert

/-!
# The contract of a baseline predictor

A baseline answers its consuming calls, `update` and `killCheckpoint`, with a state or with
a violation. What a caller may rely on depends on the predictor: gshare never refuses to
consume a branch that it has predicted, while of an arbitrary predictor nothing is known.

`Baseline.Contract` covers both. It names the states that serve a set of branches in flight
and the violations that a consuming call on one of them may end in. Results about the
selector are proved once for any contract and are then read off for gshare
(`Gshare.contract`, which refuses nothing) and for predictors of which nothing is known
(`Baseline.anyContract`).
-/

namespace BranchSelector

/-- What a caller may rely on. `serves b live` says of a state that the branches in `live`
are in flight in it. -/
structure Baseline.Contract (β : Type) [Baseline β] where
  /-- The states in which some branches are in flight. -/
  serves : β → Set BranchKey → Prop
  /-- The violations that consuming a branch in flight may end in. -/
  refuses : Violation → Prop
  setup : ∀ {b live}, serves b live → serves (Baseline.setup b) ∅
  predict : ∀ {b live} key pc, serves b live →
    serves (Baseline.predict b key pc).2 (insert key live)
  updateHistory : ∀ {b live} key pc code predicted taken nextPc, serves b live →
    serves (Baseline.updateHistory b key pc code predicted taken nextPc) live
  trackOther : ∀ {b live} pc code predicted taken nextPc, serves b live →
    serves (Baseline.trackOther b pc code predicted taken nextPc) live
  decodeNotify : ∀ {b live} key register, serves b live →
    serves (Baseline.decodeNotify b key register) live
  executeNotify : ∀ {b live} key register value, serves b live →
    serves (Baseline.executeNotify b key register value) live
  update : ∀ {b live} key pc taken predicted nextPc, serves b live → key ∈ live →
    Ends (Baseline.update b key pc taken predicted nextPc) (serves · (live \ {key})) refuses
  killCheckpoint : ∀ {b live} key, serves b live → key ∈ live →
    Ends (Baseline.killCheckpoint b key) (serves · (live \ {key})) refuses

/-- The violations that some consuming call of a predictor ends in. -/
def Baseline.Refuses (β : Type) [Baseline β] (violation : Violation) : Prop :=
  (∃ (b : β) (key : BranchKey) (pc : UInt64) (taken predicted : Bool) (nextPc : UInt64),
    Baseline.update b key pc taken predicted nextPc = .error violation) ∨
  ∃ (b : β) (key : BranchKey), Baseline.killCheckpoint b key = .error violation

/-- What holds of every predictor: a consuming call may be refused, and nothing else may
fail. -/
def Baseline.anyContract (β : Type) [Baseline β] : Baseline.Contract β where
  serves _ _ := True
  refuses := Baseline.Refuses β
  setup _ := trivial
  predict _ _ _ := trivial
  updateHistory _ _ _ _ _ _ _ := trivial
  trackOther _ _ _ _ _ _ := trivial
  decodeNotify _ _ _ := trivial
  executeNotify _ _ _ _ := trivial
  update {b _} key pc taken predicted nextPc _ _ := by
    cases h : Baseline.update b key pc taken predicted nextPc with
    | ok after => exact trivial
    | error violation => exact .inl ⟨b, key, pc, taken, predicted, nextPc, h⟩
  killCheckpoint {b _} key _ _ := by
    cases h : Baseline.killCheckpoint b key with
    | ok after => exact trivial
    | error violation => exact .inr ⟨b, key, h⟩

namespace Gshare

variable {bits : Nat}

/-- Gshare serves exactly the branches that it has checkpoints of. -/
def Serves (g : Gshare bits) (live : Set BranchKey) : Prop :=
  ∀ key, key ∈ g.checkpoints ↔ key ∈ live

theorem serves_fresh : Serves (fresh bits) ∅ := fun _ =>
  ⟨fun h => absurd h Std.ExtTreeMap.not_mem_empty, fun h => absurd h (Set.notMem_empty _)⟩

theorem Serves.predict {g : Gshare bits} {live : Set BranchKey} (h : g.Serves live)
    (key : BranchKey) (pc : UInt64) : Serves (g.predict key pc).2 (insert key live) := by
  intro other
  show other ∈ g.checkpoints.insert key (g.index pc) ↔ _
  rw [Std.ExtTreeMap.mem_insert, Std.LawfulEqCmp.compare_eq_iff_eq, h other, Set.mem_insert_iff,
    eq_comm]

/-- Erasing the checkpoint of a branch takes it out of flight. -/
theorem Serves.erase {g : Gshare bits} {live : Set BranchKey} (h : g.Serves live)
    (key : BranchKey) (trained : Std.ExtTreeMap (BitVec bits) Int) :
    Serves { g with trained, checkpoints := g.checkpoints.erase key } (live \ {key}) := by
  intro other
  show other ∈ g.checkpoints.erase key ↔ _
  rw [Std.ExtTreeMap.mem_erase, ne_eq, Std.LawfulEqCmp.compare_eq_iff_eq, h other, Set.mem_sdiff,
    Set.mem_singleton_iff, and_comm, eq_comm (a := key)]

/-- Gshare never refuses to consume a branch that it has predicted. -/
def contract (bits : Nat) : Baseline.Contract (Gshare bits) where
  serves := Serves
  refuses _ := False
  setup _ := serves_fresh
  predict key pc h := h.predict key pc
  updateHistory _ _ _ _ _ _ h := h
  trackOther _ _ _ _ _ h := h
  decodeNotify _ _ h := h
  executeNotify _ _ _ h := h
  update {g _} key _ taken _ _ h live := by
    obtain ⟨i, hi⟩ := Option.isSome_iff_exists.1
      (Std.ExtTreeMap.mem_iff_isSome_getElem?.1 ((h key).2 live))
    have hupdate : Gshare.update g key taken = .ok { g with
        trained := g.trained.insert i (counterRange.step (g.counter i) taken)
        checkpoints := g.checkpoints.erase key } := by
      rw [Gshare.update, hi]
    exact .of_eq_ok hupdate (h.erase key _)
  killCheckpoint {g _} key h live :=
    .of_eq_ok (if_pos ((h key).2 live)) (h.erase key g.trained)

end Gshare

end BranchSelector
