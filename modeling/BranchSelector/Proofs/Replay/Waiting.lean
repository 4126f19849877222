import BranchSelector.Proofs.Replay.Run

/-!
# Counting the branches that wait

The provider of a waiting branch was chosen when the branch was predicted and is kept until it
resolves. `Replay.waiting` counts the waiting branches of one provider that satisfy some test.
Launching a branch adds it to the count of its provider (`Queued.waiting_launched`), retiring
one takes it away (`Queued.waiting_retired`), and nothing else changes a count.
-/

namespace BranchSelector

open Branch

namespace Replay

variable {β : Type}

/-- The provider that the prediction of a waiting branch followed. -/
def served (r : Replay β) (p : Pending) : Option Provider :=
  r.selector.inFlight[p.branch.ident]?

/-- How many waiting branches follow a provider and satisfy a test. -/
def waiting (r : Replay β) (provider : Provider) (test : Branch → Bool) : Nat :=
  r.pending.countP fun p => decide (r.served p = some provider) && test p.branch

theorem waiting_le_length (r : Replay β) (provider : Provider) (test : Branch → Bool) :
    r.waiting provider test ≤ r.pending.length :=
  List.countP_le_length

variable [Baseline β] {C : Baseline.Contract β} {done : List Branch} {r : Replay β}
  {branch : Branch} {p : Pending} {ps : List Pending} {provider : Provider} {tags : List UInt64}
  {baseline : β}

/-- The branches that wait already keep their providers. -/
theorem Queued.served_launched (h : r.Queued C done) (ordered : Ordered (done ++ [branch]))
    {q : Pending} (hq : q ∈ r.pending) : (r.launched branch).served q = r.served q := by
  have hne : branch.ident ≠ q.branch.ident := by
    intro heq
    exact h.idle ordered ((h.live _).2 ⟨q, hq, heq.symm⟩)
  show (r.selector.inFlight.insert branch.ident _)[q.branch.ident]? = _
  rw [getElem?_insert_of_ne hne]
  rfl

/-- A branch that is launched waits for the provider that its prediction follows. -/
theorem served_launched_self (r : Replay β) (branch : Branch) (direction : Bool) :
    (r.launched branch).served ⟨branch, direction⟩ = some (r.selector.provider branch.pc) :=
  Std.ExtTreeMap.getElem?_insert_self

theorem Queued.waiting_launched (h : r.Queued C done) (ordered : Ordered (done ++ [branch]))
    (provider : Provider) (test : Branch → Bool) :
    (r.launched branch).waiting provider test = r.waiting provider test +
      if r.selector.provider branch.pc = provider ∧ test branch = true then 1 else 0 := by
  have hold : r.pending.countP
        (fun p => decide ((r.launched branch).served p = some provider) && test p.branch) =
      r.waiting provider test :=
    List.countP_congr fun q hq => by rw [h.served_launched ordered hq]
  show (r.pending ++ [_]).countP _ = _
  rw [List.countP_append, hold, List.countP_singleton, served_launched_self]
  simp

/-- The branches that wait behind the oldest keep their providers. -/
theorem Queued.served_retired (h : r.Queued C done) (ordered : Ordered done)
    (hretires : r.Retires p ps provider tags baseline) {q : Pending} (hq : q ∈ ps) :
    (r.retired p ps provider tags baseline).served q = r.served q := by
  show (r.selector.inFlight.erase p.branch.ident)[q.branch.ident]? = _
  rw [getElem?_erase_of_ne (h.ident_ne ordered hretires.pending hq)]
  rfl

theorem Queued.waiting_retired (h : r.Queued C done) (ordered : Ordered done)
    (hretires : r.Retires p ps provider tags baseline) (other : Provider)
    (test : Branch → Bool) :
    r.waiting other test = (r.retired p ps provider tags baseline).waiting other test +
      if provider = other ∧ test p.branch = true then 1 else 0 := by
  have hrest : ps.countP (fun q => decide (r.served q = some other) && test q.branch) =
      (r.retired p ps provider tags baseline).waiting other test :=
    List.countP_congr fun q hq => by rw [h.served_retired ordered hretires hq]
  have hprovider : r.served p = some provider := hretires.provider
  rw [Replay.waiting, hretires.pending, List.countP_cons, hrest, hprovider]
  simp

end Replay

end BranchSelector
