import BranchSelector.Proofs.Threshold.Step
import Mathlib.Algebra.Group.Int.Defs

/-!
# What the threshold conserves

A threshold that takes in one vote after the other (`Threshold.updateAll`) meets each of them in
some state (`Threshold.meetings`). Five counts over these meetings determine where it ends: the
wrong votes and the weak ones, the raises and the lowerings of theta, and the times that the counter
was drained.

`Threshold.Balances` says how. It holds of one vote, move by move (`Meeting.balances`), and adds up
over votes in a row (`Balances.append`). The counter itself stays between its ends and theta does
not go below zero (`Sane`). Both together are `conservation_of_votes`.
-/

namespace BranchSelector

/-- A vote that was taken, and whether it was correct. -/
structure Vote where
  correct : Bool
  sum : Int
  deriving DecidableEq, Repr

namespace Threshold

/-- The threshold after some votes. -/
def updateAll (t : Threshold) (votes : List Vote) : Threshold :=
  votes.foldl (fun t v => (t.update v.correct v.sum).1) t

/-- A vote and the threshold that it meets. -/
structure Meeting where
  met : Threshold
  vote : Vote
  deriving DecidableEq, Repr

/-- The votes of a list, each with the threshold that it meets. -/
def meetings (t : Threshold) : List Vote → List Meeting
  | [] => []
  | v :: votes => ⟨t, v⟩ :: meetings (t.update v.correct v.sum).1 votes

/-- The thresholds on the way through some votes, with the first and the last one. -/
def passed (t : Threshold) (votes : List Vote) : List Threshold :=
  (t.meetings votes).map Meeting.met ++ [t.updateAll votes]

namespace Meeting

/-- The threshold that the vote leaves behind. -/
def after (m : Meeting) : Threshold :=
  (m.met.update m.vote.correct m.vote.sum).1

/-- How theta moved. -/
def change (m : Meeting) : Option ThetaChange :=
  (m.met.update m.vote.correct m.vote.sum).2

def wrong (m : Meeting) : Bool :=
  !m.vote.correct

/-- A correct vote that is no stronger than the theta that it meets. -/
def weak (m : Meeting) : Bool :=
  m.vote.correct && decide ((m.vote.sum.natAbs : Int) ≤ m.met.theta)

def raises (m : Meeting) : Bool :=
  m.change == some .raised

def lowers (m : Meeting) : Bool :=
  m.change == some .lowered

/-- A weak vote that takes the last step of the counter down to zero. -/
def drains (m : Meeting) : Bool :=
  m.weak && m.met.counter == 1

end Meeting

/-! ## States that are passed -/

/-- A training counter between its ends, and a theta that is not negative. -/
structure Sane (t : Threshold) : Prop where
  bits : 2 ≤ t.bits
  counter : t.InRange
  theta : 0 ≤ t.theta

theorem sane_start {theta : Int} {bits : Nat} (htheta : 0 ≤ theta) (hbits : 2 ≤ bits) :
    (start theta bits).Sane :=
  ⟨hbits, inRange_midpoint hbits, htheta⟩

theorem Sane.update {t : Threshold} (h : t.Sane) (correct : Bool) (sum : Int) :
    (t.update correct sum).1.Sane where
  bits := (t.bits_update correct sum).symm ▸ h.bits
  counter := h.counter.update h.bits correct sum
  theta := theta_update_nonneg h.theta correct sum

theorem Sane.of_passed {t : Threshold} (h : t.Sane) {votes : List Vote} :
    ∀ u ∈ t.passed votes, u.Sane ∧ u.bits = t.bits := by
  induction votes generalizing t with
  | nil =>
    intro u hu
    rw [List.mem_singleton.1 hu]
    exact ⟨h, rfl⟩
  | cons v votes ih =>
    intro u hu
    rcases List.mem_cons.1 hu with hfirst | hlater
    · rw [hfirst]
      exact ⟨h, rfl⟩
    · have hu := ih (h.update v.correct v.sum) u hlater
      exact ⟨hu.1, hu.2.trans (t.bits_update v.correct v.sum)⟩

/-! ## Counts -/

/-- From one threshold to another by way of some meetings, what is counted on the way balances. -/
structure Balances (t : Threshold) (ms : List Meeting) (t' : Threshold) : Prop where
  bits : t'.bits = t.bits
  theta : t'.theta = t.theta + ms.countP Meeting.raises - ms.countP Meeting.lowers
  counter : (ms.countP Meeting.wrong : Int) - ms.countP Meeting.weak =
    t'.counter - t.counter + ms.countP Meeting.raises * ((midpoint t.bits : Int) + 1) -
      ms.countP Meeting.drains * midpoint t.bits
  lowers : ms.countP Meeting.lowers ≤ ms.countP Meeting.drains

theorem balances_nil (t : Threshold) : t.Balances [] t := by
  constructor <;> simp

theorem Balances.append {t t' t'' : Threshold} {ms ms' : List Meeting} (h : t.Balances ms t')
    (h' : t'.Balances ms' t'') : t.Balances (ms ++ ms') t'' := by
  constructor
  · exact h'.bits.trans h.bits
  · rw [List.countP_append, List.countP_append, h'.theta, h.theta]
    omega
  · have hfirst := h.counter
    have hlater := h'.counter
    rw [h.bits] at hlater
    simp only [List.countP_append, Int.natCast_add, Int.add_mul]
    omega
  · have hfirst := h.lowers
    have hlater := h'.lowers
    rw [List.countP_append, List.countP_append]
    omega

/-- Below the greatest theta, the magnitude of a vote is as good as its absolute value. -/
theorem magnitude_le_iff {theta sum : Int} (h : theta < wordMax) :
    magnitude sum ≤ theta ↔ (sum.natAbs : Int) ≤ theta := by
  unfold magnitude
  omega

/-- What is to be shown of one vote, given what it counts as. -/
theorem Meeting.balances_of {m : Meeting} {t' : Threshold} {wrong weak raises lowers drains : Bool}
    (hwrong : m.wrong = wrong) (hweak : m.weak = weak) (hraises : m.raises = raises)
    (hlowers : m.lowers = lowers) (hdrains : m.drains = drains) (bits : t'.bits = m.met.bits)
    (theta : t'.theta = m.met.theta + raises.toNat - lowers.toNat)
    (counter : (wrong.toNat : Int) - weak.toNat =
      t'.counter - m.met.counter + raises.toNat * ((midpoint m.met.bits : Int) + 1) -
        drains.toNat * midpoint m.met.bits)
    (le : lowers.toNat ≤ drains.toNat) : m.met.Balances [m] t' := by
  have hone : ∀ p : Meeting → Bool, [m].countP p = (p m).toNat := by
    intro p
    rw [List.countP_singleton]
    cases p m <;> rfl
  subst hwrong hweak hraises hlowers hdrains
  constructor
  · exact bits
  · rw [hone, hone]
    exact theta
  · rw [hone, hone, hone, hone]
    exact counter
  · rw [hone, hone]
    exact le

/-- One vote balances, whichever move it is. -/
theorem Meeting.balances {m : Meeting} (sane : m.met.Sane) (below : m.met.theta < wordMax) :
    m.met.Balances [m] m.after := by
  obtain ⟨t, correct, sum⟩ := m
  have hcounter : 1 ≤ t.counter := sane.counter.1
  have hfull : t.counter < limit t.bits := sane.counter.2
  have hlimit : limit t.bits = 2 * midpoint t.bits + 1 := limit_eq (Nat.le_of_succ_le sane.bits)
  have hmax : t.theta + 1 ≤ wordMax := below
  have hcounts : (⟨t, correct, sum⟩ : Meeting).weak =
      (correct && decide (magnitude sum ≤ t.theta)) :=
    congrArg (correct && ·) (decide_eq_decide.2 (magnitude_le_iff below).symm)
  have hdrains : (⟨t, correct, sum⟩ : Meeting).drains =
      (correct && decide (magnitude sum ≤ t.theta) && t.counter == 1) :=
    congrArg (· && t.counter == 1) hcounts
  have hmove := t.move_update correct sum
  have hraises : (⟨t, correct, sum⟩ : Meeting).raises =
      ((t.update correct sum).2 == some .raised) := rfl
  have hlowers : (⟨t, correct, sum⟩ : Meeting).lowers =
      ((t.update correct sum).2 == some .lowered) := rfl
  show t.Balances _ (t.update correct sum).1
  generalize t.update correct sum = r at hmove hraises hlowers ⊢
  cases hmove with
  | up room =>
    refine Meeting.balances_of rfl hcounts hraises hlowers hdrains rfl ?_ ?_ (Nat.le_refl 0)
    · show t.theta = t.theta + 0 - 0
      omega
    · show (1 : Int) - 0 = (t.counter + 1 : Nat) - t.counter + 0 * _ - 0 * _
      omega
  | raise full =>
    refine Meeting.balances_of rfl hcounts hraises hlowers hdrains rfl ?_ ?_ (Nat.le_refl 0)
    · show min (t.theta + 1) wordMax = t.theta + 1 - 0
      omega
    · show (1 : Int) - 0 = midpoint t.bits - t.counter + 1 * ((midpoint t.bits : Int) + 1) - 0 * _
      omega
  | down weak room =>
    have hroom : (t.counter == 1) = false := beq_false_of_ne (by omega)
    rw [decide_eq_true weak] at hcounts hdrains
    rw [hroom] at hdrains
    refine Meeting.balances_of rfl hcounts hraises hlowers hdrains rfl ?_ ?_ (Nat.le_refl 0)
    · show t.theta = t.theta + 0 - 0
      omega
    · show (0 : Int) - 1 = (t.counter - 1 : Nat) - t.counter + 0 * _ - 0 * _
      omega
  | lower weak drained above =>
    have hdrained : (t.counter == 1) = true := beq_iff_eq.2 (by omega)
    rw [decide_eq_true weak] at hcounts hdrains
    rw [hdrained] at hdrains
    refine Meeting.balances_of rfl hcounts hraises hlowers hdrains rfl ?_ ?_ (Nat.le_refl 1)
    · show t.theta - 1 = t.theta + 0 - 1
      omega
    · show (0 : Int) - 1 = midpoint t.bits - t.counter + 0 * _ - 1 * (midpoint t.bits : Int)
      omega
  | rest weak drained floor =>
    have hdrained : (t.counter == 1) = true := beq_iff_eq.2 (by omega)
    rw [decide_eq_true weak] at hcounts hdrains
    rw [hdrained] at hdrains
    refine Meeting.balances_of rfl hcounts hraises hlowers hdrains rfl ?_ ?_ (Nat.zero_le 1)
    · show t.theta = t.theta + 0 - 0
      omega
    · show (0 : Int) - 1 = midpoint t.bits - t.counter + 0 * _ - 1 * (midpoint t.bits : Int)
      omega
  | strong strong =>
    rw [decide_eq_false (Int.not_le.2 strong)] at hcounts hdrains
    refine Meeting.balances_of rfl hcounts hraises hlowers hdrains rfl ?_ ?_ (Nat.le_refl 0)
    · show t.theta = t.theta + 0 - 0
      omega
    · show (0 : Int) - 0 = t.counter - t.counter + 0 * _ - 0 * _
      omega

/-- Votes in a row balance if every one meets a theta below the greatest. -/
theorem Sane.balances {t : Threshold} (sane : t.Sane) (votes : List Vote)
    (below : ∀ m ∈ t.meetings votes, m.met.theta < wordMax) :
    t.Balances (t.meetings votes) (t.updateAll votes) := by
  induction votes generalizing t with
  | nil => exact balances_nil t
  | cons v votes ih =>
    have hone : t.Balances [⟨t, v⟩] (t.update v.correct v.sum).1 :=
      Meeting.balances sane (below ⟨t, v⟩ List.mem_cons_self)
    have hrest := ih (sane.update v.correct v.sum) fun m hm =>
      below m (List.mem_cons_of_mem _ hm)
    exact hone.append hrest

/-- The conservation law of the threshold. On the way through any votes during which theta stays
below the greatest of its word, the training counter keeps between its ends and theta does not go
below zero. Theta has moved by the raises less the lowerings, and it is lowered at most as often as
the counter is drained. The wrong votes less the weak ones are what the counter has moved by, with
a half range for every raise and one less against every time that it was drained. -/
theorem conservation_of_votes {theta : Int} {bits : Nat} (htheta : 0 ≤ theta) (hbits : 2 ≤ bits)
    (votes : List Vote) (below : ∀ t ∈ (start theta bits).passed votes, t.theta < wordMax) :
    let ms := (start theta bits).meetings votes
    let last := (start theta bits).updateAll votes
    (∀ t ∈ (start theta bits).passed votes,
      1 ≤ t.counter ∧ t.counter ≤ 2 ^ bits - 2 ∧ 0 ≤ t.theta) ∧
    ms.countP Meeting.lowers ≤ ms.countP Meeting.drains ∧
    last.theta = theta + ms.countP Meeting.raises - ms.countP Meeting.lowers ∧
    (ms.countP Meeting.wrong : Int) - ms.countP Meeting.weak =
      (last.counter - midpoint bits) + ms.countP Meeting.raises * 2 ^ (bits - 1) -
        ms.countP Meeting.drains * (2 ^ (bits - 1) - 1) := by
  intro ms last
  have sane := sane_start htheta hbits
  have hmet : ∀ m ∈ ms, m.met.theta < wordMax := fun m hm =>
    below m.met (List.mem_append_left _ (List.mem_map_of_mem hm))
  have hbalance := sane.balances votes hmet
  have hhalf : (midpoint bits : Int) + 1 = 2 ^ (bits - 1) := by
    exact_mod_cast midpoint_add_one bits
  refine ⟨fun t ht => ?_, hbalance.lowers, hbalance.theta, ?_⟩
  · obtain ⟨hsane, (hwidth : t.bits = bits)⟩ := sane.of_passed t ht
    have hlimit : t.counter < limit bits := hwidth ▸ hsane.counter.2
    rw [limit, Nat.one_shiftLeft] at hlimit
    exact ⟨hsane.counter.1, by omega, hsane.theta⟩
  · rw [← hhalf, Int.add_sub_cancel]
    exact hbalance.counter

/-- With the narrowest counter: two wrong votes raise theta, three weak ones lower it to zero and
drain the counter once more, and a strong one does nothing. -/
def mixedVotes : List Vote :=
  [⟨false, 7⟩, ⟨false, -7⟩, ⟨true, 2⟩, ⟨true, -1⟩, ⟨true, 0⟩, ⟨true, 5⟩]

theorem conservation_of_votes_mixed :
    (0 : Int) ≤ 1 ∧ 2 ≤ 2 ∧ (∀ t ∈ (start 1 2).passed mixedVotes, t.theta < wordMax) ∧
      (start 1 2).updateAll mixedVotes = ⟨1, 2, 0, 1⟩ ∧
      (0 : Int) = 1 + (1 : Nat) - (2 : Nat) ∧
      ((2 : Nat) : Int) - (3 : Nat) = (1 - 1) + (1 : Nat) * 2 ^ 1 - (3 : Nat) * (2 ^ 1 - 1) := by
  have below : ∀ t ∈ (start 1 2).passed mixedVotes, t.theta < wordMax := by decide
  obtain ⟨-, -, htheta, hcounter⟩ := conservation_of_votes (by decide) (by decide) mixedVotes below
  exact ⟨by decide, by decide, below, rfl, htheta, hcounter⟩

end Threshold

end BranchSelector
