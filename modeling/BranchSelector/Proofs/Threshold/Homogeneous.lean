import BranchSelector.Proofs.Threshold.Conservation
import Mathlib.Data.List.Induction

/-!
# Streams of votes of one kind

On a stream of votes of one kind the threshold has a closed form in the number of votes. Wrong votes
come in rounds of half the range of the counter, and each whole round raises theta (`Climbed`).
Correct votes of one magnitude come in rounds that are one vote shorter, and each whole round lowers
theta, until the votes have become strong or theta is zero (`Sunk`). What is left over of a round
stands in the counter, so both are kept vote by vote (`Climbed.update`, `Sunk.update`).
-/

namespace BranchSelector

namespace Threshold

/-- One more vote ends a round, or goes one step further into it. -/
theorem round_succ {period : Nat} (h : 0 < period) (n : Nat) :
    (n % period + 1 = period ∧ (n + 1) / period = n / period + 1 ∧ (n + 1) % period = 0) ∨
      (n % period + 1 < period ∧ (n + 1) / period = n / period ∧
        (n + 1) % period = n % period + 1) := by
  have hsum := Nat.mod_add_div n period
  rcases Nat.lt_or_eq_of_le (Nat.succ_le_of_lt (Nat.mod_lt n h)) with hinside | hend
  · right
    have hsplit := (Nat.div_mod_unique (d := n / period) (a := n + 1) (c := n % period + 1) h).2
      ⟨by omega, hinside⟩
    exact ⟨hinside, hsplit⟩
  · left
    have hsplit := (Nat.div_mod_unique (a := n + 1) (d := n / period + 1) (c := 0) h).2
      ⟨by rw [Nat.mul_add_one]; omega, h⟩
    exact ⟨hend, hsplit⟩

theorem updateAll_concat (t : Threshold) (votes : List Vote) (v : Vote) :
    t.updateAll (votes ++ [v]) = ((t.updateAll votes).update v.correct v.sum).1 :=
  List.foldl_append

/-! ## Wrong votes -/

/-- The threshold after some number of wrong votes. -/
structure Climbed (theta : Int) (bits n : Nat) (t : Threshold) : Prop where
  width : t.bits = bits
  theta : t.theta = min (theta + (n / (midpoint bits + 1) : Nat)) wordMax
  counter : t.counter = midpoint bits + n % (midpoint bits + 1)

theorem Climbed.update {theta : Int} {bits n : Nat} {t : Threshold} (hbits : 1 ≤ bits)
    (h : Climbed theta bits n t) (sum : Int) :
    Climbed theta bits (n + 1) (t.update false sum).1 := by
  have hlimit := limit_eq hbits
  have hperiod : 0 < midpoint bits + 1 := Nat.succ_pos _
  have hround := round_succ hperiod n
  have hmove := t.move_update false sum
  generalize t.update false sum = after at hmove ⊢
  obtain ⟨hwidth, htheta, hcounter⟩ := h
  subst hwidth
  cases hmove with
  | up room =>
    rcases hround with ⟨hend, -, -⟩ | ⟨-, hdiv, hmod⟩
    · omega
    · exact ⟨rfl, hdiv ▸ htheta, by rw [hmod, ← Nat.add_assoc, ← hcounter]⟩
  | raise full =>
    rcases hround with ⟨-, hdiv, hmod⟩ | ⟨hinside, -, -⟩
    · refine ⟨rfl, ?_, by rw [hmod]; rfl⟩
      show min (t.theta + 1) wordMax = _
      rw [hdiv]
      omega
    · omega

theorem climbed_updateAll {theta : Int} {bits : Nat} (htheta : theta ≤ wordMax) (hbits : 1 ≤ bits)
    (sums : List Int) :
    Climbed theta bits sums.length
      ((start theta bits).updateAll (sums.map fun sum => ⟨false, sum⟩)) := by
  induction sums using List.reverseRecOn with
  | nil =>
    refine ⟨rfl, ?_, ?_⟩
    · rw [List.length_nil, Nat.zero_div, Int.natCast_zero, Int.add_zero]
      exact (Int.min_eq_left htheta).symm
    · rw [List.length_nil, Nat.zero_mod]
      rfl
  | append_singleton sums sum ih =>
    rw [List.map_append, List.length_append]
    exact updateAll_concat .. ▸ ih.update hbits sum

/-! ## Correct votes of one magnitude -/

/-- The threshold after some number of correct votes, if the first one is weak. -/
structure Sunk (theta : Int) (bits : Nat) (m : Int) (n : Nat) (t : Threshold) : Prop where
  width : t.bits = bits
  theta : t.theta = max (max (m - 1) 0) (theta - (n / midpoint bits : Nat))
  /-- Once the votes are strong the counter stands still. -/
  counter : m ≤ t.theta → t.counter = midpoint bits - n % midpoint bits

theorem Sunk.update {theta m : Int} {bits n : Nat} {t : Threshold} (hbits : 2 ≤ bits)
    (h : Sunk theta bits m n t) {sum : Int} (hsum : magnitude sum = m) :
    Sunk theta bits m (n + 1) (t.update true sum).1 := by
  have hperiod := one_le_midpoint hbits
  have hround := round_succ hperiod n
  have hnonneg := magnitude_nonneg sum
  have hmove := t.move_update true sum
  generalize t.update true sum = after at hmove ⊢
  obtain ⟨hwidth, htheta, hcounter⟩ := h
  subst hwidth
  cases hmove with
  | down weak room =>
    rw [hsum] at weak
    have hcounter := hcounter weak
    rcases hround with ⟨hend, -, -⟩ | ⟨-, hdiv, hmod⟩
    · omega
    · exact ⟨rfl, hdiv ▸ htheta, fun _ => by show t.counter - 1 = _; omega⟩
  | lower weak drained above =>
    rw [hsum] at weak
    have hcounter := hcounter weak
    rcases hround with ⟨-, hdiv, hmod⟩ | ⟨hinside, -, -⟩
    · refine ⟨rfl, ?_, fun _ => by rw [hmod]; rfl⟩
      show t.theta - 1 = _
      rw [hdiv]
      omega
    · omega
  | rest weak drained floor =>
    rw [hsum] at weak
    have hcounter := hcounter weak
    rcases hround with ⟨-, hdiv, hmod⟩ | ⟨hinside, -, -⟩
    · refine ⟨rfl, ?_, fun _ => by rw [hmod]; rfl⟩
      show t.theta = _
      rw [hdiv]
      omega
    · omega
  | strong strong =>
    rw [hsum] at strong
    refine ⟨rfl, ?_, fun weak => absurd strong (Int.not_lt.2 weak)⟩
    rcases hround with ⟨-, hdiv, -⟩ | ⟨-, hdiv, -⟩
    · show t.theta = _
      rw [hdiv]
      omega
    · exact hdiv ▸ htheta

theorem sunk_updateAll {theta m : Int} {bits : Nat} (nonneg : 0 ≤ theta) (weak : m ≤ theta)
    (hbits : 2 ≤ bits) {sums : List Int} (hsums : ∀ sum ∈ sums, magnitude sum = m) :
    Sunk theta bits m sums.length
      ((start theta bits).updateAll (sums.map fun sum => ⟨true, sum⟩)) := by
  induction sums using List.reverseRecOn with
  | nil =>
    refine ⟨rfl, ?_, fun _ => ?_⟩
    · show theta = _
      rw [List.length_nil, Nat.zero_div]
      omega
    · rw [List.length_nil, Nat.zero_mod]
      rfl
  | append_singleton sums sum ih =>
    have hprevious := ih fun other hother => hsums other (List.mem_append_left _ hother)
    have hsum := hsums sum (List.mem_append_right _ List.mem_cons_self)
    rw [List.map_append, List.length_append]
    exact updateAll_concat .. ▸ hprevious.update hbits hsum

/-- Strong votes leave the threshold alone, however many there are. -/
theorem updateAll_strong {t : Threshold} {sums : List Int}
    (strong : ∀ sum ∈ sums, t.theta < magnitude sum) :
    t.updateAll (sums.map fun sum => ⟨true, sum⟩) = t := by
  induction sums with
  | nil => rfl
  | cons sum sums ih =>
    have hfirst : (t.update true sum).1 = t := by
      rw [update_strong (strong sum List.mem_cons_self)]
    show (t.update true sum).1.updateAll (sums.map fun sum => ⟨true, sum⟩) = t
    rw [hfirst]
    exact ih fun other hother => strong other (List.mem_cons_of_mem _ hother)

/-- The closed form of the threshold on streams of one kind.

Wrong votes, however strong, raise theta once for every half range of the counter, as long as theta
stays below the greatest of its word; the counter holds what is left over. Correct votes of one
magnitude change nothing if they are stronger than the first theta. Otherwise they lower theta once
for every half range less one, down to the greatest theta that they are stronger than, or to zero.
The magnitude of a vote is its absolute value, which stops at the greatest of its word. -/
theorem closedForm_of_stream {theta : Int} {bits : Nat} (nonneg : 0 ≤ theta)
    (word : theta ≤ wordMax) (hbits : 2 ≤ bits) (sums : List Int) :
    let missed := (start theta bits).updateAll (sums.map fun sum => ⟨false, sum⟩)
    let hit := (start theta bits).updateAll (sums.map fun sum => ⟨true, sum⟩)
    (missed.theta < wordMax → missed.theta = theta + (sums.length / 2 ^ (bits - 1) : Nat)) ∧
    missed.counter = midpoint bits + sums.length % 2 ^ (bits - 1) ∧
    ∀ m, (∀ sum ∈ sums, magnitude sum = m) →
      (theta < m → hit.theta = theta ∧ hit.counter = midpoint bits) ∧
      (m ≤ theta →
        hit.theta = max (max (m - 1) 0) (theta - (sums.length / (2 ^ (bits - 1) - 1) : Nat))) := by
  intro missed hit
  have hhalf := midpoint_add_one bits
  have hperiod : midpoint bits = 2 ^ (bits - 1) - 1 := by omega
  have hclimbed := climbed_updateAll word (Nat.le_of_succ_le hbits) sums
  refine ⟨fun below => ?_, hhalf ▸ hclimbed.counter,
    fun m hsums => ⟨fun strong => ?_, fun weak => ?_⟩⟩
  · have hmissed : missed.theta = min (theta + (sums.length / (midpoint bits + 1) : Nat)) wordMax :=
      hclimbed.theta
    rw [← hhalf]
    omega
  · have hstill : hit = start theta bits := updateAll_strong fun sum hsum => hsums sum hsum ▸ strong
    rw [hstill]
    exact ⟨rfl, rfl⟩
  · rw [← hperiod]
    exact (sunk_updateAll nonneg weak hbits hsums).theta

/-- Ten votes with the narrowest counter but one: as wrong ones they raise theta twice and go two
steps into the next round; as correct ones they lower it until they are strong. -/
theorem closedForm_of_stream_tenVotes :
    (0 : Int) ≤ 5 ∧ (5 : Int) ≤ wordMax ∧ 2 ≤ 3 ∧
      (∀ sum ∈ List.replicate 10 (-4), magnitude sum = 4) ∧
      ((start 5 3).updateAll ((List.replicate 10 (-4)).map fun sum => ⟨false, sum⟩)).theta = 7 ∧
      ((start 5 3).updateAll ((List.replicate 10 (-4)).map fun sum => ⟨false, sum⟩)).counter = 5 ∧
      ((start 5 3).updateAll ((List.replicate 10 (-4)).map fun sum => ⟨true, sum⟩)).theta = 3 := by
  have nonneg : (0 : Int) ≤ 5 := by decide
  have word : (5 : Int) ≤ wordMax := by decide
  have hbits : 2 ≤ 3 := by decide
  have hsums : ∀ sum ∈ List.replicate 10 (-4), magnitude sum = 4 := by decide
  obtain ⟨htheta, hcounter, hhit⟩ :=
    closedForm_of_stream nonneg word hbits (List.replicate 10 (-4))
  exact ⟨nonneg, word, hbits, hsums, htheta (by decide), hcounter, (hhit 4 hsums).2 (by decide)⟩

/-- The absolute value of the least word is above the greatest theta, and yet it is a weak vote
there: its magnitude stops at the greatest word. -/
theorem lowered_by_leastWord :
    let after := (start wordMax 2).updateAll [⟨true, -2 ^ 63⟩]
    0 ≤ wordMax ∧ wordMax < ((-2 ^ 63 : Int).natAbs : Int) ∧
      ¬ (after.theta = wordMax ∧ after.counter = midpoint 2) := by
  decide

end Threshold

end BranchSelector
