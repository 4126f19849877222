import BranchSelector.Filter.Mix
import BranchSelector.Violation
import Std.Data.ExtTreeMap

/-!
# Bloom filters

A Bloom filter is an array of bits in 64-bit words, with a running count of the bits that are
set. Most of the words are zero, and those are left out. A key sets one bit per hash round, and is a
member if all of its bits are set. `isSet_insert` says which bits are set after a key was inserted,
and `populated_setBit` what setting a bit does to the count. An inserted key is a member
(`contains_insert`) and members stay members (`contains_insert_of_contains`); a key that was never
inserted can be one too.
-/

namespace BranchSelector

/-- An array of bits into which keys are hashed. -/
structure Bloom where
  bits : Nat
  rounds : Nat
  /-- The words that are not zero, by their place in the array. -/
  words : Std.ExtTreeMap Nat UInt64
  /-- How many bits have been set, counted as they were. -/
  populated : Nat
  deriving DecidableEq

namespace Bloom

def empty (bits rounds : Nat) : Bloom :=
  ⟨bits, rounds, ∅, 0⟩

/-- An empty filter; one without bits or without hash rounds breaks the contract. -/
def create (bits rounds : Nat) : Except Violation Bloom :=
  if bits = 0 then .error .bloomWithoutBits
  else if rounds = 0 then .error .bloomWithoutRounds
  else .ok (empty bits rounds)

/-- The bit of a key in a hash round, in a filter of `bits` bits. -/
def index (bits : Nat) (key : UInt64) (round : Nat) : Nat :=
  (Filter.mix key (Filter.roundSeed round)).toNat % bits

/-- The word that a bit lies in. -/
def word (filter : Bloom) (i : Nat) : UInt64 :=
  filter.words[i / 64]?.getD 0

/-- The word in which only one bit is set, at the place that it has in its word. -/
def mask (i : Nat) : UInt64 :=
  1 <<< UInt64.ofNat (i % 64)

def isSet (filter : Bloom) (i : Nat) : Bool :=
  filter.word i &&& mask i != 0

/-- Sets a bit, and counts it if it was clear. -/
def setBit (filter : Bloom) (i : Nat) : Bloom :=
  if filter.isSet i then filter
  else { filter with
    words := filter.words.insert (i / 64) (filter.word i ||| mask i)
    populated := filter.populated + 1 }

/-- Sets the bits of a key in the hash rounds before `round`. -/
def setRounds (filter : Bloom) (key : UInt64) (round : Nat) : Bloom :=
  round.fold (fun r _ later => later.setBit (index filter.bits key r)) filter

/-- Sets the bits of a key. -/
def insert (filter : Bloom) (key : UInt64) : Bloom :=
  filter.setRounds key filter.rounds

/-- Whether all bits of a key are set. The rounds are tried in order, up to the first
whose bit is clear. -/
def contains (filter : Bloom) (key : UInt64) : Bool :=
  decide (∀ round < filter.rounds, filter.isSet (index filter.bits key round) = true)

def clear (filter : Bloom) : Bloom :=
  empty filter.bits filter.rounds

/-- The rate of false members to expect after some number of distinct keys:
`(1 - e ^ (-k n / N)) ^ k` for `k` rounds, `n` keys and `N` bits. -/
def falsePositiveRate (filter : Bloom) (inserted : Nat) : Float :=
  let float (n : Nat) : Float := (UInt64.ofNat n).toFloat
  let k := float filter.rounds
  let exponent := -k * float inserted / float filter.bits
  Float.pow (1.0 - Float.exp exponent) k

/-! ## Bits and words -/

theorem index_lt {bits : Nat} (positive : 0 < bits) (key : UInt64) (round : Nat) :
    index bits key round < bits :=
  Nat.mod_lt _ positive

theorem toNat_mask (i : Nat) : (mask i).toNat = 1 <<< (i % 64) := by
  have hplace : i % 64 < 64 := Nat.mod_lt _ (by decide)
  rw [mask, UInt64.toNat_shiftLeft, UInt64.toNat_ofNat',
    Nat.mod_eq_of_lt (Nat.lt_trans hplace (by decide)), Nat.mod_eq_of_lt hplace, UInt64.toNat_one]
  -- The one stays inside the word.
  rw [Nat.one_shiftLeft]
  exact Nat.mod_eq_of_lt (Nat.pow_lt_pow_right (by decide) hplace)

/-- A bit is set if the word that it lies in has a one at its place. -/
theorem isSet_eq_testBit (filter : Bloom) (i : Nat) :
    filter.isSet i = (filter.word i).toNat.testBit (i % 64) := by
  have hmasked (place : Nat) : (filter.word i &&& mask i).toNat.testBit place =
      ((filter.word i).toNat.testBit place && decide (i % 64 = place)) := by
    rw [UInt64.toNat_and, toNat_mask, Nat.one_shiftLeft, Nat.testBit_and, Nat.testBit_two_pow]
  cases hbit : (filter.word i).toNat.testBit (i % 64) with
  | true =>
    refine bne_iff_ne.2 fun hzero => ?_
    have hone := hmasked (i % 64)
    rw [hzero, hbit, decide_eq_true rfl] at hone
    exact absurd hone (by simp)
  | false =>
    refine bne_eq_false_iff_eq.2 (UInt64.toNat_inj.1 (Nat.eq_of_testBit_eq fun place => ?_))
    rw [hmasked, UInt64.toNat_zero, Nat.zero_testBit]
    by_cases hplace : i % 64 = place
    · rw [← hplace, hbit, Bool.false_and]
    · rw [decide_eq_false hplace, Bool.and_false]

@[simp]
theorem isSet_empty (bits rounds i : Nat) : (empty bits rounds).isSet i = false := by
  rw [isSet_eq_testBit, word, empty, Std.ExtTreeMap.getElem?_empty]
  exact Nat.zero_testBit _

/-! ## What setting a bit does -/

theorem setBit_of_isSet {filter : Bloom} {i : Nat} (h : filter.isSet i = true) :
    filter.setBit i = filter :=
  if_pos h

@[simp]
theorem bits_setBit (filter : Bloom) (i : Nat) : (filter.setBit i).bits = filter.bits := by
  unfold setBit
  split <;> rfl

@[simp]
theorem rounds_setBit (filter : Bloom) (i : Nat) : (filter.setBit i).rounds = filter.rounds := by
  unfold setBit
  split <;> rfl

theorem word_setBit {filter : Bloom} {i : Nat} (h : filter.isSet i = false) (j : Nat) :
    (filter.setBit i).word j =
      if i / 64 = j / 64 then filter.word i ||| mask i else filter.word j := by
  rw [setBit, if_neg (Bool.not_eq_true _ ▸ h)]
  simp only [word, Std.ExtTreeMap.getElem?_insert, Std.LawfulEqCmp.compare_eq_iff_eq]
  split <;> rfl

theorem isSet_setBit (filter : Bloom) (i j : Nat) :
    (filter.setBit i).isSet j = true ↔ filter.isSet j = true ∨ i = j := by
  cases hbit : filter.isSet i with
  | true =>
    rw [setBit_of_isSet hbit]
    exact ⟨.inl, fun h => h.elim id fun same => same ▸ hbit⟩
  | false =>
    rw [isSet_eq_testBit, isSet_eq_testBit filter j, word_setBit hbit]
    by_cases hword : i / 64 = j / 64
    · -- Within one word the bits are told apart by their places.
      have hplace : i % 64 = j % 64 ↔ i = j := by omega
      have hsame : filter.word i = filter.word j := by rw [word, word, hword]
      rw [if_pos hword, UInt64.toNat_or, toNat_mask, Nat.one_shiftLeft, Nat.testBit_or,
        Nat.testBit_two_pow, hsame, Bool.or_eq_true, decide_eq_true_iff, hplace]
    · rw [if_neg hword]
      exact ⟨.inl, fun h => h.elim id fun same => absurd (congrArg (· / 64) same) hword⟩

theorem populated_setBit (filter : Bloom) (i : Nat) :
    (filter.setBit i).populated = filter.populated + if filter.isSet i then 0 else 1 := by
  unfold setBit
  split <;> rfl

/-! ## What inserting a key does -/

theorem setRounds_succ (filter : Bloom) (key : UInt64) (round : Nat) :
    filter.setRounds key (round + 1) =
      (filter.setRounds key round).setBit (index filter.bits key round) :=
  Nat.fold_succ ..

theorem bits_setRounds (filter : Bloom) (key : UInt64) (round : Nat) :
    (filter.setRounds key round).bits = filter.bits := by
  induction round with
  | zero => rfl
  | succ round ih => rw [setRounds_succ, bits_setBit, ih]

theorem rounds_setRounds (filter : Bloom) (key : UInt64) (round : Nat) :
    (filter.setRounds key round).rounds = filter.rounds := by
  induction round with
  | zero => rfl
  | succ round ih => rw [setRounds_succ, rounds_setBit, ih]

theorem isSet_setRounds (filter : Bloom) (key : UInt64) (round j : Nat) :
    (filter.setRounds key round).isSet j = true ↔
      filter.isSet j = true ∨ ∃ r < round, index filter.bits key r = j := by
  induction round with
  | zero => simp [setRounds]
  | succ round ih =>
    rw [setRounds_succ, isSet_setBit, ih, or_assoc]
    refine or_congr_right ⟨?_, ?_⟩
    · rintro (⟨r, before, same⟩ | same)
      · exact ⟨r, Nat.lt_succ_of_lt before, same⟩
      · exact ⟨round, Nat.lt_succ_self round, same⟩
    · rintro ⟨r, before, same⟩
      rcases Nat.lt_succ_iff_lt_or_eq.1 before with earlier | rfl
      · exact .inl ⟨r, earlier, same⟩
      · exact .inr same

/-- Setting bits that are set changes nothing. -/
theorem setRounds_of_isSet {filter : Bloom} {key : UInt64} {round : Nat}
    (h : ∀ r < round, filter.isSet (index filter.bits key r) = true) :
    filter.setRounds key round = filter := by
  induction round with
  | zero => rfl
  | succ round ih =>
    rw [setRounds_succ, ih fun r before => h r (Nat.lt_succ_of_lt before)]
    exact setBit_of_isSet (h round (Nat.lt_succ_self round))

@[simp]
theorem bits_insert (filter : Bloom) (key : UInt64) : (filter.insert key).bits = filter.bits :=
  bits_setRounds ..

@[simp]
theorem rounds_insert (filter : Bloom) (key : UInt64) :
    (filter.insert key).rounds = filter.rounds :=
  rounds_setRounds ..

theorem isSet_insert (filter : Bloom) (key : UInt64) (j : Nat) :
    (filter.insert key).isSet j = true ↔
      filter.isSet j = true ∨ ∃ round < filter.rounds, index filter.bits key round = j :=
  isSet_setRounds ..

theorem contains_iff {filter : Bloom} {key : UInt64} :
    filter.contains key = true ↔
      ∀ round < filter.rounds, filter.isSet (index filter.bits key round) = true :=
  decide_eq_true_iff

theorem contains_insert (filter : Bloom) (key : UInt64) :
    (filter.insert key).contains key = true := by
  rw [contains_iff, bits_insert, rounds_insert]
  intro round before
  exact (isSet_insert ..).2 (.inr ⟨round, before, rfl⟩)

theorem contains_insert_of_contains {filter : Bloom} (key : UInt64) {other : UInt64}
    (before : filter.contains other = true) : (filter.insert key).contains other = true := by
  rw [contains_iff] at before
  rw [contains_iff, bits_insert, rounds_insert]
  intro round inside
  exact (isSet_insert ..).2 (.inl (before round inside))

end Bloom

end BranchSelector
