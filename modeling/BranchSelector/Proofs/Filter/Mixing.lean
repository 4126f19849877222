import BranchSelector.Filter.Bloom
import Mathlib.Data.FinEnum
import Mathlib.Data.Nat.ModEq
import Mathlib.Data.Nat.Prime.Basic

/-!
# Mixing loses nothing

Each step of `Filter.mix` can be undone. A word that is combined with its upper bits twice is itself
again, as bits that are shifted down by 33 twice are gone (`Filter.foldUpper_foldUpper`). A product
with an odd constant determines the other factor, since an odd number has no factor in common with
`2 ^ 64` (`Filter.mul_left_inj_of_odd`). So two hashes are equal only if the keys were equal once
combined with their seeds (`Filter.mix_eq_mix_iff`): under one seed only if the keys are, and for
one key only if the seeds are. The seeds of two hash rounds are products with an odd constant as
well, and so they are equal only if the rounds agree modulo `2 ^ 64`
(`Filter.roundSeed_eq_roundSeed_iff`).

Keys and rounds of a Bloom filter that share a bit thus do so because the hash is cut down to the
size of the filter, and for no other reason.
-/

namespace BranchSelector.Filter

/-! ## The steps of the mixer -/

@[simp]
theorem foldUpper_foldUpper (word : UInt64) : foldUpper (foldUpper word) = word := by
  -- There are fewer than 66 bits to shift out.
  have hgone : word >>> 33 >>> 33 = 0 := by
    rw [← UInt64.toNat_inj, UInt64.toNat_shiftRight, UInt64.toNat_shiftRight]
    show word.toNat >>> 33 >>> 33 = 0
    rw [← Nat.shiftRight_add]
    exact Nat.shiftRight_eq_zero _ _ (Nat.lt_trans word.toNat_lt (by decide))
  rw [foldUpper, foldUpper, UInt64.shiftRight_xor, hgone, UInt64.xor_zero, UInt64.xor_assoc,
    UInt64.xor_self, UInt64.xor_zero]

@[simp]
theorem foldUpper_inj {a b : UInt64} : foldUpper a = foldUpper b ↔ a = b :=
  (Function.LeftInverse.injective foldUpper_foldUpper).eq_iff

theorem mul_left_inj_of_odd {factor : UInt64} (hodd : Odd factor.toNat) {a b : UInt64} :
    a * factor = b * factor ↔ a = b := by
  refine ⟨fun hsame => ?_, congrArg (· * factor)⟩
  have hcoprime : Nat.gcd (2 ^ 64) factor.toNat = 1 := hodd.coprime_two_left.pow_left 64
  have hmod : a.toNat * factor.toNat ≡ b.toNat * factor.toNat [MOD 2 ^ 64] := by
    have hwords := congrArg UInt64.toNat hsame
    rwa [UInt64.toNat_mul, UInt64.toNat_mul] at hwords
  have hequal : a.toNat = b.toNat :=
    (hmod.cancel_right_of_coprime hcoprime).eq_of_lt_of_lt a.toNat_lt b.toNat_lt
  exact UInt64.toNat_inj.1 hequal

/-! ## Hashes -/

/-- Hashes are equal only where the mixer was started from the same word. -/
theorem mix_eq_mix_iff {key other seed otherSeed : UInt64} :
    mix key seed = mix other otherSeed ↔ key ^^^ seed = other ^^^ otherSeed := by
  have hfirst : Odd (0xff51afd7ed558ccd : UInt64).toNat := by decide
  have hsecond : Odd (0xc4ceb9fe1a85ec53 : UInt64).toNat := by decide
  -- The steps are taken off both sides, the last one first.
  rw [mix, mix, foldUpper_inj, mul_left_inj_of_odd hsecond, foldUpper_inj,
    mul_left_inj_of_odd hfirst, foldUpper_inj]

theorem mix_bijective (seed : UInt64) : Function.Bijective fun key => mix key seed := by
  refine Finite.injective_iff_bijective.1 fun key other hsame => ?_
  exact (UInt64.xor_left_inj seed).1 (mix_eq_mix_iff.1 hsame)

/-- Only rounds that agree modulo the number of words have the same seed. -/
theorem roundSeed_eq_roundSeed_iff {round other : Nat} :
    roundSeed round = roundSeed other ↔ round ≡ other [MOD 2 ^ 64] := by
  have hodd : Odd (0x9e3779b185ebca87 : UInt64).toNat := by decide
  rw [roundSeed, roundSeed, mul_left_inj_of_odd hodd, ← UInt64.toNat_inj, UInt64.toNat_ofNat',
    UInt64.toNat_ofNat']
  rfl

theorem mix_roundSeed_eq_iff {key : UInt64} {round other : Nat} :
    mix key (roundSeed round) = mix key (roundSeed other) ↔ round ≡ other [MOD 2 ^ 64] := by
  rw [mix_eq_mix_iff, UInt64.xor_right_inj, roundSeed_eq_roundSeed_iff]

/-- Nothing is lost before a hash is cut down to the bits of a filter. Under each seed the hashes of
the keys are all words, each of one key only. And whatever the key, no two hash rounds with 32-bit
numbers give it the same hash. It is of these hashes that a filter takes the remainder. -/
theorem mix_bijective_and_rounds_distinct :
    (∀ seed, Function.Bijective fun key => mix key seed) ∧
    (∀ (key : UInt64) (round other : UInt32),
      mix key (roundSeed round.toNat) = mix key (roundSeed other.toNat) ↔ round = other) ∧
    ∀ bits key (round : UInt32),
      Bloom.index bits key round.toNat = (mix key (roundSeed round.toNat)).toNat % bits := by
  refine ⟨mix_bijective, fun key round other => ?_, fun _ _ _ => rfl⟩
  have hround : round.toNat < 2 ^ 64 := Nat.lt_trans round.toNat_lt (by decide)
  have hother : other.toNat < 2 ^ 64 := Nat.lt_trans other.toNat_lt (by decide)
  rw [mix_roundSeed_eq_iff, ← UInt32.toNat_inj]
  exact ⟨fun hmod => hmod.eq_of_lt_of_lt hround hother, fun hsame => hsame ▸ rfl⟩

end BranchSelector.Filter
