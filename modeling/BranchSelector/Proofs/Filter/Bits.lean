import BranchSelector.Filter.Call
import Mathlib.Data.Finset.Prod
import Mathlib.Data.List.DropRight

/-!
# The bits of a Bloom filter

After any calls the bits that are set are those of the keys that were inserted since the last
clearing (`Bloom.isSet_applyAll`). The words and the running count say nothing more than these bits:
the count is their number, no bit lies outside the array, and only words that are zero are left out
(`Bloom.Sound`). Setting a bit keeps this, whether it was set before or not. So two filters with the
same bits set are the same filter (`Bloom.Sound.eq`), and calls that insert the same keys, in any
order and any number of times, end in the same filter (`Bloom.applyAll_eq_of_inserted`).
-/

namespace BranchSelector

namespace Bloom

/-! ## What the calls say -/

/-- The key that a call inserts. -/
def Call.key? : Call → Option UInt64
  | .insert key => some key
  | .clear => none

/-- The keys that were inserted since the last clearing, in the order of the calls. -/
def inserted (calls : List Call) : List UInt64 :=
  (calls.rtakeWhile (· != .clear)).filterMap Call.key?

variable {filter other : Bloom} {bits rounds : Nat} {calls : List Call}

theorem inserted_concat_insert (calls : List Call) (key : UInt64) :
    inserted (calls ++ [.insert key]) = inserted calls ++ [key] := by
  rw [inserted, List.rtakeWhile_concat_pos _ _ _ (by simp), List.filterMap_append]
  rfl

theorem inserted_concat_clear (calls : List Call) : inserted (calls ++ [.clear]) = [] := by
  rw [inserted, List.rtakeWhile_concat_neg _ _ _ (by simp)]
  rfl

/-! ## The bits that are set -/

theorem shape_applyAll (filter : Bloom) (calls : List Call) :
    (filter.applyAll calls).bits = filter.bits ∧
      (filter.applyAll calls).rounds = filter.rounds := by
  induction calls using List.reverseRecOn with
  | nil => exact ⟨rfl, rfl⟩
  | append_singleton calls call ih =>
    rw [applyAll, List.foldl_concat]
    cases call with
    | insert key => exact ⟨(bits_insert _ key).trans ih.1, (rounds_insert _ key).trans ih.2⟩
    | clear => exact ih

/-- The bits that are set are those of the keys since the last clearing. -/
theorem isSet_applyAll (bits rounds : Nat) (calls : List Call) (i : Nat) :
    ((empty bits rounds).applyAll calls).isSet i = true ↔
      ∃ key ∈ inserted calls, ∃ round < rounds, index bits key round = i := by
  induction calls using List.reverseRecOn with
  | nil =>
    exact iff_of_false (Bool.eq_false_iff.1 (isSet_empty ..)) fun ⟨_, hkey, _⟩ => nomatch hkey
  | append_singleton calls call ih =>
    obtain ⟨hbits, hrounds⟩ := shape_applyAll (empty bits rounds) calls
    rw [applyAll, List.foldl_concat]
    cases call with
    | insert key =>
      refine (isSet_insert _ key i).trans ?_
      rw [← applyAll, ih, hbits, hrounds, inserted_concat_insert]
      simp only [List.mem_append, List.mem_singleton, or_and_right, exists_or, exists_eq_left]
      rfl
    | clear =>
      rw [inserted_concat_clear]
      exact iff_of_false (Bool.eq_false_iff.1 (isSet_empty ..)) fun ⟨_, hkey, _⟩ => nomatch hkey

/-! ## Words, count and bits together -/

/-- Words are told apart by their bits. -/
theorem word_eq_of_isSet (hset : ∀ i, filter.isSet i = other.isSet i) (i : Nat) :
    filter.word i = other.word i := by
  refine UInt64.toNat_inj.1 (Nat.eq_of_testBit_eq fun place => ?_)
  by_cases hplace : place < 64
  · have hdiv : (64 * (i / 64) + place) / 64 = i / 64 := by omega
    have hmod : (64 * (i / 64) + place) % 64 = place := by omega
    have heq := hset (64 * (i / 64) + place)
    rw [isSet_eq_testBit, isSet_eq_testBit, word, word, hdiv, hmod] at heq
    exact heq
  · -- A word has no bits from the sixty-fourth on.
    have hbeyond (w : UInt64) : w.toNat.testBit place = false :=
      Nat.testBit_lt_two_pow (w.toNat_lt.trans_le
        (Nat.pow_le_pow_right (by decide) (Nat.le_of_not_lt hplace)))
    rw [hbeyond, hbeyond]

/-- The places in the array at which a bit is set. -/
def ones (filter : Bloom) : Finset Nat :=
  (Finset.range filter.bits).filter fun i => filter.isSet i = true

theorem mem_ones {i : Nat} : i ∈ filter.ones ↔ i < filter.bits ∧ filter.isSet i = true := by
  rw [ones, Finset.mem_filter, Finset.mem_range]

/-- A bit of the array that is clear is one more that is set. -/
theorem card_ones_setBit {i : Nat} (inside : i < filter.bits) (hclear : filter.isSet i = false) :
    (filter.setBit i).ones.card = filter.ones.card + 1 := by
  have hfresh : i ∉ filter.ones := fun hmem => by simp [mem_ones, hclear] at hmem
  have hones : (filter.setBit i).ones = Insert.insert i filter.ones := by
    ext j
    rw [Finset.mem_insert, mem_ones, mem_ones, bits_setBit, isSet_setBit]
    constructor
    · rintro ⟨hlt, hset | rfl⟩
      · exact .inr ⟨hlt, hset⟩
      · exact .inl rfl
    · rintro (rfl | ⟨hlt, hset⟩)
      · exact ⟨inside, .inr rfl⟩
      · exact ⟨hlt, .inl hset⟩
  rw [hones, Finset.card_insert_of_notMem hfresh]

/-- The words and the count of a filter say nothing more than which bits of the array are set. -/
structure Sound (filter : Bloom) : Prop where
  lt_bits (i : Nat) : filter.isSet i = true → i < filter.bits
  word_ne_zero (place : Nat) : filter.words[place]? ≠ some 0
  populated_eq : filter.populated = filter.ones.card

namespace Sound

theorem empty (bits rounds : Nat) : (empty bits rounds).Sound where
  lt_bits i hset := by simp at hset
  word_ne_zero place := by simp [Bloom.empty]
  populated_eq := by
    have hones : (Bloom.empty bits rounds).ones = ∅ := by simp [ones]
    rw [hones, Finset.card_empty]
    rfl

theorem setBit (h : filter.Sound) {i : Nat} (inside : i < filter.bits) :
    (filter.setBit i).Sound := by
  cases hbit : filter.isSet i with
  | true => rwa [setBit_of_isSet hbit]
  | false =>
    refine ⟨fun j hset => ?_, fun place hzero => ?_, ?_⟩
    · rw [bits_setBit]
      rcases (isSet_setBit filter i j).1 hset with hset | rfl
      · exact h.lt_bits j hset
      · exact inside
    · have hset : (filter.setBit i).isSet i = true := (isSet_setBit filter i i).2 (.inr rfl)
      by_cases hplace : i / 64 = place
      · -- The word that the bit lies in is not zero, since the bit is set.
        rw [isSet_eq_testBit, word, hplace, hzero] at hset
        simp at hset
      · rw [Bloom.setBit, if_neg (Bool.not_eq_true _ ▸ hbit)] at hzero
        rw [Std.ExtTreeMap.getElem?_insert, if_neg (by simpa using hplace)] at hzero
        exact h.word_ne_zero place hzero
    · rw [populated_setBit, hbit, card_ones_setBit inside hbit, h.populated_eq]
      rfl

theorem setRounds (h : filter.Sound) (positive : 0 < filter.bits) (key : UInt64) (round : Nat) :
    (filter.setRounds key round).Sound := by
  induction round with
  | zero => exact h
  | succ round ih =>
    rw [setRounds_succ]
    exact ih.setBit (bits_setRounds filter key round ▸ index_lt positive key round)

theorem applyAll (positive : 0 < bits) (rounds : Nat) (calls : List Call) :
    ((Bloom.empty bits rounds).applyAll calls).Sound := by
  induction calls using List.reverseRecOn with
  | nil => exact empty bits rounds
  | append_singleton calls call ih =>
    have hbits := (shape_applyAll (Bloom.empty bits rounds) calls).1
    rw [Bloom.applyAll, List.foldl_concat]
    cases call with
    | insert key => exact ih.setRounds (hbits.symm ▸ positive) key _
    | clear => exact empty _ _

theorem populated_le_bits (h : filter.Sound) : filter.populated ≤ filter.bits := by
  rw [h.populated_eq, ← Finset.card_range filter.bits]
  exact Finset.card_filter_le _ _

/-- No more bits are set than the keys have, if each has one a round and shares none. -/
theorem populated_le_mul (h : filter.Sound) {keys : List UInt64}
    (hset : ∀ i, filter.isSet i = true →
      ∃ key ∈ keys, ∃ round < rounds, index bits key round = i) :
    filter.populated ≤ rounds * keys.toFinset.card := by
  have hsub : filter.ones ⊆
      (Finset.range rounds ×ˢ keys.toFinset).image fun pair => index bits pair.2 pair.1 := by
    intro i hmem
    obtain ⟨key, hkey, round, hround, rfl⟩ := hset i (mem_ones.1 hmem).2
    exact Finset.mem_image.2 ⟨(round, key),
      Finset.mem_product.2 ⟨Finset.mem_range.2 hround, List.mem_toFinset.2 hkey⟩, rfl⟩
  calc filter.populated
      = filter.ones.card := h.populated_eq
    _ ≤ (Finset.range rounds ×ˢ keys.toFinset).card :=
        (Finset.card_le_card hsub).trans Finset.card_image_le
    _ = rounds * keys.toFinset.card := by rw [Finset.card_product, Finset.card_range]

/-- Whether a word is left out depends on the word alone. -/
theorem getElem?_words (h : filter.Sound) (place : Nat) :
    filter.words[place]? =
      if filter.word (64 * place) = 0 then none else some (filter.word (64 * place)) := by
  have hplace : 64 * place / 64 = place := Nat.mul_div_cancel_left place (by decide)
  rw [word, hplace]
  cases hword : filter.words[place]? with
  | none => rfl
  | some w =>
    have hw : w ≠ 0 := fun hzero => h.word_ne_zero place (hword.trans (congrArg some hzero))
    exact (if_neg hw).symm

/-- Filters of one shape with the same bits set are the same, down to words and count. -/
protected theorem eq (h : filter.Sound) (hother : other.Sound) (hbits : filter.bits = other.bits)
    (hrounds : filter.rounds = other.rounds) (hset : ∀ i, filter.isSet i = other.isSet i) :
    filter = other := by
  have hwords : filter.words = other.words := by
    refine Std.ExtTreeMap.ext_getElem? fun place => ?_
    rw [h.getElem?_words, hother.getElem?_words, word_eq_of_isSet hset]
  have hones : filter.ones = other.ones := by
    ext i
    rw [mem_ones, mem_ones, hbits, hset]
  have hpopulated : filter.populated = other.populated := by
    rw [h.populated_eq, hother.populated_eq, hones]
  cases filter
  cases other
  cases hbits
  cases hrounds
  cases hwords
  cases hpopulated
  rfl

end Sound

/-- Only which keys were inserted since the last clearing tells. -/
theorem applyAll_eq_of_inserted (positive : 0 < bits) (rounds : Nat) {others : List Call}
    (hsame : ∀ key, key ∈ inserted others ↔ key ∈ inserted calls) :
    (empty bits rounds).applyAll others = (empty bits rounds).applyAll calls := by
  refine Sound.eq (.applyAll positive rounds others) (.applyAll positive rounds calls) ?_ ?_
    fun i => ?_
  · rw [(shape_applyAll _ others).1, (shape_applyAll _ calls).1]
  · rw [(shape_applyAll _ others).2, (shape_applyAll _ calls).2]
  · rw [Bool.eq_iff_iff, isSet_applyAll, isSet_applyAll]
    simp only [hsame]

/-- Any filter can be made that has a bit and a hash round, and after any calls exactly those bits
of it are set that belong to a key, inserted since the last clearing, in some hash round. They all
lie in the array. A key is a member if each of its bits is one of them, so that every inserted key
is. The count is the number of bits set in the array, and at most the size of the array and the
number of hash rounds of all distinct keys. Any other calls that insert the same keys, in whatever
order and however often, lead to the same filter. -/
theorem bits_of_calls (hbits : 1 ≤ bits) (hrounds : 1 ≤ rounds) (calls : List Call) :
    ∃ fresh, create bits rounds = .ok fresh ∧
      (∀ i, (fresh.applyAll calls).isSet i = true ↔
        ∃ key ∈ inserted calls, ∃ round < rounds, index bits key round = i) ∧
      (∀ i, (fresh.applyAll calls).isSet i = true → i < bits) ∧
      (∀ other, (fresh.applyAll calls).contains other = true ↔
        ∀ round < rounds, ∃ key ∈ inserted calls, ∃ round' < rounds,
          index bits key round' = index bits other round) ∧
      (∀ key ∈ inserted calls, (fresh.applyAll calls).contains key = true) ∧
      (fresh.applyAll calls).populated =
        ((Finset.range bits).filter fun i => (fresh.applyAll calls).isSet i = true).card ∧
      (fresh.applyAll calls).populated ≤ min bits (rounds * (inserted calls).toFinset.card) ∧
      ∀ others, (∀ key, key ∈ inserted others ↔ key ∈ inserted calls) →
        fresh.applyAll others = fresh.applyAll calls := by
  have hcreate : create bits rounds = .ok (empty bits rounds) := by
    rw [create, if_neg (Nat.ne_of_gt hbits), if_neg (Nat.ne_of_gt hrounds)]
  have hsound : ((empty bits rounds).applyAll calls).Sound := .applyAll hbits rounds calls
  have hset := isSet_applyAll bits rounds calls
  have hshape : ((empty bits rounds).applyAll calls).bits = bits ∧
      ((empty bits rounds).applyAll calls).rounds = rounds := shape_applyAll ..
  have hcontains (other : UInt64) : ((empty bits rounds).applyAll calls).contains other = true ↔
      ∀ round < rounds, ∃ key ∈ inserted calls, ∃ round' < rounds,
        index bits key round' = index bits other round := by
    rw [contains_iff, hshape.1, hshape.2]
    simp only [hset]
  refine ⟨_, hcreate, hset, fun i hi => hshape.1 ▸ hsound.lt_bits i hi, hcontains, ?_, ?_, ?_,
    fun others => applyAll_eq_of_inserted hbits rounds⟩
  · intro key hkey
    exact (hcontains key).2 fun round hround => ⟨key, hkey, round, hround, rfl⟩
  · rw [hsound.populated_eq, ones, hshape.1]
  · exact le_min (hsound.populated_le_bits.trans_eq hshape.1)
      (hsound.populated_le_mul fun i => (hset i).1)

/-- In an array that ends one bit into its second word, two keys share that bit and both hash rounds
of a third one agree, so that four bits are set. -/
theorem bits_of_calls_sharing :
    let calls : List Call := [.insert 30, .clear, .insert 5, .insert 24, .insert 45, .insert 5]
    1 ≤ 65 ∧ 1 ≤ 2 ∧ ∃ fresh, create 65 2 = .ok fresh ∧
      (fresh.applyAll calls).isSet 64 = true ∧
      (fresh.applyAll calls).contains 24 = true ∧
      (fresh.applyAll calls).populated = 4 ∧
      (fresh.applyAll calls).populated ≤ min 65 (2 * 3) ∧
      fresh.applyAll [.insert 45, .insert 24, .insert 5] = fresh.applyAll calls := by
  intro calls
  have hkeys : inserted calls = [5, 24, 45, 5] := by decide
  have hothers : inserted [.insert 45, .insert 24, .insert 5] = [45, 24, 5] := by decide
  have hbits : 1 ≤ 65 := by decide
  have hrounds : 1 ≤ 2 := by decide
  obtain ⟨fresh, hcreate, hset, -, -, hmember, -, hcount, hsame⟩ :=
    bits_of_calls hbits hrounds calls
  refine ⟨hbits, hrounds, fresh, hcreate, ?_, ?_, ?_, ?_, ?_⟩
  · exact (hset 64).2 ⟨5, by decide, 1, by decide, by decide +kernel⟩
  · exact hmember 24 (by decide)
  · obtain rfl : empty 65 2 = fresh := Except.ok.inj hcreate
    decide +kernel
  · rwa [hkeys] at hcount
  · refine hsame _ fun key => ?_
    rw [hkeys, hothers]
    simp only [List.mem_cons, List.not_mem_nil, or_false]
    tauto

end Bloom

end BranchSelector
