import BranchSelector.Proofs.Correlator.Range
import BranchSelector.Proofs.Tag.Parity

/-!
# The correlator in words

Votes are added up in signed words of 64 bits, one table after the other (`wordWeigh`); the
storage of the tables in unsigned words of 128 bits (`wordStorage`); and the strength that a vote
needs, and the ends of the training counter, are shifted into place (`Config.wordUseThreshold`,
`Threshold.wordLimit`). Here the same sums are taken in words that wrap.

Arithmetic on words commutes with the cast from the integers. So a word computation gives the
word of the exact result (`wordWeigh_eq`, `wordStorage_eq`), and the exact result itself where it
fits (`Correlator.InRange.toInt_wordVote`, `Correlator.Sound.toNat_wordStorage`).

That the entries of a table are folded tags, and so no wider than the table, is kept by all that
happens to a table (`WeightTable.Folded`).
-/

namespace BranchSelector

/-- Every entry is a folded tag. -/
def WeightTable.Folded (table : WeightTable) : Prop :=
  ∀ entry ∈ table.weights, entry < 2 ^ table.foldedBits

namespace WeightTable

theorem index_lt (table : WeightTable) (tag : UInt64) : table.index tag < 2 ^ table.foldedBits :=
  Tag.xorSlices_lt tag table.foldedBits

theorem folded_clear (table : WeightTable) : table.clear.Folded := by
  intro entry hentry
  rw [show table.clear.weights = ∅ from rfl] at hentry
  exact absurd hentry Std.ExtTreeMap.not_mem_empty

theorem Folded.touch {table : WeightTable} (h : table.Folded) (tag : UInt64) :
    (table.touch tag).Folded := by
  intro entry hentry
  rcases Std.ExtTreeMap.mem_insertIfNew.1 hentry with hsame | hold
  · exact Std.LawfulEqOrd.eq_of_compare hsame ▸ table.index_lt tag
  · exact h entry hold

theorem Folded.trained {table : WeightTable} (h : table.Folded) (tag : UInt64) (taken : Bool) :
    (table.trained tag taken).Folded := by
  intro entry hentry
  rcases Std.ExtTreeMap.mem_insert.1 hentry with hsame | hold
  · exact Std.LawfulEqOrd.eq_of_compare hsame ▸ table.index_lt tag
  · exact h entry hold

end WeightTable

/-! ## Words -/

/-- The vote of some tables on their tags, added to a sum word by word. -/
def wordWeigh (sum : Int64) : List WeightTable → List Bool → List UInt64 → Int64
  | table :: tables, on :: mask, tag :: tags =>
    wordWeigh (if on then sum + Int64.ofInt (table.weight tag) else sum) tables mask tags
  | _, _, _ => sum

theorem wordWeigh_eq (sum : Int) (tables : List WeightTable) (mask : List Bool)
    (tags : List UInt64) :
    wordWeigh (.ofInt sum) tables mask tags = .ofInt (sum + weigh tables mask tags) := by
  induction tables generalizing sum mask tags with
  | nil => exact congrArg Int64.ofInt (Int.add_zero sum).symm
  | cons table tables ih =>
    cases mask with
    | nil => exact congrArg Int64.ofInt (Int.add_zero sum).symm
    | cons on mask =>
      cases tags with
      | nil => exact congrArg Int64.ofInt (Int.add_zero sum).symm
      | cons tag tags =>
        rw [wordWeigh, weigh, ← Int.add_assoc, ← ih]
        congr 1
        cases on with
        | true => exact (Int64.ofInt_add sum (table.weight tag)).symm
        | false => exact congrArg Int64.ofInt (Int.add_zero sum).symm

/-- The bits of the tables that vote, added to a number of bits word by word. -/
def wordStorage (bits : BitVec 128) : List WeightTable → List Bool → BitVec 128
  | table :: tables, on :: mask =>
    let storage := (1#128 <<< table.foldedBits) * BitVec.ofNat 128 table.counterBits
    wordStorage (if on then bits + storage else bits) tables mask
  | _, _ => bits

theorem ofNat_storageBits (table : WeightTable) :
    (1#128 <<< table.foldedBits) * BitVec.ofNat 128 table.counterBits =
      BitVec.ofNat 128 table.storageBits := by
  rw [WeightTable.storageBits, BitVec.ofNat_mul]
  rfl

theorem wordStorage_eq (bits : Nat) (tables : List WeightTable) (mask : List Bool) :
    wordStorage (.ofNat 128 bits) tables mask =
      .ofNat 128 ((tables.zip mask).foldl (fun bits (table, on) =>
        if on then bits + table.storageBits else bits) bits) := by
  induction tables generalizing bits mask with
  | nil => rfl
  | cons table tables ih =>
    cases mask with
    | nil => rfl
    | cons on mask =>
      rw [wordStorage, List.zip_cons_cons, List.foldl_cons, ← ih, ofNat_storageBits]
      cases on with
      | true => exact congrArg (wordStorage · tables mask) (BitVec.ofNat_add bits _).symm
      | false => rfl

/-- Tables of one size take that many bits for each one that votes. -/
theorem foldl_storageBits {tables : List WeightTable} {mask : List Bool} {size : Nat}
    (h : ∀ table ∈ tables, table.storageBits = size) (hmask : mask.length = tables.length)
    (bits : Nat) :
    (tables.zip mask).foldl (fun bits (table, on) =>
      if on then bits + table.storageBits else bits) bits = bits + mask.count true * size := by
  induction tables generalizing bits mask with
  | nil =>
    rw [List.length_eq_zero_iff.1 hmask]
    exact (Nat.zero_mul size ▸ Nat.add_zero bits).symm
  | cons table tables ih =>
    cases mask with
    | nil => cases hmask
    | cons on mask =>
      have hrest := fun bits => ih (fun t ht => h t (List.mem_cons_of_mem table ht))
        (Nat.succ.inj hmask) bits
      rw [List.zip_cons_cons, List.foldl_cons, hrest]
      cases on with
      | true =>
        show bits + table.storageBits + mask.count true * size = _
        rw [h table List.mem_cons_self, List.count_cons_self, Nat.succ_mul]
        omega
      | false => rw [List.count_cons_of_ne Bool.false_ne_true]; rfl

/-- The strength that a vote needs: the greatest weight, taken from a signed word, once for each
knob but one. -/
def Config.wordUseThreshold (config : Config) : UInt64 :=
  let counterMax : Int64 := (1 <<< Int64.ofNat (config.correlator.counterBits - 1)) - 1
  counterMax.toUInt64 * (UInt64.ofNat Knob.count - 1)

theorem Config.toNat_wordUseThreshold {config : Config} (valid : config.Valid) :
    config.wordUseThreshold.toNat = config.useThreshold := by
  have hwidths : ∀ bits < 33, 2 ≤ bits →
      (((1 <<< Int64.ofNat (bits - 1)) - 1 : Int64).toUInt64 *
        (UInt64.ofNat Knob.count - 1)).toNat = ((1 <<< (bits - 1)) - 1) * (Knob.count - 1) := by
    decide +kernel
  exact hwidths _ (Nat.lt_succ_of_le valid.counterBits.2) valid.counterBits.1

/-- The upper end of a training counter of some width. -/
def Threshold.wordLimit (bits : Nat) : UInt32 :=
  (1 <<< UInt32.ofNat bits) - 1

theorem Threshold.toNat_wordLimit {bits : Nat} (h : bits ≤ 16) :
    (wordLimit bits).toNat = limit bits := by
  have hwidths : ∀ bits < 17, (wordLimit bits).toNat = limit bits := by decide +kernel
  exact hwidths bits (Nat.lt_succ_of_le h)

namespace Correlator

/-- The vote on a vector of tags, word by word. -/
def wordVote (c : Correlator) (tags : List UInt64) : Int64 :=
  wordWeigh 0 c.tables c.mask tags

/-- The bits that the tables of the voting knobs take when they are full, word by word. -/
def wordStorageBits (c : Correlator) : BitVec 128 :=
  wordStorage 0 c.tables c.mask

/-- The entries of all tables are folded tags. -/
def Folded (c : Correlator) : Prop :=
  ∀ table ∈ c.tables, table.Folded

variable {config : CorrelatorConfig} {c : Correlator}

theorem folded_ofConfig (config : CorrelatorConfig) : (ofConfig config).Folded := by
  intro table ht
  obtain ⟨knob, -, rfl⟩ := List.mem_map.1 ht
  exact WeightTable.folded_clear
    { name := knob.name, foldedBits := config.foldedTagBits, counterBits := config.counterBits }

theorem Folded.checkpointed (h : c.Folded) (tags : List UInt64) (key : BranchKey) :
    (c.checkpointed tags key).Folded :=
  forall_touchAll (fun tag folded => folded.touch tag) h tags

theorem Folded.learned (h : c.Folded) (taken : Bool) (tags : List UInt64) :
    (c.learned taken tags).Folded := by
  show ∀ table ∈ (if (c.training taken tags).trained then trainedAll taken c.tables tags
    else c.tables), table.Folded
  split
  · exact forall_trainedAll (fun tag folded => folded.trained tag taken) h tags
  · exact h

theorem Folded.forget (h : c.Folded) (key : BranchKey) : (c.forget key).Folded := h

/-- Six weights of 32 bits add up to no more than this. -/
theorem InRange.natAbs_vote_le_word (range : c.InRange) (h : c.Sound config)
    (hbits : config.counterBits ≤ 32) (tags : List UInt64) :
    (c.vote tags).natAbs ≤ 6 * 2 ^ 31 := by
  refine Nat.le_trans (range.natAbs_vote_le h tags) (Nat.mul_le_mul_left 6 ?_)
  exact Nat.pow_le_pow_right (by decide) (by omega)

theorem InRange.toInt_wordVote (range : c.InRange) (h : c.Sound config)
    (hbits : config.counterBits ≤ 32) (tags : List UInt64) :
    (c.wordVote tags).toInt = c.vote tags := by
  have hvote := range.natAbs_vote_le_word h hbits tags
  have hword := wordWeigh_eq 0 c.tables c.mask tags
  rw [Int.zero_add] at hword
  show (wordWeigh (.ofInt 0) c.tables c.mask tags).toInt = c.vote tags
  rw [hword]
  show (Int64.ofInt (c.vote tags)).toInt = c.vote tags
  exact Int64.toInt_ofInt_of_le (by omega) (by omega)

theorem Sound.storageBits_eq (h : c.Sound config) (hmask : config.featureMask.length = Knob.count) :
    c.storageBits = config.enabledFeatures * (2 ^ config.foldedTagBits * config.counterBits) := by
  have hsizes : ∀ table ∈ c.tables,
      table.storageBits = 2 ^ config.foldedTagBits * config.counterBits := by
    intro table ht
    rw [WeightTable.storageBits, h.foldedBits ht, h.counterBits ht, Nat.one_shiftLeft]
  have hlength : c.mask.length = c.tables.length := by rw [h.mask, hmask, h.length]
  rw [storageBits, foldl_storageBits hsizes hlength, Nat.zero_add, h.mask]
  rfl

theorem Sound.toNat_wordStorageBits (h : c.Sound config)
    (hmask : config.featureMask.length = Knob.count) (hfolded : config.foldedTagBits ≤ 63)
    (hbits : config.counterBits ≤ 32) : c.wordStorageBits.toNat = c.storageBits := by
  have hvoters : config.enabledFeatures ≤ 6 :=
    Nat.le_trans List.count_le_length (Nat.le_of_eq hmask)
  have hwidth : 2 ^ config.foldedTagBits ≤ 2 ^ 63 := Nat.pow_le_pow_right (by decide) hfolded
  have hsize : c.storageBits ≤ 6 * (2 ^ 63 * 32) := by
    rw [h.storageBits_eq hmask]
    exact Nat.mul_le_mul hvoters (Nat.mul_le_mul hwidth hbits)
  show (wordStorage (.ofNat 128 0) c.tables c.mask).toNat = c.storageBits
  rw [wordStorage_eq]
  show (BitVec.ofNat 128 c.storageBits).toNat = c.storageBits
  exact Nat.mod_eq_of_lt (by omega)

/-- The training counter can go up and down by one in a word. -/
theorem Fits.toNat_wordCounter (fits : c.Fits) :
    (UInt32.ofNat c.threshold.counter + 1).toNat = c.threshold.counter + 1 ∧
      (UInt32.ofNat c.threshold.counter - 1).toNat = c.threshold.counter - 1 := by
  obtain ⟨hpos, hroom⟩ := fits.counter
  have hword : (UInt32.ofNat c.threshold.counter).toNat = c.threshold.counter :=
    UInt32.toNat_ofNat_of_lt' (Nat.lt_of_succ_lt hroom)
  constructor
  · rw [UInt32.toNat_add, hword]
    exact Nat.mod_eq_of_lt hroom
  · rw [UInt32.toNat_sub_of_le _ _ (UInt32.le_iff_toNat_le.2 (hword.symm ▸ hpos)), hword]
    rfl

end Correlator

end BranchSelector
