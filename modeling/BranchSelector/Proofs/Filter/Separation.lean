import BranchSelector.Filter.Basic

/-!
# Bloom filters without false members

A Bloom filter holds a set of keys if the bits that are set are those of the keys
(`Bloom.Holds`). Inserting a key into both keeps this. Among keys of which each has a bit that
no other one shares (`Bloom.Separated`), membership in the filter is then membership in the set
(`Bloom.Holds.contains_eq`).
-/

namespace BranchSelector

namespace Bloom

/-- The bit of a key in a hash round belongs to no hash round of another of the keys. -/
def Alone (bits rounds : Nat) (keys : List UInt64) (key : UInt64) (round : Nat) : Prop :=
  ∀ other ∈ keys, other ≠ key → ∀ round' < rounds, index bits other round' ≠ index bits key round

/-- Each of the keys has a hash round whose bit belongs to no hash round of another key. -/
def Separated (bits rounds : Nat) (keys : List UInt64) : Prop :=
  ∀ key ∈ keys, ∃ round < rounds, Alone bits rounds keys key round

-- Both run over the list of keys: as a type, the keys are finite as well, but far too many.
instance (bits rounds : Nat) (keys : List UInt64) (key : UInt64) (round : Nat) :
    Decidable (Alone bits rounds keys key round) :=
  List.decidableBAll _ keys

instance (bits rounds : Nat) (keys : List UInt64) : Decidable (Separated bits rounds keys) :=
  List.decidableBAll _ keys

/-- The bits that are set are those of the keys of an exact set. -/
def Holds (filter : Bloom) (members : Std.ExtTreeSet UInt64) : Prop :=
  ∀ j, filter.isSet j = true ↔
    ∃ key ∈ members, ∃ round < filter.rounds, index filter.bits key round = j

variable {filter : Bloom} {members : Std.ExtTreeSet UInt64} {key : UInt64} {keys : List UInt64}

theorem holds_empty (bits rounds : Nat) : (empty bits rounds).Holds ∅ := by
  intro j
  rw [isSet_empty]
  refine ⟨nofun, ?_⟩
  rintro ⟨key, hkey, -⟩
  exact absurd hkey Std.ExtTreeSet.not_mem_empty

theorem Holds.insert (h : filter.Holds members) (key : UInt64) :
    (filter.insert key).Holds (members.insert key) := by
  intro j
  rw [isSet_insert, h j, rounds_insert, bits_insert]
  constructor
  · rintro (⟨old, hold, hbit⟩ | hbit)
    · exact ⟨old, Std.ExtTreeSet.mem_insert.2 (.inr hold), hbit⟩
    · exact ⟨key, Std.ExtTreeSet.mem_insert_self, hbit⟩
  · rintro ⟨other, hother, hbit⟩
    rcases Std.ExtTreeSet.mem_insert.1 hother with hsame | hold
    · exact .inr (Std.LawfulEqOrd.eq_of_compare hsame ▸ hbit)
    · exact .inl ⟨other, hold, hbit⟩

/-- Among separated keys a Bloom filter has no false members. -/
theorem Holds.contains_eq (h : filter.Holds members)
    (separated : Separated filter.bits filter.rounds keys) (known : ∀ other ∈ members, other ∈ keys)
    (hkey : key ∈ keys) : filter.contains key = members.contains key := by
  rw [Bool.eq_iff_iff, contains_iff]
  constructor
  · intro hset
    -- The bit that the key does not share was set by a member, which is then the key.
    obtain ⟨round, hround, halone⟩ := separated key hkey
    obtain ⟨other, hother, round', hround', hbit⟩ := (h _).1 (hset round hround)
    by_cases hsame : other = key
    · exact hsame ▸ hother
    · exact absurd hbit (halone other (known other hother) hsame round' hround')
  · intro hmember round hround
    exact (h _).2 ⟨key, hmember, round, hround, rfl⟩

end Bloom

/-- A Bloom filter and the exact set of the keys that it holds, which are all known. -/
inductive Filter.Mirrored (bits rounds : Nat) (keys : List UInt64) : Filter → Filter → Prop
  | intro {words : Std.ExtTreeMap Nat UInt64} {populated : Nat} {members : Std.ExtTreeSet UInt64} :
    Bloom.Holds ⟨bits, rounds, words, populated⟩ members → (∀ key ∈ members, key ∈ keys) →
      Mirrored bits rounds keys (.bloom ⟨bits, rounds, words, populated⟩) (.oracle members)

namespace Filter.Mirrored

variable {bits rounds : Nat} {keys : List UInt64} {bloom oracle : Filter} {key : UInt64}

theorem contains_eq (h : Mirrored bits rounds keys bloom oracle)
    (separated : Bloom.Separated bits rounds keys) (hkey : key ∈ keys) :
    bloom.contains key = oracle.contains key := by
  obtain ⟨hholds, hknown⟩ := h
  exact hholds.contains_eq separated hknown hkey

theorem insert (h : Mirrored bits rounds keys bloom oracle) (hkey : key ∈ keys) :
    Mirrored bits rounds keys (bloom.insert key) (oracle.insert key) := by
  obtain @⟨words, populated, members, hholds, hknown⟩ := h
  have hinsert := hholds.insert key
  have hbits := Bloom.bits_insert ⟨bits, rounds, words, populated⟩ key
  have hrounds := Bloom.rounds_insert ⟨bits, rounds, words, populated⟩ key
  show Mirrored bits rounds keys (.bloom (Bloom.insert ⟨bits, rounds, words, populated⟩ key)) _
  generalize Bloom.insert ⟨bits, rounds, words, populated⟩ key = after at hinsert hbits hrounds
  obtain ⟨bits, rounds, words, populated⟩ := after
  obtain rfl : bits = _ := hbits
  obtain rfl : rounds = _ := hrounds
  refine ⟨hinsert, fun other hother => ?_⟩
  rcases Std.ExtTreeSet.mem_insert.1 hother with hsame | hold
  · exact Std.LawfulEqOrd.eq_of_compare hsame ▸ hkey
  · exact hknown other hold

end Filter.Mirrored

end BranchSelector
