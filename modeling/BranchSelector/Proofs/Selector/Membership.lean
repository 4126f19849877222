import BranchSelector.Proofs.Selector.Coherent

/-!
# Membership of mispredicted addresses

A filter only grows (`Filter.contains_insert_of_contains`). As long as it is receptive, as an exact
set always is and a Bloom filter in even epochs, an address that was mispredicted is a member
afterwards (`Receptive.contains_filterAfter_wrong`). The filter stays the same if it was one before
(`filterAfter_of_contains`). In the two modes that select by membership, a prediction follows
the baseline exactly at the members (`provider_of_mode`).
-/

namespace BranchSelector

theorem Bloom.insert_of_contains {filter : Bloom} {key : UInt64}
    (h : filter.contains key = true) : filter.insert key = filter :=
  setRounds_of_isSet (contains_iff.1 h)

namespace Filter

theorem contains_insert (filter : Filter) (key : UInt64) :
    (filter.insert key).contains key = true := by
  cases filter with
  | bloom bits => exact bits.contains_insert key
  | oracle keys => exact Std.ExtTreeSet.contains_insert_self

theorem contains_insert_of_contains {filter : Filter} (key : UInt64) {other : UInt64}
    (h : filter.contains other = true) : (filter.insert key).contains other = true := by
  cases filter with
  | bloom bits => exact Bloom.contains_insert_of_contains key h
  | oracle keys =>
    have hmem : other ∈ keys := h
    exact Std.ExtTreeSet.mem_insert.2 (.inr hmem)

/-- A member that is added again leaves a filter as it is. -/
theorem insert_of_contains {filter : Filter} {key : UInt64} (h : filter.contains key = true) :
    filter.insert key = filter := by
  cases filter with
  | bloom bits => exact congrArg Filter.bloom (Bloom.insert_of_contains h)
  | oracle keys =>
    have hmem : key ∈ keys := h
    refine congrArg Filter.oracle ?_
    ext other
    rw [Std.ExtTreeSet.mem_insert]
    constructor
    · rintro (hother | hother)
      · exact Std.LawfulEqOrd.eq_of_compare hother ▸ hmem
      · exact hother
    · exact .inr

@[simp]
theorem kind_empty (kind : FilterKind) (config : FilterConfig) :
    (empty kind config).kind = kind := by
  cases kind <;> rfl

theorem clear_empty (kind : FilterKind) (config : FilterConfig) :
    (empty kind config).clear = empty kind config := by
  cases kind <;> rfl

@[simp]
theorem kind_insert (filter : Filter) (key : UInt64) : (filter.insert key).kind = filter.kind := by
  cases filter <;> rfl

@[simp]
theorem kind_clear (filter : Filter) : filter.clear.kind = filter.kind := by
  cases filter <;> rfl

/-- An exact set holds what was inserted and nothing else. -/
theorem contains_insert_iff {filter : Filter} (hkind : filter.kind = .oracle) {key other : UInt64} :
    (filter.insert key).contains other = true ↔ filter.contains other = true ∨ key = other := by
  cases filter with
  | bloom bits => cases hkind
  | oracle keys =>
    show other ∈ keys.insert key ↔ other ∈ keys ∨ key = other
    rw [Std.ExtTreeSet.mem_insert, Std.LawfulEqCmp.compare_eq_iff_eq, or_comm]

/-- An exact set that was emptied holds nothing. -/
theorem contains_clear {filter : Filter} (hkind : filter.kind = .oracle) (key : UInt64) :
    filter.clear.contains key = false := by
  cases filter with
  | bloom bits => cases hkind
  | oracle keys => exact Std.ExtTreeSet.contains_empty

end Filter

namespace Selector

variable {β : Type} {s : Selector β} {pc : UInt64}

/-- The filter takes in every address that is mispredicted. An exact set always does, and a Bloom
filter in even epochs. -/
def Receptive (s : Selector β) : Prop :=
  s.filter.kind = .oracle ∨ s.epoch % 2 = 0

theorem receptive_of_epoch (hepoch : s.epoch = 0) : s.Receptive := by
  rw [Receptive, hepoch]
  exact .inr rfl

/-- A receptive filter takes in every address that is not a member. -/
theorem Receptive.admits (hreceptive : s.Receptive) (h : s.filter.contains pc = false) :
    s.admits pc = true := by
  unfold Receptive at hreceptive
  unfold Selector.admits
  cases hfilter : s.filter with
  | bloom bits =>
    rw [hfilter] at h hreceptive
    have hbits : bits.contains pc = false := h
    have heven : s.epoch % 2 = 0 := hreceptive.resolve_left nofun
    simp only [hbits, heven]
    rfl
  | oracle keys => rfl

/-- A member that is offered again leaves the filter as it is. -/
theorem filterAfter_of_contains (h : s.filter.contains pc = true) (right : Bool) :
    s.filterAfter pc right = s.filter := by
  unfold filterAfter
  split
  · exact Filter.insert_of_contains h
  · rfl

theorem kind_filterAfter (s : Selector β) (pc : UInt64) (right : Bool) :
    (s.filterAfter pc right).kind = s.filter.kind := by
  unfold filterAfter
  split
  · exact Filter.kind_insert _ _
  · rfl

/-- Members stay members. -/
theorem contains_filterAfter {other : UInt64} (h : s.filter.contains other = true) (pc : UInt64)
    (right : Bool) : (s.filterAfter pc right).contains other = true := by
  unfold filterAfter
  split
  · exact Filter.contains_insert_of_contains pc h
  · exact h

/-- A receptive filter makes a member of an address that was not, if it was mispredicted. -/
theorem Receptive.filterAfter_wrong (hreceptive : s.Receptive)
    (h : s.filter.contains pc = false) : s.filterAfter pc false = s.filter.insert pc := by
  have henters : s.enters pc false = true := hreceptive.admits h
  rw [filterAfter, if_pos henters]

/-- In a receptive filter a mispredicted address is a member afterwards. -/
theorem Receptive.contains_filterAfter_wrong (hreceptive : s.Receptive) (pc : UInt64) :
    (s.filterAfter pc false).contains pc = true := by
  cases h : s.filter.contains pc with
  | true => exact contains_filterAfter h pc false
  | false =>
    rw [hreceptive.filterAfter_wrong h]
    exact s.filter.contains_insert pc

/-- To a receptive filter the addresses that are added are those that are mispredicted and are not
members. -/
theorem Receptive.added_eq (hreceptive : s.Receptive) (pc : UInt64) (right : Bool) :
    s.added pc right = if right = false ∧ s.filter.contains pc = false then 1 else 0 := by
  unfold added enters
  cases h : s.filter.contains pc with
  | true => simp
  | false => simp [hreceptive.admits h]

/-- Where membership selects, a prediction follows the baseline at the members. -/
theorem provider_of_mode (hmode : s.config.arbiter.mode ≠ .rawStrength) (pc : UInt64) :
    s.provider pc = if s.filter.contains pc then .baseline else .correlator := by
  unfold provider trustsCorrelator
  cases hm : s.config.arbiter.mode with
  | rawStrength => exact absurd hm hmode
  | bloom | oracle => cases s.filter.contains pc <;> rfl

end Selector

end BranchSelector
