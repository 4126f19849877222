import BranchSelector.Config
import BranchSelector.Filter.Bloom
import Std.Data.ExtTreeSet

/-!
# Membership filters

A membership filter remembers the addresses that have mispredicted. There are two
kinds, a Bloom filter and an exact set. Neither forgets an address before it is
cleared.
-/

namespace BranchSelector

/-- A set of addresses, to which addresses can only be added. -/
inductive Filter where
  | bloom (bits : Bloom)
  | oracle (keys : Std.ExtTreeSet UInt64)

namespace Filter

def empty (kind : FilterKind) (config : FilterConfig) : Filter :=
  match kind with
  | .bloom => .bloom (Bloom.empty config.bits config.hashRounds)
  | .oracle => .oracle ∅

/-- An empty filter of some kind; a Bloom filter without bits or without hash rounds
breaks the contract. -/
def create (kind : FilterKind) (config : FilterConfig) : Except Violation Filter :=
  match kind with
  | .bloom => (Bloom.create config.bits config.hashRounds).map .bloom
  | .oracle => .ok (.oracle ∅)

def kind : Filter → FilterKind
  | .bloom _ => .bloom
  | .oracle _ => .oracle

def insert (filter : Filter) (key : UInt64) : Filter :=
  match filter with
  | .bloom bits => .bloom (bits.insert key)
  | .oracle keys => .oracle (keys.insert key)

def contains (filter : Filter) (key : UInt64) : Bool :=
  match filter with
  | .bloom bits => bits.contains key
  | .oracle keys => keys.contains key

def clear (filter : Filter) : Filter :=
  match filter with
  | .bloom bits => .bloom bits.clear
  | .oracle _ => .oracle ∅

/-- The size of a filter: the number of bits set, or of addresses held. -/
def size : Filter → Nat
  | .bloom bits => bits.populated
  | .oracle keys => keys.size

end Filter

end BranchSelector
