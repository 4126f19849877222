import BranchSelector.Baseline.Basic

/-!
# Static predictors

A static predictor goes by the address of a branch alone and learns nothing.
-/

namespace BranchSelector

/-- A predictor that goes by the address alone. -/
structure Static where
  vote : UInt64 → Bool

namespace Static

/-- Predicts the same direction everywhere. -/
def always (taken : Bool) : Static :=
  ⟨fun _ => taken⟩

/-- Predicts that a branch is taken if some bit of its address is set. -/
def addressBit (n : Nat) : Static :=
  ⟨fun pc => pc.toNat.testBit n⟩

instance : Baseline Static where
  predict s _ pc := (s.vote pc, s)
  updateHistory s _ _ _ _ _ _ := s
  trackOther s _ _ _ _ _ := s
  update s _ _ _ _ _ := .ok s
  killCheckpoint s _ := .ok s

end Static

end BranchSelector
