import BranchSelector.Proofs.Correlator.Checkpoint

/-!
# Lessons of the correlator

What the correlator learns from a branch is determined by the tags of its prediction and the
direction that it took: its *lesson*. The plain way to learn from a sequence of branches is to
touch the tags of each and to train on them at once (`Correlator.studied`).

In a machine, later branches are predicted before an earlier one is trained on, so their tags
are touched too early (`Correlator.foretouched`). This makes no difference, because touching
changes no vote (`training_foretouched`) and commutes with training on tags that have entries
(`learned_foretouched`).
-/

namespace BranchSelector

/-- What the correlator learns from one branch. -/
structure Lesson where
  /-- The branch. -/
  key : BranchKey
  /-- The tags of its prediction. -/
  tags : List UInt64
  /-- The direction that it took. -/
  taken : Bool

namespace Correlator

/-- The correlator after the tags of some lessons are touched. -/
def foretouched (c : Correlator) (lessons : List Lesson) : Correlator :=
  lessons.foldl (fun c lesson => c.touch lesson.tags) c

/-- Touches the tags of a lesson and trains on them at once. Along with the correlator, the
updates that left the weights alone are counted. -/
def study (state : Correlator × Nat) (lesson : Lesson) : Correlator × Nat :=
  ((state.1.touch lesson.tags).learned lesson.taken lesson.tags,
    state.2 + if (state.1.training lesson.taken lesson.tags).trained then 0 else 1)

/-- The correlator after some lessons, one after the other. -/
def studied (c : Correlator) (lessons : List Lesson) : Correlator × Nat :=
  lessons.foldl study (c, 0)

/-- The correlator without checkpoints. -/
def bare (c : Correlator) : Correlator :=
  { c with checkpoints := ∅ }

variable (c : Correlator)

theorem foretouched_append (first second : List Lesson) :
    c.foretouched (first ++ second) = (c.foretouched first).foretouched second :=
  List.foldl_append

theorem studied_concat (lessons : List Lesson) (lesson : Lesson) :
    c.studied (lessons ++ [lesson]) = study (c.studied lessons) lesson :=
  List.foldl_concat ..

theorem length_foretouched (lessons : List Lesson) :
    (c.foretouched lessons).tables.length = c.tables.length := by
  induction lessons generalizing c with
  | nil => rfl
  | cons lesson lessons ih => exact (ih _).trans (length_touchAll ..)

/-- What an update does is judged by the vote, and touching changes no vote. -/
theorem training_touch (others : List UInt64) (taken : Bool) (tags : List UInt64) :
    (c.touch others).training taken tags = c.training taken tags := by
  unfold training
  rw [vote_touch]
  rfl

theorem training_foretouched (lessons : List Lesson) (taken : Bool) (tags : List UInt64) :
    (c.foretouched lessons).training taken tags = c.training taken tags := by
  induction lessons generalizing c with
  | nil => rfl
  | cons lesson lessons ih => exact (ih _).trans (training_touch ..)

/-- Training on tags that have entries commutes with touching. -/
theorem learned_touch {c : Correlator} {tags : List UInt64} (h : TouchedAll c.tables tags)
    (others : List UInt64) (taken : Bool) :
    (c.touch others).learned taken tags = (c.learned taken tags).touch others := by
  have hvote := c.vote_touch others tags
  have htraining := c.training_touch others taken tags
  simp only [learned, hvote, htraining]
  split
  · simp only [touch, h.trainedAll_touchAll]
  · rfl

theorem learned_foretouched {c : Correlator} {tags : List UInt64} (h : TouchedAll c.tables tags)
    (lessons : List Lesson) (taken : Bool) :
    (c.foretouched lessons).learned taken tags = (c.learned taken tags).foretouched lessons := by
  induction lessons generalizing c with
  | nil => rfl
  | cons lesson lessons ih =>
    have htouched : TouchedAll (c.touch lesson.tags).tables tags := h.touchAll lesson.tags
    have hlater := ih htouched
    rw [learned_touch h] at hlater
    exact hlater

/-- A lesson that is learned after the tags of later ones were touched leaves the correlator as
if it had been studied at its time. -/
theorem learned_foretouched_cons {state : Correlator × Nat} {lesson : Lesson}
    (h : lesson.tags.length = state.1.tables.length) (later : List Lesson) :
    (state.1.foretouched (lesson :: later)).learned lesson.taken lesson.tags =
      (study state lesson).1.foretouched later :=
  learned_foretouched (touchedAll_touchAll h) later lesson.taken

end Correlator

end BranchSelector
