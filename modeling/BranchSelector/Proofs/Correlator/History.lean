import BranchSelector.Proofs.Correlator.Step
import BranchSelector.Proofs.Correlator.Tally

/-!
# The correlator as a function of its history

A history of calls says what the correlator has to remember, without any correlator: the tags
that were touched (`Correlator.touches`), the checkpoint of every branch (`Correlator.kept`) and
the updates (`Correlator.updates`). Only the calls since the last reset count
(`Correlator.recent`).

The correlator follows its history, step by step (`Follows.step`), however the branches
interleave. It is, but for entries of weight zero, the correlator that has studied the lessons of
its updates one after the other. So two histories with the same lessons and the same entries
leave the same tables and the same threshold behind (`tallies_of_run`).
-/

namespace BranchSelector

namespace Correlator

/-- The tags that were touched, the latest first. -/
def touches : List (Call × Reply) → List (List UInt64)
  | [] => []
  | (.predict tags _, _) :: earlier | (.rawPredict tags, _) :: earlier => tags :: touches earlier
  | (.update _ _, _) :: earlier | (.killCheckpoint _, _) :: earlier | (.reset, _) :: earlier =>
    touches earlier

/-- The tags that were kept when a branch was predicted, if it has not been consumed since. -/
def kept (key : BranchKey) : List (Call × Reply) → Option (List UInt64)
  | [] => none
  | (.predict tags other, _) :: earlier => if other = key then some tags else kept key earlier
  | (.update _ other, _) :: earlier | (.killCheckpoint other, _) :: earlier =>
    if other = key then none else kept key earlier
  | (.rawPredict _, _) :: earlier => kept key earlier
  | (.reset, _) :: _ => none

/-- The updates in their order, each with the tags that were kept for it. -/
def updates : List (Call × Reply) → List Taught
  | [] => []
  | (.update taken key, .trained training) :: earlier =>
    updates earlier ++ (kept key earlier).toList.map fun tags => ⟨⟨key, tags, taken⟩, training⟩
  | _ :: earlier => updates earlier

/-- What the updates have answered, in their order. -/
def trainings (history : List (Call × Reply)) : List Training :=
  (history.filterMap fun entry => entry.2.training?).reverse

/-! ## One call -/

/-- A correlator follows the calls since the last reset. -/
structure Follows (config : CorrelatorConfig) (history : List (Call × Reply)) (c : Correlator) :
    Prop where
  sound : c.Sound config
  checkpoints : ∀ key, c.checkpoints[key]? = kept key history
  tallies : c.Tallies config (touches history) (updates history)
  /-- Every update that was answered had tags kept for it. -/
  complete : (updates history).map (·.training) = trainings history
  /-- The lessons one by one lead to the same correlator, but for entries of weight zero. -/
  studied : ((ofConfig config).studied ((updates history).map Taught.toLesson)).1.Padded c

section Follows

variable {config : CorrelatorConfig} {history : List (Call × Reply)} {c c' : Correlator}
  {call : Call} {reply : Reply}

theorem follows_ofConfig (config : CorrelatorConfig) : (ofConfig config).Follows config [] where
  sound := sound_ofConfig config
  checkpoints _ := Std.ExtTreeMap.getElem?_empty
  tallies := tallies_ofConfig config
  complete := rfl
  studied := .refl _

/-- A branch that is predicted has the tags of the prediction as its checkpoint. -/
theorem getElem?_insert_checkpoints (h : ∀ key, c.checkpoints[key]? = kept key history)
    (key : BranchKey) (tags : List UInt64) (other : BranchKey) :
    (c.checkpoints.insert key tags)[other]? =
      if key = other then some tags else kept other history := by
  rw [getElem?_insert_eq_ite, h other]

/-- A branch that is consumed has no checkpoint any more. -/
theorem getElem?_erase_checkpoints (h : ∀ key, c.checkpoints[key]? = kept key history)
    (key other : BranchKey) :
    (c.checkpoints.erase key)[other]? = if key = other then none else kept other history := by
  rw [getElem?_erase_eq_ite, h other]

/-- Any step but a reset. -/
theorem Follows.step (h : c.Follows config history) (hstep : c.Step call reply c')
    (hcall : call ≠ .reset) : c'.Follows config ((call, reply) :: history) := by
  have sound := hstep.sound h.sound
  cases hstep with
  | @predict tags key count _ =>
    exact ⟨sound, fun other => getElem?_insert_checkpoints h.checkpoints key tags other,
      (h.tallies.touch h.sound count).keep _, h.complete, (h.studied.touch_right tags).keep _ _⟩
  | @rawPredict tags count =>
    exact ⟨sound, h.checkpoints, h.tallies.touch h.sound count, h.complete,
      h.studied.touch_right tags⟩
  | @update taken key tags live =>
    have htouched := h.sound.touched live
    have hupdates : updates ((.update taken key, .trained (c.training taken tags)) :: history) =
        updates history ++ [⟨⟨key, tags, taken⟩, c.training taken tags⟩] := by
      rw [updates, ← h.checkpoints key, live]
      rfl
    refine ⟨sound, fun other => getElem?_erase_checkpoints h.checkpoints key other, ?_, ?_, ?_⟩
    · rw [hupdates]
      exact (h.tallies.learned h.sound htouched key taken).keep _
    · rw [hupdates, List.map_append, h.complete]
      exact List.reverse_cons.symm
    · rw [hupdates, List.map_append, List.map_singleton, studied_concat]
      exact ((h.studied.touch_left htouched).learned taken tags).keep _ _
  | @killCheckpoint key _ =>
    exact ⟨sound, fun other => getElem?_erase_checkpoints h.checkpoints key other,
      h.tallies.keep _, h.complete, h.studied.keep _ _⟩
  | reset => exact absurd rfl hcall

/-- What a correlator learns does not depend on the keys of the branches. -/
theorem studied_congr (c : Correlator) {lessons others : List Lesson}
    (h : lessons.map (fun l => (l.tags, l.taken)) = others.map fun l => (l.tags, l.taken)) :
    c.studied lessons = c.studied others := by
  let learn (state : Correlator × Nat) (l : List UInt64 × Bool) : Correlator × Nat :=
    ((state.1.touch l.1).learned l.2 l.1,
      state.2 + if (state.1.training l.2 l.1).trained then 0 else 1)
  have hfold : ∀ lessons : List Lesson,
      c.studied lessons = (lessons.map fun l => (l.tags, l.taken)).foldl learn (c, 0) :=
    fun lessons => (List.foldl_map (f := fun l : Lesson => (l.tags, l.taken)) (g := learn)).symm
  rw [hfold, hfold, h]

/-- Two histories with the same lessons and the same entries lead to the same tables and the same
threshold. -/
theorem Follows.eq_of_updates {history' : List (Call × Reply)} (h : c.Follows config history)
    (h' : c'.Follows config history')
    (hentries : ∀ i entry, (∃ tags ∈ touches history, FoldsTo config.foldedTagBits i tags entry) ↔
      ∃ tags ∈ touches history', FoldsTo config.foldedTagBits i tags entry)
    (hupdates : (updates history).map (fun u => (u.tags, u.taken)) =
      (updates history').map fun u => (u.tags, u.taken)) :
    c.tables = c'.tables ∧ c.threshold = c'.threshold := by
  have hstudied : (ofConfig config).studied ((updates history).map Taught.toLesson) =
      (ofConfig config).studied ((updates history').map Taught.toLesson) := by
    refine studied_congr _ ?_
    rw [List.map_map, List.map_map]
    exact hupdates
  have hpadded := h'.studied
  rw [← hstudied] at hpadded
  constructor
  · refine h.studied.tables.eq_of_entries hpadded.tables fun htable htable' entry => ?_
    rw [h.tallies.entries htable, h'.tallies.entries htable', hentries]
  · exact h.studied.threshold.trans hpadded.threshold.symm

end Follows

/-! ## Histories -/

section Histories

variable {c c' : Correlator} {calls : List Call} {replies : List Reply}

/-- After any calls that are answered, the correlator follows those since the last reset. -/
theorem follows_of_run {config : CorrelatorConfig} (width : Tag.Foldable config.foldedTagBits)
    (hrun : (ofConfig config).applyAll calls = .ok (replies, c)) :
    c.Follows config (recent calls replies) :=
  (run_induction (P := fun history c => c.Follows config history) width (follows_ofConfig config)
    (fun _ h hstep hcall => h.step hstep hcall) hrun).2

/-- After any calls that are answered, in which the branches interleave at will, count the calls
since the last reset. The entries of every table are the folded tags of its feature over all tags
that were passed to a prediction or a raw prediction. The weight of an entry has taken one step
from zero for each update that trained and whose tags fold to the entry, in the order of the
updates. The threshold has taken in what every update told of its vote. No update is left out, and
the tags of an update are those of the checkpoint that the prediction of its branch had left.

So the tables and the threshold depend on nothing but the lessons of the updates in their order
and the entries. -/
theorem tallies_of_run {config : Config} (valid : config.Valid)
    (hrun : (ofConfig config.correlator).applyAll calls = .ok (replies, c)) :
    c.Tallies config.correlator (touches (recent calls replies))
        (updates (recent calls replies)) ∧
      (updates (recent calls replies)).map (·.training) = trainings (recent calls replies) ∧
      (∀ key, c.checkpoints[key]? = kept key (recent calls replies)) ∧
      ∀ {calls' : List Call} {replies' : List Reply} {c' : Correlator},
        (ofConfig config.correlator).applyAll calls' = .ok (replies', c') →
        (∀ i entry,
          (∃ tags ∈ touches (recent calls replies),
            FoldsTo config.correlator.foldedTagBits i tags entry) ↔
          ∃ tags ∈ touches (recent calls' replies'),
            FoldsTo config.correlator.foldedTagBits i tags entry) →
        (updates (recent calls replies)).map (fun u => (u.tags, u.taken)) =
          (updates (recent calls' replies')).map (fun u => (u.tags, u.taken)) →
        c.tables = c'.tables ∧ c.threshold = c'.threshold := by
  have width : Tag.Foldable config.correlator.foldedTagBits :=
    ⟨valid.foldedTagBits.1, Nat.lt_succ_of_le valid.foldedTagBits.2⟩
  have hfollows := follows_of_run width hrun
  refine ⟨hfollows.tallies, hfollows.complete, hfollows.checkpoints,
    fun hrun' hentries hupdates => ?_⟩
  exact hfollows.eq_of_updates (follows_of_run width hrun') hentries hupdates

/-- Two branches with predictions that overlap. The later one resolves, and the earlier one is
discarded. -/
def overlapping : List Call :=
  [.predict (List.replicate Knob.count 5) ⟨1, 0⟩, .predict (List.replicate Knob.count 9) ⟨2, 0⟩,
    .update false ⟨2, 0⟩, .killCheckpoint ⟨1, 0⟩]

/-- The same lesson, and the same tags touched without a checkpoint. -/
def untangled : List Call :=
  [.rawPredict (List.replicate Knob.count 5), .predict (List.replicate Knob.count 9) ⟨3, 0⟩,
    .update false ⟨3, 0⟩]

/-- What an update tells whose empty tables have voted wrongly. -/
def firstTraining : Training :=
  ⟨false, 0, true, none, Knob.count⟩

theorem tallies_of_run_overlapping :
    ({} : Config).Valid ∧ ∃ c c',
      (ofConfig {}).applyAll overlapping =
        .ok ([.voted true, .voted true, .trained firstTraining, .done], c) ∧
      (ofConfig {}).applyAll untangled =
        .ok ([.weighed 0, .voted true, .trained firstTraining], c') ∧
      c.Tallies {} [List.replicate Knob.count 9, List.replicate Knob.count 5]
        [⟨⟨⟨2, 0⟩, List.replicate Knob.count 9, false⟩, firstTraining⟩] ∧
      c.tables = c'.tables ∧ c.threshold = c'.threshold := by
  have valid : ({} : Config).Valid := Config.validate_eq_ok_iff.1 rfl
  have hanswers : ((ofConfig {}).applyAll overlapping).map Prod.fst =
      .ok [.voted true, .voted true, .trained firstTraining, .done] := by decide +kernel
  have hanswers' : ((ofConfig {}).applyAll untangled).map Prod.fst =
      .ok [.weighed 0, .voted true, .trained firstTraining] := by decide +kernel
  cases hrun : (ofConfig {}).applyAll overlapping with
  | error violation =>
    rw [hrun] at hanswers
    cases hanswers
  | ok answer =>
    cases hrun' : (ofConfig {}).applyAll untangled with
    | error violation =>
      rw [hrun'] at hanswers'
      cases hanswers'
    | ok answer' =>
      obtain ⟨replies, c⟩ := answer
      obtain ⟨replies', c'⟩ := answer'
      rw [hrun] at hanswers
      rw [hrun'] at hanswers'
      obtain rfl := Except.ok.inj hanswers
      obtain rfl := Except.ok.inj hanswers'
      obtain ⟨htallies, -, -, hsame⟩ := tallies_of_run valid hrun
      exact ⟨valid, c, c', rfl, rfl, htallies, hsame hrun' (fun _ _ => Iff.rfl) rfl⟩

end Histories

end Correlator

end BranchSelector
