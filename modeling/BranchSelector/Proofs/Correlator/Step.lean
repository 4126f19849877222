import BranchSelector.Correlator.Call
import BranchSelector.Proofs.Correlator.Range

/-!
# What one call of the correlator can do

`Correlator.Breach` lists the ways in which a call can break the contract, and `Correlator.Step`
what a call does otherwise. On a sound correlator these are all the cases (`breach_or_step`): a
call fails if and only if it is a breach (`Sound.apply_eq_error_iff`), and makes a step if it does
not fail (`Sound.step`).

What holds after any list of calls is proved from the steps (`run_induction`). Only the calls since
the last reset count (`recent`), as a reset leaves a correlator as it was built.
-/

namespace BranchSelector

namespace Correlator

/-- The ways in which a call breaks the contract. -/
inductive Breach (c : Correlator) : Call → Violation → Prop
  /-- A prediction without one tag for each knob. -/
  | tags {tags : List UInt64} {key : BranchKey} :
    tags.length ≠ Knob.count →
      Breach c (.predict tags key) (.tagCount tags.length Knob.count)
  /-- A raw prediction without one tag for each knob. -/
  | rawTags {tags : List UInt64} :
    tags.length ≠ Knob.count →
      Breach c (.rawPredict tags) (.tagCount tags.length Knob.count)
  /-- A branch that is predicted has a checkpoint. -/
  | predict {tags : List UInt64} {key : BranchKey} :
    tags.length = Knob.count → key ∈ c.checkpoints →
      Breach c (.predict tags key) (.checkpointLive key)
  /-- A branch that is trained on has no checkpoint. -/
  | update {taken : Bool} {key : BranchKey} :
    key ∉ c.checkpoints → Breach c (.update taken key) (.updateWithoutCheckpoint key)
  /-- A branch that is discarded has no checkpoint. -/
  | killCheckpoint {key : BranchKey} :
    key ∉ c.checkpoints → Breach c (.killCheckpoint key) (.killWithoutCheckpoint key)

/-- What a call answers and where it leads, if it does not fail. -/
inductive Step (c : Correlator) : Call → Reply → Correlator → Prop
  | predict {tags : List UInt64} {key : BranchKey} (count : tags.length = Knob.count)
      (idle : key ∉ c.checkpoints) :
    Step c (.predict tags key) (.voted (favours (c.vote tags))) (c.checkpointed tags key)
  | rawPredict {tags : List UInt64} (count : tags.length = Knob.count) :
    Step c (.rawPredict tags) (.weighed (c.vote tags)) (c.touch tags)
  | update {taken : Bool} {key : BranchKey} {tags : List UInt64}
      (live : c.checkpoints[key]? = some tags) :
    Step c (.update taken key) (.trained (c.training taken tags))
      ((c.learned taken tags).forget key)
  | killCheckpoint {key : BranchKey} (live : key ∈ c.checkpoints) :
    Step c (.killCheckpoint key) .done (c.forget key)
  | reset : Step c .reset .done c.reset

section Steps

variable {config : CorrelatorConfig} {c c' : Correlator} {call : Call} {reply : Reply}

theorem Sound.checkTags_eq_error (h : c.Sound config) {tags : List UInt64}
    (count : tags.length ≠ Knob.count) :
    c.checkTags tags = .error (.tagCount tags.length Knob.count) := by
  rw [checkTags, h.length, if_pos count]
  rfl

/-- A breach is answered by its violation. -/
theorem Sound.apply_of_breach (h : c.Sound config) (width : Tag.Foldable config.foldedTagBits)
    {violation : Violation} (hbreach : c.Breach call violation) :
    c.apply call = .error violation := by
  cases hbreach with
  | tags count =>
    rw [apply, predict, h.checkTags_eq_error count]
    rfl
  | rawTags count =>
    rw [apply, rawPredict, h.checkTags_eq_error count]
    rfl
  | predict count live =>
    rw [apply, h.predict_eq_error width count live]
    rfl
  | update idle =>
    rw [apply, update, Std.ExtTreeMap.getElem?_eq_none idle]
    rfl
  | killCheckpoint idle =>
    have hidle : ¬ c.checkpoints.contains _ = true := idle
    rw [apply, killCheckpoint, if_neg hidle]
    rfl

/-- A step is what the call does. -/
theorem Sound.apply_of_step (h : c.Sound config) (width : Tag.Foldable config.foldedTagBits)
    (hstep : c.Step call reply c') : c.apply call = .ok (reply, c') := by
  cases hstep with
  | predict count idle =>
    rw [apply, h.predict_eq width count idle]
    rfl
  | rawPredict count =>
    rw [apply, h.rawPredict_eq width count]
    rfl
  | update live =>
    rw [apply, h.update_eq live]
    rfl
  | killCheckpoint live =>
    rw [apply, killCheckpoint_eq live]
    rfl
  | reset => rfl

/-- A call breaks the contract or makes a step. -/
theorem breach_or_step (c : Correlator) (call : Call) :
    (∃ violation, c.Breach call violation) ∨ ∃ reply c', c.Step call reply c' := by
  cases call with
  | predict tags key =>
    by_cases count : tags.length = Knob.count
    · by_cases live : key ∈ c.checkpoints
      · exact .inl ⟨_, .predict count live⟩
      · exact .inr ⟨_, _, .predict count live⟩
    · exact .inl ⟨_, .tags count⟩
  | rawPredict tags =>
    by_cases count : tags.length = Knob.count
    · exact .inr ⟨_, _, .rawPredict count⟩
    · exact .inl ⟨_, .rawTags count⟩
  | update taken key =>
    by_cases live : key ∈ c.checkpoints
    · obtain ⟨tags, htags⟩ := Option.isSome_iff_exists.1
        (Std.ExtTreeMap.mem_iff_isSome_getElem?.1 live)
      exact .inr ⟨_, _, .update htags⟩
    · exact .inl ⟨_, .update live⟩
  | killCheckpoint key =>
    by_cases live : key ∈ c.checkpoints
    · exact .inr ⟨_, _, .killCheckpoint live⟩
    · exact .inl ⟨_, .killCheckpoint live⟩
  | reset => exact .inr ⟨_, _, .reset⟩

/-- A call fails if and only if it breaks the contract. -/
theorem Sound.apply_eq_error_iff (h : c.Sound config) (width : Tag.Foldable config.foldedTagBits)
    {violation : Violation} : c.apply call = .error violation ↔ c.Breach call violation := by
  constructor
  · intro hfails
    rcases c.breach_or_step call with ⟨other, hbreach⟩ | ⟨reply, c', hstep⟩
    · rw [h.apply_of_breach width hbreach] at hfails
      exact Except.error.inj hfails ▸ hbreach
    · rw [h.apply_of_step width hstep] at hfails
      cases hfails
  · exact h.apply_of_breach width

/-- A call that is answered makes a step. -/
theorem Sound.step (h : c.Sound config) (width : Tag.Foldable config.foldedTagBits)
    (happly : c.apply call = .ok (reply, c')) : c.Step call reply c' := by
  rcases c.breach_or_step call with ⟨violation, hbreach⟩ | ⟨answer, next, hstep⟩
  · rw [h.apply_of_breach width hbreach] at happly
    cases happly
  · rw [h.apply_of_step width hstep] at happly
    obtain ⟨rfl, rfl⟩ := Prod.mk.inj (Except.ok.inj happly)
    exact hstep

/-! ## What every step keeps -/

theorem Sound.touch (h : c.Sound config) (tags : List UInt64) : (c.touch tags).Sound config where
  frame := (reset_touch c tags).trans h.frame
  touched live := (h.touched live).touchAll tags

theorem Step.sound (hstep : c.Step call reply c') (h : c.Sound config) : c'.Sound config := by
  cases hstep with
  | predict count _ => exact h.checkpointed count _
  | rawPredict _ => exact h.touch _
  | update live => exact (h.learned (h.touched live) _).forget _
  | killCheckpoint _ => exact h.forget _
  | reset => exact h.reset

theorem Step.inRange (hstep : c.Step call reply c') (h : c.Sound config) (hrange : c.InRange)
    (hbits : 2 ≤ config.trainingCounterBits) : c'.InRange := by
  cases hstep with
  | predict _ _ => exact hrange.checkpointed _ _
  | rawPredict _ => exact hrange.touch _
  | update _ => exact (hrange.learned (h.bits.symm ▸ hbits) _ _).forget _
  | killCheckpoint _ => exact hrange.forget _
  | reset => exact h.frame ▸ inRange_ofConfig hbits

end Steps

/-! ## Histories -/

/-- Calls with their replies since the last reset, the latest first. -/
def recent (calls : List Call) (replies : List Reply) : List (Call × Reply) :=
  (calls.zip replies).reverse.takeWhile fun entry => entry.1 != .reset

section Histories

variable {config : CorrelatorConfig} {c c' : Correlator} {calls : List Call} {replies : List Reply}

/-- A list of calls is answered call by call. -/
theorem applyAll_cons_eq_ok {call : Call} :
    c.applyAll (call :: calls) = .ok (replies, c') ↔
      ∃ reply middle rest, c.apply call = .ok (reply, middle) ∧
        middle.applyAll calls = .ok (rest, c') ∧ replies = reply :: rest := by
  rw [applyAll, bind_eq_ok_iff]
  constructor
  · intro h
    obtain ⟨⟨reply, middle⟩, happly, hlater⟩ := h
    obtain ⟨⟨rest, last⟩, hrest, hsame⟩ := bind_eq_ok_iff.1 hlater
    obtain ⟨rfl, rfl⟩ := Prod.mk.inj (Except.ok.inj hsame)
    exact ⟨reply, middle, rest, happly, hrest, rfl⟩
  · intro h
    obtain ⟨reply, middle, rest, happly, hrest, rfl⟩ := h
    exact ⟨(reply, middle), happly, bind_eq_ok_iff.2 ⟨(rest, c'), hrest, rfl⟩⟩

/-- A list of calls that is answered can be cut anywhere. -/
theorem applyAll_append_eq_ok {before after : List Call} :
    c.applyAll (before ++ after) = .ok (replies, c') ↔
      ∃ first middle last, c.applyAll before = .ok (first, middle) ∧
        middle.applyAll after = .ok (last, c') ∧ replies = first ++ last := by
  induction before generalizing c replies with
  | nil =>
    constructor
    · exact fun hafter => ⟨[], c, replies, rfl, hafter, rfl⟩
    · rintro ⟨first, middle, last, hbefore, hafter, rfl⟩
      obtain ⟨rfl, rfl⟩ := Prod.mk.inj (Except.ok.inj hbefore)
      exact hafter
  | cons call before ih =>
    simp only [List.cons_append, applyAll_cons_eq_ok]
    constructor
    · rintro ⟨reply, next, rest, happly, hrest, rfl⟩
      obtain ⟨first, middle, last, hbefore, hafter, rfl⟩ := ih.1 hrest
      exact ⟨_, middle, last, ⟨reply, next, first, happly, hbefore, rfl⟩, hafter, rfl⟩
    · rintro ⟨_, middle, last, ⟨reply, next, first, happly, hbefore, rfl⟩, hafter, rfl⟩
      exact ⟨reply, next, _, happly, ih.2 ⟨first, middle, last, hbefore, hafter, rfl⟩, rfl⟩

/-- The first of some calls have the replies that they have when the others follow. -/
theorem applyAll_take (hrun : c.applyAll calls = .ok (replies, c')) (n : Nat) :
    ∃ middle, c.applyAll (calls.take n) = .ok (replies.take n, middle) := by
  induction calls generalizing c replies n with
  | nil =>
    obtain ⟨rfl, rfl⟩ := Prod.mk.inj (Except.ok.inj hrun)
    exact ⟨c, by simp only [List.take_nil, applyAll]⟩
  | cons call calls ih =>
    cases n with
    | zero => exact ⟨c, rfl⟩
    | succ n =>
      obtain ⟨reply, next, rest, happly, hrest, rfl⟩ := applyAll_cons_eq_ok.1 hrun
      obtain ⟨middle, hmiddle⟩ := ih hrest n
      exact ⟨middle, applyAll_cons_eq_ok.2 ⟨reply, next, _, happly, hmiddle, rfl⟩⟩

/-- What every call keeps holds after any list of calls. -/
theorem applyAll_induction {P : List (Call × Reply) → Correlator → Prop}
    {history : List (Call × Reply)} (start : P history c)
    (keeps : ∀ {history c c' call reply}, P history c → c.apply call = .ok (reply, c') →
      P ((call, reply) :: history) c')
    (hrun : c.applyAll calls = .ok (replies, c')) :
    P ((calls.zip replies).reverse ++ history) c' := by
  induction calls generalizing c history replies with
  | nil =>
    obtain ⟨rfl, rfl⟩ := Prod.mk.inj (Except.ok.inj hrun)
    exact start
  | cons call calls ih =>
    obtain ⟨reply, middle, rest, happly, hrest, rfl⟩ := applyAll_cons_eq_ok.1 hrun
    rw [List.zip_cons_cons, List.reverse_cons, List.append_assoc]
    exact ih (keeps start happly) hrest

/-- What holds of a correlator as it is built, and is kept by every step but a reset, holds of the
calls since the last reset. -/
theorem run_induction {P : List (Call × Reply) → Correlator → Prop}
    (width : Tag.Foldable config.foldedTagBits) (start : P [] (ofConfig config))
    (keeps : ∀ {history c c' call reply}, c.Sound config → P history c → c.Step call reply c' →
      call ≠ .reset → P ((call, reply) :: history) c')
    (hrun : (ofConfig config).applyAll calls = .ok (replies, c)) :
    c.Sound config ∧ P (recent calls replies) c := by
  have hstart : (ofConfig config).Sound config ∧
      P (([] : List (Call × Reply)).takeWhile fun entry => entry.1 != .reset) (ofConfig config) :=
    ⟨sound_ofConfig config, start⟩
  have hkeeps := applyAll_induction
    (P := fun history c => c.Sound config ∧
      P (history.takeWhile fun entry => entry.1 != .reset) c) hstart ?_ hrun
  · rw [List.append_nil] at hkeeps
    exact hkeeps
  · rintro history c c' call reply ⟨sound, h⟩ happly
    have hstep := sound.step width happly
    refine ⟨hstep.sound sound, ?_⟩
    by_cases hcall : call = .reset
    · -- Nothing before a reset counts, and a reset leaves the correlator as it was built.
      subst hcall
      cases hstep
      rw [sound.frame]
      exact start
    · have hcounts : ((call, reply).1 != Call.reset) = true := bne_iff_ne.2 hcall
      rw [List.takeWhile_cons, if_pos hcounts]
      exact keeps sound h hstep hcall

theorem sound_of_run (width : Tag.Foldable config.foldedTagBits)
    (hrun : (ofConfig config).applyAll calls = .ok (replies, c)) : c.Sound config :=
  (run_induction (P := fun _ _ => True) width trivial (fun _ _ _ _ => trivial) hrun).1

theorem inRange_of_run (width : Tag.Foldable config.foldedTagBits)
    (hbits : 2 ≤ config.trainingCounterBits)
    (hrun : (ofConfig config).applyAll calls = .ok (replies, c)) : c.InRange :=
  (run_induction (P := fun _ c => c.InRange) width (inRange_ofConfig hbits)
    (fun sound hrange hstep _ => hstep.inRange sound hrange hbits) hrun).2

end Histories

end Correlator

end BranchSelector
