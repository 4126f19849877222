import BranchSelector.Proofs.Correlator.History

/-!
# The discipline of the checkpoints

A prediction opens a checkpoint, and an update or a discard consumes it. However the calls
interleave, nothing else decides whether a call is answered, and a checkpoint that is open has all
that its update will need (`discipline_of_run`).

The checkpoints that are open are counted step by step (`Step.balance`): a call that opens one
finds its branch without, and a call that consumes one finds it there.
-/

namespace BranchSelector

namespace Correlator

/-- A call that leaves a checkpoint behind. -/
def Call.opens : Call → Bool
  | .predict _ _ => true
  | .rawPredict _ | .update _ _ | .killCheckpoint _ | .reset => false

/-- A call that consumes a checkpoint. -/
def Call.consumes : Call → Bool
  | .update _ _ | .killCheckpoint _ => true
  | .predict _ _ | .rawPredict _ | .reset => false

section Balance

variable {config : CorrelatorConfig} {history : List (Call × Reply)} {c c' : Correlator}
  {call : Call} {reply : Reply}

theorem liveCheckpoints_checkpointed {key : BranchKey} (idle : key ∉ c.checkpoints)
    (tags : List UInt64) :
    (c.checkpointed tags key).liveCheckpoints = c.liveCheckpoints + 1 :=
  Std.ExtTreeMap.size_insert.trans (if_neg idle)

theorem liveCheckpoints_forget {key : BranchKey} (live : key ∈ c.checkpoints) :
    (c.forget key).liveCheckpoints + 1 = c.liveCheckpoints := by
  have hsize : (c.checkpoints.erase key).size = c.checkpoints.size - 1 :=
    Std.ExtTreeMap.size_erase.trans (if_pos live)
  have hpos : c.checkpoints.size ≠ 0 := by
    intro hzero
    have hempty := Std.ExtTreeMap.eq_empty_iff_size_eq_zero.2 hzero
    exact Std.ExtTreeMap.eq_empty_iff_forall_not_mem.1 hempty key live
  show (c.checkpoints.erase key).size + 1 = c.checkpoints.size
  omega

/-- What a step but a reset does to the number of open checkpoints. -/
theorem Step.balance (hstep : c.Step call reply c') (hcall : call ≠ .reset) :
    c'.liveCheckpoints + (if call.consumes then 1 else 0) =
      c.liveCheckpoints + if call.opens then 1 else 0 := by
  cases hstep with
  | predict _ idle => exact liveCheckpoints_checkpointed idle _
  | rawPredict _ => rfl
  | update live =>
    have hmem : _ ∈ c.checkpoints :=
      Std.ExtTreeMap.mem_iff_isSome_getElem?.2 (Option.isSome_iff_exists.2 ⟨_, live⟩)
    exact liveCheckpoints_forget hmem
  | killCheckpoint live => exact liveCheckpoints_forget live
  | reset => exact absurd rfl hcall

/-- The checkpoints that were opened are open or consumed. -/
def Balanced (history : List (Call × Reply)) (c : Correlator) : Prop :=
  c.liveCheckpoints + history.countP (·.1.consumes) = history.countP (·.1.opens)

theorem balanced_ofConfig (config : CorrelatorConfig) : (ofConfig config).Balanced [] := by
  show (∅ : Std.ExtTreeMap BranchKey (List UInt64)).size + 0 = 0
  rw [Std.ExtTreeMap.size_empty]

theorem Balanced.step (h : c.Balanced history) (hstep : c.Step call reply c')
    (hcall : call ≠ .reset) : c'.Balanced ((call, reply) :: history) := by
  have hbalance := hstep.balance hcall
  rw [Balanced, List.countP_cons, List.countP_cons]
  rw [Balanced] at h
  dsimp only
  omega

end Balance

/-- Every knob has its table. -/
theorem Sound.exists_table? {config : CorrelatorConfig} {c : Correlator} (h : c.Sound config)
    (knob : Knob) : ∃ table, c.table? knob = some table := by
  have hmem : knob ∈ Knob.all := by cases knob <;> decide
  have hindex : Knob.all.idxOf knob < c.tables.length := by
    rw [h.length]
    exact List.idxOf_lt_length_of_mem hmem
  exact ⟨_, List.getElem?_eq_getElem hindex⟩

/-! ## Histories -/

section Histories

variable {c : Correlator} {calls : List Call} {replies : List Reply}

/-- After any calls that are answered the next call fails if and only if it is a breach: with one
tag for each knob, a prediction fails if and only if its branch has a checkpoint, an update and a
discard fail if and only if their branch has none, and nothing else fails. Sums and tables can
always be read, and no sum or counter runs over its word.

Of the calls since the last reset, a checkpoint holds the tags of the prediction that has opened
it, and each of them has an entry in its table, so that training finds it. The checkpoints that
were opened and not consumed are those that are open. Discarding one touches nothing else. -/
theorem discipline_of_run {config : Config} (valid : config.Valid)
    (hrun : (ofConfig config.correlator).applyAll calls = .ok (replies, c)) :
    (∀ call violation, c.apply call = .error violation ↔ c.Breach call violation) ∧
      (∀ tags, c.sum tags = .ok (c.vote tags)) ∧ (∀ knob, ∃ table, c.table? knob = some table) ∧
      c.Fits ∧
      (∀ key, c.checkpoints[key]? = kept key (recent calls replies)) ∧
      (∀ (key : BranchKey) (tags : List UInt64), c.checkpoints[key]? = some tags →
        TouchedAll c.tables tags ∧ ∀ taken, ∃ tables, trainAll taken c.tables tags = .ok tables) ∧
      c.liveCheckpoints + (recent calls replies).countP (·.1.consumes) =
        (recent calls replies).countP (·.1.opens) ∧
      ∀ key c', c.killCheckpoint key = .ok c' →
        c'.tables = c.tables ∧ c'.threshold = c.threshold ∧
          c'.checkpoints = c.checkpoints.erase key := by
  have width := foldable_of_valid valid
  have hfollows := follows_of_run width hrun
  have sound := hfollows.sound
  have hrange := inRange_of_run width valid.trainingCounterBits.1 hrun
  have hbalanced : c.Balanced (recent calls replies) :=
    (run_induction (P := fun history c => c.Balanced history) width
      (balanced_ofConfig config.correlator) (fun _ h hstep hcall => h.step hstep hcall) hrun).2
  have hfits := hrange.fits sound valid.counterBits.2 valid.trainingCounterBits.2
  refine ⟨fun call violation => sound.apply_eq_error_iff width, sound.sum_eq width,
    sound.exists_table?, hfits, hfollows.checkpoints, ?_, hbalanced, ?_⟩
  · intro key tags live
    have htouched := sound.touched live
    exact ⟨htouched, fun taken => ⟨_, trainAll_eq htouched taken⟩⟩
  · intro key c' hkill
    by_cases live : key ∈ c.checkpoints
    · rw [killCheckpoint_eq live] at hkill
      obtain rfl := Except.ok.inj hkill
      exact ⟨rfl, rfl, rfl⟩
    · have hidle : ¬ c.checkpoints.contains key = true := live
      rw [killCheckpoint, if_neg hidle] at hkill
      cases hkill

/-- Two branches are predicted, and the later one resolves. -/
def halfResolved : List Call :=
  overlapping.take 3

theorem discipline_of_run_halfResolved :
    ({} : Config).Valid ∧ ∃ c,
      (ofConfig {}).applyAll halfResolved =
        .ok ([.voted true, .voted true, .trained firstTraining], c) ∧
      c.apply (.update true ⟨2, 0⟩) = .error (.updateWithoutCheckpoint ⟨2, 0⟩) ∧
      TouchedAll c.tables (List.replicate Knob.count 5) ∧
      c.liveCheckpoints = 1 := by
  have valid : ({} : Config).Valid := Config.validate_eq_ok_iff.1 rfl
  have hanswers : ((ofConfig {}).applyAll halfResolved).map Prod.fst =
      .ok [.voted true, .voted true, .trained firstTraining] := by decide +kernel
  obtain ⟨⟨replies, c⟩, hrun, rfl⟩ := map_eq_ok_iff.1 hanswers
  obtain ⟨hbreach, -, -, -, hkept, hlive, hcount, -⟩ := discipline_of_run valid hrun
  have hnone : c.checkpoints[(⟨2, 0⟩ : BranchKey)]? = none := hkept ⟨2, 0⟩
  have hidle : (⟨2, 0⟩ : BranchKey) ∉ c.checkpoints := by
    rw [Std.ExtTreeMap.mem_iff_isSome_getElem?, hnone]
    exact Bool.false_ne_true
  exact ⟨valid, c, hrun, (hbreach _ _).2 (.update hidle), (hlive _ _ (hkept ⟨1, 0⟩)).1,
    Nat.succ.inj hcount⟩

end Histories

end Correlator

end BranchSelector
