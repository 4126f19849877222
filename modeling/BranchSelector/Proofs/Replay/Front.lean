import BranchSelector.Proofs.Replay.Lockstep

/-!
# What the fetches alone determine

Knobs, windows and gshare's history move when a branch is fetched, by what its record says. The
direction that was predicted plays no part in it, and a resolution touches none of the three
(`Selector.history_of_consume`). So wherever a replay may be found, they are functions of the
records that were entered (`Reaches.front_eq`, `Reaches.history_eq`), and the same is true of
what a prediction keeps of its branch: the tags at the correlator and the counter that gshare has
read (`run_front`).

Two replays of the same records around gshare predictors of one size, whose windows are configured
alike, are therefore the same in all of this after every record, whatever their delays, their
correlators, their filters and their selection modes are (`front_eq_of_runs`).
-/

namespace BranchSelector

open Branch

namespace Gshare

variable {bits : Nat} {g g' : Gshare bits} {key : BranchKey}

/-- The history after a branch is fetched. -/
def follow (history : BitVec bits) (branch : Branch) : BitVec bits :=
  if branch.kind.isConditional then (history.concat branch.taken).setWidth bits else history

theorem history_fetchBaseline (g : Gshare bits) (branch : Branch) (key : BranchKey)
    (direction : Bool) :
    (Selector.fetchBaseline g branch key direction).history = follow g.history branch := by
  unfold Selector.fetchBaseline follow
  split <;> rfl

theorem history_update {taken : Bool} (h : g.update key taken = .ok g') :
    g'.history = g.history := by
  unfold update at h
  split at h
  · exact Except.ok.inj h ▸ rfl
  · cases h

theorem history_killCheckpoint (h : g.killCheckpoint key = .ok g') : g'.history = g.history := by
  unfold killCheckpoint at h
  split at h
  · exact Except.ok.inj h ▸ rfl
  · cases h

end Gshare

namespace Selector

variable {bits : Nat} {s : Selector (Gshare bits)}

/-- Training and discarding leave the history alone. -/
theorem history_of_consume {key : BranchKey} {pc : UInt64} {predicted taken : Bool}
    {nextPc : UInt64} {g : Gshare bits} (h : s.consume key pc predicted taken nextPc = .ok g) :
    g.history = s.baseline.history := by
  unfold consume at h
  split at h
  · exact Gshare.history_update h
  · exact Gshare.history_killCheckpoint h

/-- What a selector keeps of a branch in flight: its tags at the correlator, and at gshare the
counter that its prediction has read. -/
structure Keeps (s : Selector (Gshare bits)) (key : BranchKey) (tags : List UInt64)
    (index : BitVec bits) : Prop where
  tags : s.correlator.checkpoints[key]? = some tags
  index : s.baseline.checkpoints[key]? = some index

/-- A prediction keeps the tags of the knobs and the counter under the current history. -/
theorem keeps_predicted (s : Selector (Gshare bits)) (key : BranchKey) (pc : UInt64) :
    (s.predicted key pc).Keeps key s.tags (s.baseline.index pc) where
  tags := Std.ExtTreeMap.getElem?_insert_self
  index := Std.ExtTreeMap.getElem?_insert_self

end Selector

namespace Replay

/-- The knobs and the windows are those of the records that were entered. -/
theorem Reaches.front_eq {β : Type} [Baseline β] {C : Baseline.Contract β} {config : Config}
    {baseline : β} {delay : Nat} {done : List Branch} {settled : List Resolution} {r : Replay β}
    (h : Reaches (start (Selector.ofConfig config baseline) delay) done settled r)
    (ordered : Ordered done) (hs : (Selector.ofConfig config baseline).setup.Coherent C) :
    (⟨r.selector.knobs, r.selector.windows⟩ : Front) =
      done.foldl Front.feed (Front.ofConfig config.windows) := by
  obtain ⟨-, past, later, hlockstep⟩ := h.lockstep ordered hs
  exact hlockstep.front

variable {bits : Nat}

/-- The history is that of the records that were entered. -/
theorem Reaches.history_eq {C : Baseline.Contract (Gshare bits)} {s : Selector (Gshare bits)}
    {delay : Nat} {done : List Branch} {settled : List Resolution} {r : Replay (Gshare bits)}
    (h : Reaches (start s delay) done settled r) (ordered : Ordered done)
    (hs : s.setup.Coherent C) :
    r.selector.baseline.history = done.foldl Gshare.follow 0 := by
  refine (h.induction
    (P := fun done _ r => r.selector.baseline.history = done.foldl Gshare.follow 0)
    ordered hs rfl ?_ ?_ ?_).2
  · -- The prediction before the fetch only adds a checkpoint.
    intro done settled r branch _ _ _ _ ih
    rw [List.foldl_concat, ← ih]
    exact Gshare.history_fetchBaseline _ branch _ _
  · intro done settled r branch _ _ _ ih
    rw [List.foldl_concat, ← ih]
    exact Gshare.history_fetchBaseline _ branch _ _
  · intro done settled r p ps provider tags baseline _ _ hretires ih
    exact (Selector.history_of_consume hretires.consumed).trans ih

/-- The fetch side of a replay is that of the records in `done`. If the next of the records in
`rest` is conditional, it can be predicted, and what the selector keeps of it then is determined by
the records as well. -/
structure FrontAt (config : WindowConfig) (done rest : List Branch) (r : Replay (Gshare bits)) :
    Prop where
  front : (⟨r.selector.knobs, r.selector.windows⟩ : Front) =
    done.foldl Front.feed (Front.ofConfig config)
  history : r.selector.baseline.history = done.foldl Gshare.follow 0
  next : ∀ branch ∈ rest.head?, branch.kind.isConditional = true →
    ∃ prediction s, r.selector.predict branch.seqNo branch.piece branch.pc = .ok (prediction, s) ∧
      s.Keeps branch.ident (done.foldl Front.feed (Front.ofConfig config)).tags
        ((branch.pc >>> 2).toBitVec.setWidth bits ^^^ done.foldl Gshare.follow 0)

/-- Around gshare a replay of records in order is answered, and its fetch side is that of the
records. -/
theorem run_front {config : Config} {g : Gshare bits} {s : Selector (Gshare bits)}
    (created : Selector.create config g = .ok s) {done rest : List Branch}
    (ordered : Ordered (done ++ rest)) (delay : Nat) :
    ∃ feds r, (start s delay).run done = .ok (feds, r) ∧ r.FrontAt config.windows done rest := by
  obtain ⟨valid, rfl⟩ := Selector.create_eq_ok created
  have hs := Selector.coherent_setup_gshare valid g
  have hdone := ordered.sublist (List.sublist_append_left done rest)
  obtain ⟨⟨feds, r⟩, hrun, hreaches, -⟩ :=
    (Reaches.refl.run_ends hs hdone (Nat.zero_le delay)).exists_ok
  have hfront := hreaches.front_eq hdone hs
  have hhistory := hreaches.history_eq hdone hs
  refine ⟨feds, r, hrun, hfront, hhistory, fun branch hbranch hkind => ?_⟩
  have hnext : Ordered (done ++ [branch]) := by
    refine ordered.sublist (List.Sublist.append_left ?_ done)
    exact List.singleton_sublist.2 (List.mem_of_mem_head? hbranch)
  have hqueued := hreaches.queued hdone hs
  have hkey := key_eq_ok (hnext.pieces branch (by simp))
  have hkeeps := r.selector.keeps_predicted branch.ident branch.pc
  rw [show r.selector.tags = _ from congrArg Front.tags hfront, Gshare.index, hhistory] at hkeeps
  exact ⟨_, _, hqueued.coherent.predict_eq hkey (hqueued.idle hnext) branch.pc, hkeeps⟩

/-- Two replays of the same records around gshare predictors of one size, whose windows are
configured alike. Delays, correlators, filters and selection modes may differ. Both can be fed all
records, and after each of them the knobs, the windows with their queues of block sizes and the
histories are the same. So are the tags and the counters that the predictions of the next record
keep, if it is conditional. -/
theorem front_eq_of_runs {config₁ config₂ : Config} {g₁ g₂ : Gshare bits}
    {s₁ s₂ : Selector (Gshare bits)} (created₁ : Selector.create config₁ g₁ = .ok s₁)
    (created₂ : Selector.create config₂ g₂ = .ok s₂)
    (windows : config₁.windows = config₂.windows) {records : List Branch}
    (ordered : Ordered records) (delay₁ delay₂ : Nat) {done rest : List Branch}
    (split : done ++ rest = records) :
    ∃ feds₁ r₁ feds₂ r₂,
      (start s₁ delay₁).run done = .ok (feds₁, r₁) ∧
      (start s₂ delay₂).run done = .ok (feds₂, r₂) ∧
      r₁.selector.windows = r₂.selector.windows ∧
      r₁.selector.knobs = r₂.selector.knobs ∧
      r₁.selector.baseline.history = r₂.selector.baseline.history ∧
      ∀ branch ∈ rest.head?, branch.kind.isConditional = true →
        ∃ prediction₁ t₁ prediction₂ t₂ tags index,
          r₁.selector.predict branch.seqNo branch.piece branch.pc = .ok (prediction₁, t₁) ∧
          r₂.selector.predict branch.seqNo branch.piece branch.pc = .ok (prediction₂, t₂) ∧
          t₁.Keeps branch.ident tags index ∧ t₂.Keeps branch.ident tags index := by
  subst split
  obtain ⟨feds₁, r₁, hrun₁, hfront₁⟩ := run_front created₁ ordered delay₁
  obtain ⟨feds₂, r₂, hrun₂, hfront₂⟩ := run_front created₂ ordered delay₂
  rw [windows] at hfront₁
  have hfront := hfront₁.front.trans hfront₂.front.symm
  refine ⟨feds₁, r₁, feds₂, r₂, hrun₁, hrun₂, congrArg Front.windows hfront,
    congrArg Front.knobs hfront, hfront₁.history.trans hfront₂.history.symm, ?_⟩
  intro branch hbranch hkind
  obtain ⟨prediction₁, t₁, hpredict₁, hkeeps₁⟩ := hfront₁.next branch hbranch hkind
  obtain ⟨prediction₂, t₂, hpredict₂, hkeeps₂⟩ := hfront₂.next branch hbranch hkind
  exact ⟨prediction₁, t₁, prediction₂, t₂, _, _, hpredict₁, hpredict₂, hkeeps₁, hkeeps₂⟩

/-- A Bloom filter of eight bits without a delay, and raw strength over an exact set with a delay
of two: before the last of four records all of the others wait in the one replay and none does in
the other. -/
theorem front_eq_of_runs_shortTrace :
    let config₁ : Config := { filter.bits := 8, arbiter.mode := .bloom }
    let config₂ : Config :=
      { correlator := { foldedTagBits := 4, useTheta := true }, arbiter.correlatorEnabled := true }
    ∃ feds₁ r₁ feds₂ r₂ prediction₁ t₁ prediction₂ t₂ tags index,
      (start (Selector.ofConfig config₁ (Gshare.fresh 4)) 0).run (shortTrace.take 3) =
        .ok (feds₁, r₁) ∧
      (start (Selector.ofConfig config₂ (Gshare.fresh 4)) 2).run (shortTrace.take 3) =
        .ok (feds₂, r₂) ∧
      r₁.selector.windows = r₂.selector.windows ∧
      r₁.selector.knobs = r₂.selector.knobs ∧
      r₁.selector.baseline.history = r₂.selector.baseline.history ∧
      r₁.selector.predict 3 0 0x40 = .ok (prediction₁, t₁) ∧
      r₂.selector.predict 3 0 0x40 = .ok (prediction₂, t₂) ∧
      t₁.Keeps ⟨3, 0⟩ tags index ∧ t₂.Keeps ⟨3, 0⟩ tags index := by
  intro config₁ config₂
  have hcreated₁ : Selector.create config₁ (Gshare.fresh 4) =
    .ok (Selector.ofConfig config₁ (Gshare.fresh 4)) := rfl
  have hcreated₂ : Selector.create config₂ (Gshare.fresh 4) =
    .ok (Selector.ofConfig config₂ (Gshare.fresh 4)) := rfl
  obtain ⟨feds₁, r₁, feds₂, r₂, hrun₁, hrun₂, hwindows, hknobs, hhistory, hnext⟩ :=
    front_eq_of_runs hcreated₁ hcreated₂ rfl ordered_shortTrace 0 2
      (List.take_append_drop 3 shortTrace)
  obtain ⟨prediction₁, t₁, prediction₂, t₂, tags, index, hpredict₁, hpredict₂, hkeeps₁, hkeeps₂⟩ :=
    hnext ⟨3, 0, 0x40, .condBranch, true, 0x80⟩ rfl rfl
  exact ⟨feds₁, r₁, feds₂, r₂, prediction₁, t₁, prediction₂, t₂, tags, index, hrun₁, hrun₂,
    hwindows, hknobs, hhistory, hpredict₁, hpredict₂, hkeeps₁, hkeeps₂⟩

end Replay

end BranchSelector
