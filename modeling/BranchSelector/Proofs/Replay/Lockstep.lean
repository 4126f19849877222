import BranchSelector.Proofs.Correlator.Lesson
import BranchSelector.Baseline.Static
import BranchSelector.Proofs.Replay.Run

/-!
# What the correlator learns from a replay

The tags of a prediction come from the knobs and the windows, which follow the fetches only.
So the lessons of a replay are a function of its records (`Replay.lessons`), and branches
resolve in the order of their records. Wherever a replay may be found, its correlator is the
one that has studied the lessons of the branches that have resolved, with the tags of those
that wait touched ahead of time (`Replay.Lockstep`).

Once no branch waits, nothing is left of the delay, of the votes that were followed, of the
filter or of the baseline: replays of the same records whose correlators and windows are
configured alike end with the same correlator (`correlator_eq_of_play`).
-/

namespace BranchSelector

open Branch

/-- The knobs and the windows, from which the tags of a prediction are taken. -/
structure Front where
  knobs : Knobs
  windows : Windows

namespace Front

/-- The tags of a prediction. -/
def tags (front : Front) : List UInt64 :=
  (front.knobs.refresh front.windows.counts).tags

/-- What a record does to knobs and windows. A prediction refreshes the knobs first. -/
def feed (front : Front) (branch : Branch) : Front where
  knobs :=
    let knobs := if branch.kind.isConditional then front.knobs.refresh front.windows.counts
      else front.knobs
    Selector.fetchKnobs knobs branch.kind branch.taken
  windows := Selector.fetchWindows front.windows branch

/-- The knobs and the windows of a replay that starts. -/
def ofConfig (config : WindowConfig) : Front :=
  ⟨{}, (Windows.ofConfig config).reset⟩

end Front

/-- The lesson of a record, if it is that of a conditional branch. -/
def Front.lesson? (front : Front) (branch : Branch) : List Lesson :=
  if branch.kind.isConditional then [⟨branch.ident, front.tags, branch.taken⟩] else []

namespace Replay

/-- The lessons of some records, in order. -/
def lessons (front : Front) : List Branch → List Lesson
  | [] => []
  | branch :: branches => front.lesson? branch ++ lessons (front.feed branch) branches

theorem lessons_concat (front : Front) (done : List Branch) (branch : Branch) :
    lessons front (done ++ [branch]) =
      lessons front done ++ (done.foldl Front.feed front).lesson? branch := by
  induction done generalizing front with
  | nil => exact List.append_nil _
  | cons first done ih =>
    rw [List.cons_append, lessons, lessons, ih, List.append_assoc]
    rfl

/-- A waiting branch and its lesson, which the checkpoint of the branch keeps. -/
structure Awaits (c : Correlator) (p : Pending) (lesson : Lesson) : Prop where
  key : p.branch.ident = lesson.key
  taken : p.branch.taken = lesson.taken
  tags : c.checkpoints[lesson.key]? = some lesson.tags
  count : lesson.tags.length = Knob.count

/-- A replay keeps step with its lessons: those in `past` are studied, and those in `later`
belong to the branches that wait. -/
structure Lockstep {β : Type} (front : Front) (c : Correlator) (done : List Branch)
    (r : Replay β) (past later : List Lesson) : Prop where
  lessons : lessons front done = past ++ later
  front : (⟨r.selector.knobs, r.selector.windows⟩ : Front) = done.foldl Front.feed front
  correlator : r.selector.correlator.bare = (c.studied past).1.foretouched later
  skips : r.selector.stats.thresholdSkips = (c.studied past).2
  waiting : List.Forall₂ (Awaits r.selector.correlator) r.pending later

section Moves

variable {β : Type} {front : Front} {c : Correlator} {done : List Branch} {r : Replay β}
  {past later : List Lesson} {branch : Branch}

/-- The tags that a prediction takes are those of the records before. -/
theorem Lockstep.tags_eq (h : Lockstep front c done r past later) :
    r.selector.tags = (done.foldl Front.feed front).tags :=
  congrArg Front.tags h.front

variable [Baseline β] {C : Baseline.Contract β}

/-- A conditional branch touches its tags, and its lesson waits. -/
theorem Lockstep.launched (h : Lockstep front c done r past later) (queued : r.Queued C done)
    (ordered : Ordered (done ++ [branch])) (hkind : branch.kind.isConditional = true) :
    Lockstep front c (done ++ [branch]) (r.launched branch) past
      (later ++ [⟨branch.ident, r.selector.tags, branch.taken⟩]) where
  lessons := by
    rw [lessons_concat, h.lessons, Front.lesson?, if_pos hkind, ← h.tags_eq, List.append_assoc]
  front := by
    rw [List.foldl_concat, ← h.front, Front.feed, if_pos hkind]
    rfl
  correlator := by
    rw [Correlator.foretouched_append, ← h.correlator]
    rfl
  skips := by
    rw [← h.skips]
    show (r.selector.stats.recordPrediction _).thresholdSkips = _
    cases r.selector.provider branch.pc <;> rfl
  waiting := by
    -- No branch that waits has the key of the new one, so their checkpoints are untouched.
    have hidle : branch.ident ∉ r.selector.correlator.checkpoints :=
      mt (queued.coherent.checkpoints _).1 (queued.idle ordered)
    refine List.rel_append (h.waiting.imp fun p lesson hwaits => ?_) (.cons ?_ .nil)
    · have hne : lesson.key ≠ branch.ident := by
        rintro heq
        have hnone := Std.ExtTreeMap.getElem?_eq_none hidle
        rw [← heq, hwaits.tags] at hnone
        cases hnone
      refine ⟨hwaits.key, hwaits.taken, ?_, hwaits.count⟩
      show (r.selector.correlator.checkpoints.insert branch.ident _)[lesson.key]? = _
      rw [getElem?_insert_of_ne hne.symm, hwaits.tags]
    · refine ⟨rfl, rfl, ?_, Selector.length_tags _⟩
      exact Std.ExtTreeMap.getElem?_insert_self

/-- A branch that is not conditional teaches nothing. -/
theorem Lockstep.passed (h : Lockstep front c done r past later)
    (hkind : branch.kind.isConditional = false) :
    Lockstep front c (done ++ [branch]) (r.passed branch) past later where
  lessons := by
    have hnone : ¬ branch.kind.isConditional = true := by simp [hkind]
    rw [lessons_concat, h.lessons, Front.lesson?, if_neg hnone, List.append_nil]
  front := by
    have hnone : ¬ branch.kind.isConditional = true := by simp [hkind]
    rw [List.foldl_concat, ← h.front, Front.feed, if_neg hnone]
    rfl
  correlator := h.correlator
  skips := h.skips
  waiting := h.waiting

/-- The oldest waiting branch is trained on as if its lesson were studied at once. -/
theorem Lockstep.retired (h : Lockstep front c done r past later) (queued : r.Queued C done)
    (ordered : Ordered done) {p : Pending} {ps : List Pending} {provider : Provider}
    {tags : List UInt64} {baseline : β} (hretires : r.Retires p ps provider tags baseline) :
    ∃ lesson rest, later = lesson :: rest ∧
      Lockstep front c done (r.retired p ps provider tags baseline) (past ++ [lesson]) rest := by
  have hwaiting := h.waiting
  rw [hretires.pending] at hwaiting
  obtain ⟨lesson, rest, holdest, hrest, rfl⟩ := List.forall₂_cons_left_iff.1 hwaiting
  have htags : tags = lesson.tags := by
    have hcheckpoint := hretires.tags
    rw [holdest.key, holdest.tags] at hcheckpoint
    exact (Option.some.inj hcheckpoint).symm
  have hcount : lesson.tags.length = (c.studied past).1.tables.length := by
    have hlength := queued.coherent.correlator.length
    rw [show r.selector.correlator.tables = r.selector.correlator.bare.tables from rfl,
      h.correlator, Correlator.length_foretouched] at hlength
    rw [hlength, holdest.count]
  subst htags
  refine ⟨lesson, rest, rfl, ?_, h.front, ?_, ?_, ?_⟩
  · rw [h.lessons, List.append_assoc]
    rfl
  · -- Training came late, after tags of others were touched, and that makes no difference.
    show (r.selector.correlator.bare).learned p.branch.taken lesson.tags = _
    rw [h.correlator, holdest.taken, Correlator.learned_foretouched_cons hcount,
      Correlator.studied_concat]
  · show r.selector.stats.thresholdSkips +
      (if (r.selector.correlator.bare.training p.branch.taken lesson.tags).trained then 0 else 1) =
        _
    rw [h.skips, h.correlator, holdest.taken, Correlator.training_foretouched,
      Correlator.studied_concat]
    rfl
  · -- The checkpoint that goes away is not one of those that still wait.
    have hne : ∀ q ∈ ps, p.branch.ident ≠ q.branch.ident := fun q hq =>
      queued.ident_ne ordered hretires.pending hq
    refine ((List.forall₂_and_left ps rest).2 ⟨hne, hrest⟩).imp fun q other hboth => ?_
    obtain ⟨hdiffers, hwaits⟩ := hboth
    refine ⟨hwaits.key, hwaits.taken, ?_, hwaits.count⟩
    show (r.selector.correlator.checkpoints.erase p.branch.ident)[other.key]? = _
    rw [getElem?_erase_of_ne (hwaits.key ▸ hdiffers), hwaits.tags]

end Moves

/-- A replay that starts has no lessons. -/
theorem lockstep_start {β : Type} [Baseline β] (config : Config) (baseline : β) (delay : Nat) :
    Lockstep (Front.ofConfig config.windows) (Correlator.ofConfig config.correlator) []
      (start (Selector.ofConfig config baseline) delay) [] [] where
  lessons := rfl
  front := rfl
  correlator := Correlator.reset_ofConfig config.correlator
  skips := rfl
  waiting := .nil

/-- A replay keeps step with its lessons wherever it may be found. -/
theorem Reaches.lockstep {β : Type} [Baseline β] {C : Baseline.Contract β} {config : Config}
    {baseline : β} {delay : Nat} {done : List Branch} {settled : List Resolution} {r : Replay β}
    (h : Reaches (start (Selector.ofConfig config baseline) delay) done settled r)
    (ordered : Ordered done) (hs : (Selector.ofConfig config baseline).setup.Coherent C) :
    r.Queued C done ∧ ∃ past later, Lockstep (Front.ofConfig config.windows)
      (Correlator.ofConfig config.correlator) done r past later := by
  refine h.induction (P := fun done _ r => ∃ past later, Lockstep _ _ done r past later) ordered hs
    ⟨[], [], lockstep_start config baseline delay⟩ ?_ ?_ ?_
  · rintro done settled r branch queued ordered - hkind ⟨past, later, hstep⟩
    exact ⟨past, _, hstep.launched queued ordered hkind⟩
  · rintro done settled r branch queued ordered hkind ⟨past, later, hstep⟩
    exact ⟨past, later, hstep.passed hkind⟩
  · rintro done settled r p ps provider tags baseline queued ordered hretires ⟨past, later, hstep⟩
    obtain ⟨lesson, rest, -, hrest⟩ := hstep.retired queued ordered hretires
    exact ⟨past ++ [lesson], rest, hrest⟩

/-- Feeds records in order and resolves every branch that waits in the end. -/
def play {β : Type} [Baseline β] (r : Replay β) (records : List Branch) :
    Except Violation (Replay β) := do
  let (_, r) ← r.run records
  let (_, r) ← r.drain
  return r

/-- A replay of records in order, around a baseline of which nothing is known: it ends where the
correlator has studied all lessons, or it is stopped by the baseline. -/
theorem play_ends {β : Type} [Baseline β] {config : Config} {baseline : β} {s : Selector β}
    (created : Selector.create config baseline = .ok s) {records : List Branch}
    (ordered : Ordered records) (delay : Nat) :
    Ends ((start s delay).play records)
      (fun r =>
        let studied := (Correlator.ofConfig config.correlator).studied
          (lessons (Front.ofConfig config.windows) records)
        r.selector.correlator = studied.1 ∧ r.selector.correlator.checkpoints = ∅ ∧
          r.selector.stats.thresholdSkips = studied.2)
      (Baseline.Refuses β) := by
  obtain ⟨valid, rfl⟩ := Selector.create_eq_ok created
  have hs : (Selector.ofConfig config baseline).setup.Coherent (Baseline.anyContract β) :=
    (Selector.coherent_ofConfig valid trivial).setup
  refine (Reaches.refl.run_ends hs ordered (Nat.zero_le _)).bind fun answer hanswer => ?_
  obtain ⟨hreaches, -⟩ := hanswer
  refine (hreaches.drain_ends ordered hs).bind fun last hlast => .of_eq_ok rfl ?_
  obtain ⟨hlast, hpending⟩ := hlast
  obtain ⟨queued, past, later, hstep⟩ := hlast.lockstep ordered hs
  -- No branch waits, so all lessons are studied and no tags are touched ahead of time.
  have hwaiting := hstep.waiting
  rw [hpending] at hwaiting
  obtain rfl := List.forall₂_nil_left_iff.1 hwaiting
  have hlessons := hstep.lessons
  rw [List.append_nil] at hlessons
  subst hlessons
  have hbare := (queued.eq_empty hpending).2
  have hcorrelator := hstep.correlator
  rw [Correlator.bare, ← hbare] at hcorrelator
  exact ⟨hcorrelator, hbare, hstep.skips⟩

/-- Replays of the same records whose correlators and windows are configured alike. Whatever
the delays, the selection modes, the filters and the baselines are: if the baselines let both
of them end, then the correlators are the same, without checkpoints, and as many updates left
the weights alone in one as in the other. Nothing but a baseline can stop a replay. -/
theorem correlator_eq_of_play {β₁ β₂ : Type} [Baseline β₁] [Baseline β₂] {config₁ config₂ : Config}
    {baseline₁ : β₁} {baseline₂ : β₂} {s₁ : Selector β₁} {s₂ : Selector β₂}
    (created₁ : Selector.create config₁ baseline₁ = .ok s₁)
    (created₂ : Selector.create config₂ baseline₂ = .ok s₂)
    (correlator : config₁.correlator = config₂.correlator)
    (windows : config₁.windows = config₂.windows) {records : List Branch}
    (ordered : Ordered records) (delay₁ delay₂ : Nat) :
    (∀ violation, (start s₁ delay₁).play records = .error violation →
      Baseline.Refuses β₁ violation) ∧
    (∀ violation, (start s₂ delay₂).play records = .error violation →
      Baseline.Refuses β₂ violation) ∧
    ∀ r₁ r₂, (start s₁ delay₁).play records = .ok r₁ → (start s₂ delay₂).play records = .ok r₂ →
      r₁.selector.correlator = r₂.selector.correlator ∧
      r₁.selector.correlator.text = r₂.selector.correlator.text ∧
      r₁.selector.correlator.checkpoints = ∅ ∧
      r₁.selector.stats.thresholdSkips = r₂.selector.stats.thresholdSkips := by
  have hends₁ := play_ends created₁ ordered delay₁
  have hends₂ := play_ends created₂ ordered delay₂
  refine ⟨fun violation => hends₁.of_error, fun violation => hends₂.of_error, ?_⟩
  intro r₁ r₂ hplay₁ hplay₂
  obtain ⟨hcorrelator₁, hbare₁, hskips₁⟩ := hends₁.of_ok hplay₁
  obtain ⟨hcorrelator₂, -, hskips₂⟩ := hends₂.of_ok hplay₂
  rw [correlator, windows] at hcorrelator₁ hskips₁
  have hsame := hcorrelator₁.trans hcorrelator₂.symm
  exact ⟨hsame, congrArg Correlator.text hsame, hbare₁, hskips₁.trans hskips₂.symm⟩

/-- The selection mode of a Bloom filter. -/
def bloomConfig : Config := { arbiter.mode := .bloom }

/-- The selection mode of raw strength, with the correlator enabled. -/
def strengthConfig : Config := { arbiter.correlatorEnabled := true }

theorem correlator_eq_of_play_shortTrace :
    ∃ r₁ r₂,
      (start (Selector.ofConfig bloomConfig (Gshare.fresh 4)) 0).play shortTrace = .ok r₁ ∧
      (start (Selector.ofConfig strengthConfig (Static.addressBit 2)) 5).play shortTrace =
        .ok r₂ ∧
      r₁.selector.correlator = r₂.selector.correlator := by
  have hcreated₁ : Selector.create bloomConfig (Gshare.fresh 4) =
      .ok (Selector.ofConfig bloomConfig (Gshare.fresh 4)) := rfl
  have hcreated₂ : Selector.create strengthConfig (Static.addressBit 2) =
      .ok (Selector.ofConfig strengthConfig (Static.addressBit 2)) := rfl
  have hplay₁ : ((start (Selector.ofConfig bloomConfig (Gshare.fresh 4)) 0).play
      shortTrace).isOk = true := by decide +kernel
  have hplay₂ : ((start (Selector.ofConfig strengthConfig (Static.addressBit 2)) 5).play
      shortTrace).isOk = true := by decide +kernel
  obtain ⟨r₁, hr₁⟩ := exists_eq_ok_of_isOk hplay₁
  obtain ⟨r₂, hr₂⟩ := exists_eq_ok_of_isOk hplay₂
  have hsame := correlator_eq_of_play hcreated₁ hcreated₂ rfl rfl ordered_shortTrace 0 5
  exact ⟨r₁, r₂, hr₁, hr₂, (hsame.2.2 r₁ r₂ hr₁ hr₂).1⟩

end Replay

end BranchSelector
