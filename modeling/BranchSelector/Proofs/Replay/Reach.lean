import BranchSelector.Proofs.Selector.Step
import BranchSelector.Proofs.Trace.Order
import BranchSelector.Replay

/-!
# What a replay reaches

A replay makes two kinds of move: it enters the next record, as long as no more branches are
waiting than the delay allows, and it resolves the oldest branch that waits.
`Replay.Reaches` says of a replay that it is found somewhere in the course of such moves,
after which records and with which resolutions behind it. Feeding a record, running and
draining reach what they answer (`Reaches.step`, `Reaches.run`, `Reaches.drain`).

The branches that wait are those in flight, in the order of their records, and there is at
most one more of them than the delay allows (`Replay.Queued`). So with records in order every
move has a known outcome: a conditional branch is `launched`, any other is `passed`, and the
oldest waiting branch is `retired`. What these three keep holds wherever a replay may be found
(`Reaches.induction`), and nothing but the baseline can stop it (`Queued.run_ends`).
-/

namespace BranchSelector

open Branch

namespace Replay

variable {β : Type} [Baseline β]

/-- A replay that began as `first` is found as `r`, with the records in `done` entered and
the waiting branches resolved that `settled` lists. -/
inductive Reaches (first : Replay β) : List Branch → List Resolution → Replay β → Prop
  | refl : Reaches first [] [] first
  | enter {done : List Branch} {settled : List Resolution} {r r' : Replay β} {branch : Branch}
      {prediction : Option Prediction} :
    Reaches first done settled r → r.pending.length ≤ r.resolveDelay →
      r.enter branch = .ok (prediction, r') → Reaches first (done ++ [branch]) settled r'
  | resolve {done : List Branch} {settled : List Resolution} {r : Replay β} {p : Pending}
      {ps : List Pending} {resolution : Resolution} {selector : Selector β} :
    Reaches first done settled r → r.pending = p :: ps →
      r.selector.resolve p.branch.seqNo p.branch.piece p.branch.pc p.direction p.branch.taken
        p.branch.nextPc = .ok (resolution, selector) →
      Reaches first done (settled ++ [resolution]) { r with selector, pending := ps }

/-! ## Moves -/

/-- The replay after a conditional branch is predicted and fetched, and waits. -/
def launched (r : Replay β) (branch : Branch) : Replay β :=
  let direction := (r.selector.prediction branch.ident branch.pc).direction
  { r with
    selector := (r.selector.predicted branch.ident branch.pc).fetched branch branch.ident direction
    pending := r.pending ++ [⟨branch, direction⟩]
    branches := r.branches + 1 }

/-- The replay after a branch that is not conditional is fetched. -/
def passed (r : Replay β) (branch : Branch) : Replay β :=
  { r with
    selector := r.selector.fetched branch branch.ident true
    branches := r.branches + 1 }

/-- The selector after the oldest waiting branch has resolved. -/
def settledSelector (r : Replay β) (p : Pending) (provider : Provider) (tags : List UInt64)
    (baseline : β) : Selector β :=
  { r.selector.resolved p.branch.ident provider tags p.branch.pc p.direction p.branch.taken with
    baseline }

/-- The replay after the oldest waiting branch has resolved, with the others in `ps`. -/
def retired (r : Replay β) (p : Pending) (ps : List Pending) (provider : Provider)
    (tags : List UInt64) (baseline : β) : Replay β :=
  { r with selector := r.settledSelector p provider tags baseline, pending := ps }

/-- The oldest waiting branch can resolve: it has a provider and a checkpoint, and the baseline
consumes it. -/
structure Retires (r : Replay β) (p : Pending) (ps : List Pending) (provider : Provider)
    (tags : List UInt64) (baseline : β) : Prop where
  pending : r.pending = p :: ps
  provider : r.selector.inFlight[p.branch.ident]? = some provider
  tags : r.selector.correlator.checkpoints[p.branch.ident]? = some tags
  consumed : r.selector.consume p.branch.ident p.branch.pc p.direction p.branch.taken
    p.branch.nextPc = .ok baseline

/-! ## What is answered

A selector that is coherent answers a move only if the key of the branch allows it. So whatever
the order of the records, a move that is answered is one of the three.
-/

section Answered

variable {C : Baseline.Contract β} {r r' : Replay β} {branch : Branch} {p : Pending}
  {ps : List Pending}

theorem enter_eq_launched_of_idle (h : r.selector.Coherent C) (hpiece : branch.piece.toNat < 16)
    (idle : branch.ident ∉ r.selector.inFlight) (hkind : branch.kind.isConditional = true) :
    r.enter branch = .ok (some (r.selector.prediction branch.ident branch.pc),
      r.launched branch) := by
  have hkey := key_eq_ok hpiece
  unfold enter
  simp only [hkind, if_true, h.predict_eq hkey idle, bind, Except.bind, Selector.fetch_eq _ hkey]
  rfl

theorem enter_eq_passed (hpiece : branch.piece.toNat < 16)
    (hkind : branch.kind.isConditional = false) :
    r.enter branch = .ok (none, r.passed branch) := by
  unfold enter
  simp only [hkind, Bool.false_eq_true, if_false, bind, Except.bind,
    Selector.fetch_eq _ (key_eq_ok hpiece)]
  rfl

/-- A record that is entered has a valid key. -/
theorem piece_lt_of_enter {prediction : Option Prediction}
    (henter : r.enter branch = .ok (prediction, r')) : branch.piece.toNat < 16 := by
  refine Nat.lt_of_not_le fun hpiece => ?_
  have hkey : branch.key = .error (.pieceOutOfRange branch.piece) :=
    BranchKey.ofParts_eq_error hpiece
  unfold enter at henter
  cases hkind : branch.kind.isConditional with
  | true =>
    simp only [hkind, if_true, Selector.predict, BranchKey.ofParts_eq_error hpiece, bind,
      Except.bind] at henter
    cases henter
  | false =>
    simp only [hkind, Bool.false_eq_true, if_false, Selector.fetch, hkey, bind,
      Except.bind] at henter
    cases henter

/-- A conditional branch that is entered was not in flight, and is launched. -/
theorem eq_launched_of_enter (h : r.selector.Coherent C) {prediction : Option Prediction}
    (henter : r.enter branch = .ok (prediction, r')) (hkind : branch.kind.isConditional = true) :
    branch.ident ∉ r.selector.inFlight ∧
      prediction = some (r.selector.prediction branch.ident branch.pc) ∧
      r' = r.launched branch := by
  have hpiece := piece_lt_of_enter henter
  have idle : branch.ident ∉ r.selector.inFlight := by
    intro live
    unfold enter at henter
    simp only [hkind, if_true, h.predict_eq_error (key_eq_ok hpiece) live, bind,
      Except.bind] at henter
    cases henter
  rw [enter_eq_launched_of_idle h hpiece idle hkind] at henter
  obtain ⟨rfl, rfl⟩ := Prod.mk.inj (Except.ok.inj henter)
  exact ⟨idle, rfl, rfl⟩

/-- A waiting branch that resolves was in flight, and retires. -/
theorem exists_retires_of_resolve (h : r.selector.Coherent C) (hpending : r.pending = p :: ps)
    {resolution : Resolution} {selector : Selector β}
    (hresolve : r.selector.resolve p.branch.seqNo p.branch.piece p.branch.pc p.direction
      p.branch.taken p.branch.nextPc = .ok (resolution, selector)) :
    ∃ provider tags baseline, r.Retires p ps provider tags baseline ∧
      resolution = r.selector.resolution p.branch.ident provider tags p.branch.pc p.direction
        p.branch.taken ∧
      selector = r.settledSelector p provider tags baseline := by
  have hpiece : p.branch.piece.toNat < 16 := by
    refine Nat.lt_of_not_le fun hpiece => ?_
    simp only [Selector.resolve, BranchKey.ofParts_eq_error hpiece, bind, Except.bind] at hresolve
    cases hresolve
  have hkey := key_eq_ok hpiece
  have live : p.branch.ident ∈ r.selector.inFlight := by
    by_contra idle
    rw [Selector.resolve_eq_error hkey idle] at hresolve
    cases hresolve
  obtain ⟨provider, tags, hprovider, htags⟩ := h.lookup live
  rw [h.resolve_eq hkey hprovider htags] at hresolve
  obtain ⟨baseline, hconsumed, hanswer⟩ := map_eq_ok_iff.1 hresolve
  obtain ⟨rfl, rfl⟩ := Prod.mk.inj hanswer
  exact ⟨provider, tags, baseline, ⟨hpending, hprovider, htags, hconsumed⟩, rfl, rfl⟩

theorem coherent_launched (h : r.selector.Coherent C) (branch : Branch) :
    (r.launched branch).selector.Coherent C :=
  (h.predicted _ _).fetched _ _ _

theorem coherent_passed (h : r.selector.Coherent C) (branch : Branch) :
    (r.passed branch).selector.Coherent C :=
  h.fetched _ _ _

theorem Retires.coherent {provider : Provider} {tags : List UInt64} {baseline : β}
    (hretires : r.Retires p ps provider tags baseline) (h : r.selector.Coherent C) :
    (r.retired p ps provider tags baseline).selector.Coherent C := by
  have live : p.branch.ident ∈ r.selector.inFlight :=
    Std.ExtTreeMap.mem_iff_isSome_getElem?.2
      (Option.isSome_iff_exists.2 ⟨provider, hretires.provider⟩)
  exact h.resolved hretires.tags _ _ _ ((h.consume_ends live _ _ _ _).of_ok hretires.consumed)

end Answered

/-! ## The queue -/

/-- The branches that wait, their order and their number. -/
structure Queued (C : Baseline.Contract β) (done : List Branch) (r : Replay β) : Prop where
  coherent : r.selector.Coherent C
  waiting : r.pending.map Pending.branch <:+ done.filter (·.kind.isConditional)
  live : ∀ key, key ∈ r.selector.inFlight ↔ ∃ p ∈ r.pending, p.branch.ident = key
  length_le : r.pending.length ≤ r.resolveDelay + 1

section Queue

variable {C : Baseline.Contract β} {done : List Branch} {r : Replay β} {branch : Branch}
  {p : Pending} {ps : List Pending} {provider : Provider} {tags : List UInt64} {baseline : β}

theorem queued_start {s : Selector β} (h : s.setup.Coherent C) (delay : Nat) :
    (start s delay).Queued C [] where
  coherent := h
  waiting := List.nil_suffix
  live key := by
    refine ⟨fun hlive => ?_, ?_⟩
    · exact absurd hlive Std.ExtTreeMap.not_mem_empty
    · rintro ⟨p, hp, -⟩
      cases hp
  length_le := Nat.zero_le _

/-- A waiting branch is one of the records. -/
theorem Queued.mem_done (h : r.Queued C done) (hp : p ∈ r.pending) : p.branch ∈ done :=
  (List.mem_filter.1 (h.waiting.mem (List.mem_map_of_mem hp))).1

/-- No two waiting branches have the same key. -/
theorem Queued.distinct (h : r.Queued C done) (ordered : Ordered done) :
    r.pending.Pairwise fun p q => p.branch.ident ≠ q.branch.ident := by
  have hwaiting := ordered.sublist (h.waiting.sublist.trans List.filter_sublist)
  refine (List.pairwise_map.1 hwaiting.increasing).imp_of_mem fun hp hq hbefore => ?_
  exact hbefore.ident_ne (ordered.pieces _ (h.mem_done hp)) (ordered.pieces _ (h.mem_done hq))

/-- The key of a waiting branch is unlike those of the branches that wait behind it. -/
theorem Queued.ident_ne (h : r.Queued C done) (ordered : Ordered done)
    (hpending : r.pending = p :: ps) {q : Pending} (hq : q ∈ ps) :
    p.branch.ident ≠ q.branch.ident := by
  have hdistinct := h.distinct ordered
  rw [hpending, List.pairwise_cons] at hdistinct
  exact hdistinct.1 q hq

theorem Queued.idle (h : r.Queued C done) (ordered : Ordered (done ++ [branch])) :
    branch.ident ∉ r.selector.inFlight := by
  intro hlive
  obtain ⟨p, hp, hsame⟩ := (h.live _).1 hlive
  exact ordered.ident_ne (h.mem_done hp) hsame

/-- Once no branch waits, none is in flight and the correlator keeps no checkpoint. -/
theorem Queued.eq_empty (h : r.Queued C done) (hpending : r.pending = []) :
    r.selector.inFlight = ∅ ∧ r.selector.correlator.checkpoints = ∅ := by
  have hidle : ∀ key, key ∉ r.selector.inFlight := fun key hlive => by
    obtain ⟨p, hp, -⟩ := (h.live key).1 hlive
    rw [hpending] at hp
    cases hp
  constructor
  · exact Std.ExtTreeMap.eq_empty_iff_forall_not_mem.2 hidle
  · exact Std.ExtTreeMap.eq_empty_iff_forall_not_mem.2 fun key hkept =>
      hidle key ((h.coherent.checkpoints key).1 hkept)

/-! ### Entering a record -/

theorem Queued.enter_eq_launched (h : r.Queued C done) (ordered : Ordered (done ++ [branch]))
    (hkind : branch.kind.isConditional = true) :
    r.enter branch = .ok (some (r.selector.prediction branch.ident branch.pc),
      r.launched branch) :=
  enter_eq_launched_of_idle h.coherent (ordered.pieces branch (by simp)) (h.idle ordered) hkind

theorem Queued.launched (h : r.Queued C done) (hroom : r.pending.length ≤ r.resolveDelay)
    (hkind : branch.kind.isConditional = true) :
    (r.launched branch).Queued C (done ++ [branch]) where
  coherent := coherent_launched h.coherent branch
  waiting := by
    obtain ⟨earlier, hearlier⟩ := h.waiting
    refine ⟨earlier, ?_⟩
    rw [List.filter_append, ← hearlier, List.append_assoc]
    simp [Replay.launched, hkind]
  live key := by
    show key ∈ r.selector.inFlight.insert branch.ident _ ↔ ∃ p ∈ r.pending ++ [_], _
    rw [Std.ExtTreeMap.mem_insert, Std.LawfulEqCmp.compare_eq_iff_eq, h.live key]
    simp [or_and_right, exists_or, or_comm]
  length_le := by
    show (r.pending ++ [_]).length ≤ _
    rw [List.length_append]
    exact Nat.succ_le_succ hroom

theorem Queued.passed (h : r.Queued C done) (hkind : branch.kind.isConditional = false) :
    (r.passed branch).Queued C (done ++ [branch]) where
  coherent := coherent_passed h.coherent branch
  waiting := by
    rw [List.filter_append, List.filter_singleton, hkind]
    exact (List.append_nil _).symm ▸ h.waiting
  live := h.live
  length_le := h.length_le

/-! ### Resolving the oldest branch -/

/-- The oldest waiting branch has a provider and a checkpoint. -/
theorem Queued.lookup (h : r.Queued C done) (hpending : r.pending = p :: ps) :
    ∃ provider tags, r.selector.inFlight[p.branch.ident]? = some provider ∧
      r.selector.correlator.checkpoints[p.branch.ident]? = some tags :=
  h.coherent.lookup ((h.live _).2 ⟨p, hpending ▸ List.mem_cons_self, rfl⟩)

theorem Queued.resolve_eq (h : r.Queued C done) (ordered : Ordered done)
    (hpending : r.pending = p :: ps)
    (hprovider : r.selector.inFlight[p.branch.ident]? = some provider)
    (htags : r.selector.correlator.checkpoints[p.branch.ident]? = some tags) :
    r.selector.resolve p.branch.seqNo p.branch.piece p.branch.pc p.direction p.branch.taken
        p.branch.nextPc =
      (r.selector.consume p.branch.ident p.branch.pc p.direction p.branch.taken
        p.branch.nextPc).map fun baseline =>
          (r.selector.resolution p.branch.ident provider tags p.branch.pc p.direction
            p.branch.taken, r.settledSelector p provider tags baseline) := by
  have hmem : p ∈ r.pending := hpending ▸ List.mem_cons_self
  exact h.coherent.resolve_eq (key_eq_ok (ordered.pieces _ (h.mem_done hmem))) hprovider htags
    _ _ _ _

theorem Queued.retired (h : r.Queued C done) (ordered : Ordered done)
    (hretires : r.Retires p ps provider tags baseline) :
    (r.retired p ps provider tags baseline).Queued C done where
  coherent := hretires.coherent h.coherent
  waiting := by
    refine List.IsSuffix.trans ?_ h.waiting
    rw [hretires.pending]
    exact List.suffix_cons _ _
  live key := by
    show key ∈ r.selector.inFlight.erase p.branch.ident ↔ ∃ q ∈ ps, q.branch.ident = key
    rw [Std.ExtTreeMap.mem_erase, ne_eq, Std.LawfulEqCmp.compare_eq_iff_eq, h.live key,
      hretires.pending]
    -- The key of the oldest branch goes, and those behind have others.
    constructor
    · rintro ⟨hne, q, hq, rfl⟩
      rcases List.mem_cons.1 hq with rfl | hq
      · exact absurd rfl hne
      · exact ⟨q, hq, rfl⟩
    · rintro ⟨q, hq, rfl⟩
      exact ⟨h.ident_ne ordered hretires.pending hq, q, List.mem_cons_of_mem _ hq, rfl⟩
  length_le := by
    have hlength := h.length_le
    rw [hretires.pending, List.length_cons] at hlength
    exact Nat.le_trans (Nat.le_succ _) hlength

end Queue

end Replay

end BranchSelector
