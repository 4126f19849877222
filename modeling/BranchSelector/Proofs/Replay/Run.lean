import BranchSelector.Proofs.Replay.Course

/-!
# Runs of a replay

Feeding a record, feeding many and draining reach what they answer, and nothing but the
baseline can stop them (`Reaches.step_ends`, `Reaches.run_ends`, `Reaches.drain_ends`). So
what the three moves of a replay keep (`Reaches.induction`) holds after every record and at
the end.
-/

namespace BranchSelector

open Branch

namespace Replay

variable {β : Type} [Baseline β] {C : Baseline.Contract β} {s : Selector β} {delay : Nat}
  {done records : List Branch} {settled : List Resolution} {r : Replay β}

/-- What every move keeps holds wherever a replay of records in order may be found. -/
theorem Reaches.induction {P : List Branch → List Resolution → Replay β → Prop}
    (h : Reaches (start s delay) done settled r) (ordered : Ordered done) (hs : s.setup.Coherent C)
    (hstart : P [] [] (start s delay))
    (hlaunched : ∀ {done settled r branch}, r.Queued C done → Ordered (done ++ [branch]) →
      r.pending.length ≤ r.resolveDelay → branch.kind.isConditional = true → P done settled r →
        P (done ++ [branch]) settled (r.launched branch))
    (hpassed : ∀ {done settled r branch}, r.Queued C done → Ordered (done ++ [branch]) →
      branch.kind.isConditional = false → P done settled r →
        P (done ++ [branch]) settled (r.passed branch))
    (hretired : ∀ {done settled r p ps provider tags baseline}, r.Queued C done →
      Ordered done → r.Retires p ps provider tags baseline → P done settled r →
        P done
          (settled ++ [r.selector.resolution p.branch.ident provider tags p.branch.pc p.direction
            p.branch.taken])
          (r.retired p ps provider tags baseline)) :
    r.Queued C done ∧ P done settled r := by
  obtain ⟨fetched, rfl, hcourse⟩ := h.exists_course
  refine hcourse.induction (P := fun fetched settled r => P (fetched.map Prod.fst) settled r)
    ordered hs hstart ?_ ?_ hretired
  · intro fetched settled r branch hqueued ordered hroom hkind hP
    rw [List.map_append]
    exact hlaunched hqueued ordered hroom hkind hP
  · intro fetched settled r branch hqueued ordered hkind hP
    rw [List.map_append]
    exact hpassed hqueued ordered hkind hP

theorem Reaches.queued (h : Reaches (start s delay) done settled r) (ordered : Ordered done)
    (hs : s.setup.Coherent C) : r.Queued C done :=
  (h.induction (P := fun _ _ _ => True) ordered hs trivial (fun _ _ _ _ _ => trivial)
    (fun _ _ _ _ => trivial) (fun _ _ _ _ => trivial)).1

/-- The delay is that of the start. -/
theorem Reaches.resolveDelay_eq (h : Reaches (start s delay) done settled r)
    (ordered : Ordered done) (hs : s.setup.Coherent C) : r.resolveDelay = delay :=
  (h.induction (P := fun _ _ r => r.resolveDelay = delay) ordered hs rfl
    (fun _ _ _ _ hP => hP) (fun _ _ _ hP => hP) (fun _ _ _ hP => hP)).2

/-! ## Progress -/

/-- The next record can be entered. -/
theorem Reaches.exists_enter (h : Reaches (start s delay) done settled r) (hs : s.setup.Coherent C)
    {branch : Branch} (ordered : Ordered (done ++ [branch])) :
    ∃ prediction r', r.enter branch = .ok (prediction, r') := by
  have hqueued := h.queued (ordered.sublist (List.sublist_append_left _ _)) hs
  cases hkind : branch.kind.isConditional with
  | true => exact ⟨_, _, hqueued.enter_eq_launched ordered hkind⟩
  | false => exact ⟨_, _, enter_eq_passed (ordered.pieces branch (by simp)) hkind⟩

/-- Waiting branches resolve from the oldest on, for as many as are asked for. -/
theorem Reaches.resolveAll_ends {ps rest : List Pending}
    (h : Reaches (start s delay) done settled r) (ordered : Ordered done) (hs : s.setup.Coherent C)
    (hpending : r.pending = ps ++ rest) :
    Ends (resolveAll r.selector ps)
      (fun answer => Reaches (start s delay) done (settled ++ answer.1)
        { r with selector := answer.2, pending := rest }) C.refuses := by
  induction ps generalizing r settled with
  | nil =>
    refine .of_eq_ok rfl ?_
    rw [List.append_nil]
    obtain ⟨selector, pending, resolveDelay, branches⟩ := r
    obtain rfl : pending = rest := hpending
    exact h
  | cons p ps ih =>
    have hqueued := h.queued ordered hs
    obtain ⟨provider, tags, hprovider, htags⟩ := hqueued.lookup hpending
    have hlive := (hqueued.live _).2 ⟨p, hpending ▸ List.mem_cons_self, rfl⟩
    have hresolves : Ends (r.selector.resolve p.branch.seqNo p.branch.piece p.branch.pc
        p.direction p.branch.taken p.branch.nextPc)
        (fun answer => Reaches (start s delay) done (settled ++ [answer.1])
          { r with selector := answer.2, pending := ps ++ rest }) C.refuses := by
      have hequation := hqueued.resolve_eq ordered hpending hprovider htags
      cases hresolve : r.selector.resolve p.branch.seqNo p.branch.piece p.branch.pc p.direction
          p.branch.taken p.branch.nextPc with
      | ok answer => exact .resolve h hpending hresolve
      | error violation =>
        have hconsumes := hqueued.coherent.consume_ends hlive p.branch.pc p.direction
          p.branch.taken p.branch.nextPc
        rw [hequation] at hresolve
        cases hconsume : r.selector.consume p.branch.ident p.branch.pc p.direction
            p.branch.taken p.branch.nextPc with
        | ok baseline =>
          rw [hconsume] at hresolve
          cases hresolve
        | error refusal =>
          rw [hconsume] at hresolve
          obtain rfl := Except.error.inj hresolve
          exact hconsumes.of_error hconsume
    -- The replay is found at a resolution of its oldest branch, and goes on from there.
    refine hresolves.bind fun answer hanswer => ?_
    refine (ih hanswer rfl).bind fun later hlater => .of_eq_ok rfl ?_
    rw [List.append_assoc] at hlater
    exact hlater

/-- Resolving down to some number of waiting branches ends where that many wait. -/
theorem Reaches.settleDown_ends (h : Reaches (start s delay) done settled r)
    (ordered : Ordered done) (hs : s.setup.Coherent C) (allowed : Nat) :
    Ends (r.settleDown allowed)
      (fun answer => Reaches (start s delay) done (settled ++ answer.1) answer.2 ∧
        answer.2.pending.length ≤ allowed) C.refuses := by
  have hsplit := (List.take_append_drop (r.pending.length - allowed) r.pending).symm
  refine (h.resolveAll_ends ordered hs hsplit).bind fun answer hanswer => .of_eq_ok rfl ?_
  refine ⟨hanswer, ?_⟩
  rw [List.length_drop]
  omega

/-- Feeding a record is stopped by nothing but the baseline. -/
theorem Reaches.step_ends (h : Reaches (start s delay) done settled r) (hs : s.setup.Coherent C)
    {branch : Branch} (ordered : Ordered (done ++ [branch])) (hroom : r.pending.length ≤ delay) :
    Ends (r.step branch)
      (fun answer => Reaches (start s delay) (done ++ [branch])
          (settled ++ answer.1.resolutions) answer.2 ∧
        answer.2.pending.length ≤ delay) C.refuses := by
  have hbefore := ordered.sublist (List.sublist_append_left done [branch])
  obtain ⟨prediction, r', henter⟩ := h.exists_enter hs ordered
  have hentered : Reaches (start s delay) (done ++ [branch]) settled r' :=
    .enter h (h.resolveDelay_eq hbefore hs ▸ hroom) henter
  have hsettles := hentered.settleDown_ends ordered hs r'.resolveDelay
  rw [hentered.resolveDelay_eq ordered hs] at hsettles
  -- Entering answers, so that feeding ends as settling down does.
  rw [step, henter]
  show Ends (r'.settleDown r'.resolveDelay >>= _) _ _
  rw [hentered.resolveDelay_eq ordered hs]
  exact hsettles.bind fun answer hanswer => hanswer

/-- Feeding records in order is stopped by nothing but the baseline, and afterwards no more
branches wait than the delay allows. -/
theorem Reaches.run_ends (h : Reaches (start s delay) done settled r) (hs : s.setup.Coherent C)
    (ordered : Ordered (done ++ records)) (hroom : r.pending.length ≤ delay) :
    Ends (r.run records)
      (fun answer => Reaches (start s delay) (done ++ records)
          (settled ++ answer.1.flatMap Fed.resolutions) answer.2 ∧
        answer.2.pending.length ≤ delay) C.refuses := by
  induction records generalizing r done settled with
  | nil =>
    refine .of_eq_ok rfl ?_
    rw [List.append_nil, List.flatMap_nil, List.append_nil]
    exact ⟨h, hroom⟩
  | cons branch records ih =>
    have hnext : Ordered (done ++ [branch]) := by
      refine ordered.sublist (List.Sublist.append_left ?_ done)
      exact List.singleton_sublist.2 List.mem_cons_self
    refine (h.step_ends hs hnext hroom).bind fun answer hanswer => ?_
    have hlater : Ordered (done ++ [branch] ++ records) := by
      rw [List.append_assoc]
      exact ordered
    refine (ih hanswer.1 hlater hanswer.2).bind fun last hlast => .of_eq_ok rfl ?_
    rw [List.append_assoc, List.append_assoc] at hlast
    exact hlast

/-- Finishing is draining, and telling of it. -/
theorem finish_eq {resolutions : List Resolution} {drained : Replay β}
    (h : r.drain = .ok (resolutions, drained)) :
    r.finish = .ok (drained.selector.stats, Baseline.terminate drained.selector.baseline,
      resolutions.flatMap Resolution.events ++
        ⟨.debug, "trace replay complete", [("branches", toString drained.branches)]⟩ ::
          drained.selector.endEvents) := by
  rw [finish, h]
  rfl

/-- Draining is stopped by nothing but the baseline, and leaves no branch waiting. -/
theorem Reaches.drain_ends (h : Reaches (start s delay) done settled r)
    (ordered : Ordered done) (hs : s.setup.Coherent C) :
    Ends r.drain
      (fun answer => Reaches (start s delay) done (settled ++ answer.1) answer.2 ∧
        answer.2.pending = []) C.refuses :=
  (h.settleDown_ends ordered hs 0).mono fun _ hanswer =>
    ⟨hanswer.1, List.length_eq_zero_iff.1 (Nat.le_zero.1 hanswer.2)⟩

end Replay

end BranchSelector
