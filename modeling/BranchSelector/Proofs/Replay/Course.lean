import BranchSelector.Proofs.Replay.Reach

/-!
# The course of a replay

`Replay.Course` is `Replay.Reaches` with the prediction that each record was given, if it was
given one. Wherever a replay may be found, it has taken such a course to come there
(`Reaches.exists_course`), and the answers of a run tell which (`Course.run`).

Every move that is answered has a known outcome, the prediction included, so what the three moves
keep holds in the whole course (`Course.induction_of_coherent`). With records in order, the queue is
known as well (`Course.induction`).
-/

namespace BranchSelector

open Branch

namespace Replay

variable {β : Type} [Baseline β]

/-- A replay that began as `first` is found as `r`, with the records in `fetched` entered and
predicted as it says, and the waiting branches resolved that `settled` lists. -/
inductive Course (first : Replay β) : List (Branch × Option Prediction) → List Resolution →
    Replay β → Prop
  | refl : Course first [] [] first
  | enter {fetched : List (Branch × Option Prediction)} {settled : List Resolution}
      {r r' : Replay β} {branch : Branch} {prediction : Option Prediction} :
    Course first fetched settled r → r.pending.length ≤ r.resolveDelay →
      r.enter branch = .ok (prediction, r') →
      Course first (fetched ++ [(branch, prediction)]) settled r'
  | resolve {fetched : List (Branch × Option Prediction)} {settled : List Resolution}
      {r : Replay β} {p : Pending} {ps : List Pending} {resolution : Resolution}
      {selector : Selector β} :
    Course first fetched settled r → r.pending = p :: ps →
      r.selector.resolve p.branch.seqNo p.branch.piece p.branch.pc p.direction p.branch.taken
        p.branch.nextPc = .ok (resolution, selector) →
      Course first fetched (settled ++ [resolution]) { r with selector, pending := ps }

variable {first r : Replay β} {done : List Branch} {settled : List Resolution}
  {fetched : List (Branch × Option Prediction)}

theorem Reaches.exists_course (h : Reaches first done settled r) :
    ∃ fetched, fetched.map Prod.fst = done ∧ Course first fetched settled r := by
  induction h with
  | refl => exact ⟨[], rfl, .refl⟩
  | enter _ hroom henter ih =>
    obtain ⟨fetched, rfl, hcourse⟩ := ih
    exact ⟨_, List.map_append, .enter hcourse hroom henter⟩
  | resolve _ hpending hresolve ih =>
    obtain ⟨fetched, hfetched, hcourse⟩ := ih
    exact ⟨fetched, hfetched, .resolve hcourse hpending hresolve⟩

/-! ## Moves -/

section Induction

variable {C : Baseline.Contract β} {s : Selector β} {delay : Nat}

/-- What every move that is answered keeps holds in the whole course of a replay, in whatever order
the records come. -/
theorem Course.induction_of_coherent
    {P : List (Branch × Option Prediction) → List Resolution → Replay β → Prop}
    (h : Course (start s delay) fetched settled r) (hs : s.setup.Coherent C)
    (hstart : P [] [] (start s delay))
    (hlaunched : ∀ {fetched settled r branch}, r.selector.Coherent C →
      branch.ident ∉ r.selector.inFlight → r.pending.length ≤ r.resolveDelay →
      branch.kind.isConditional = true → P fetched settled r →
        P (fetched ++ [(branch, some (r.selector.prediction branch.ident branch.pc))]) settled
          (r.launched branch))
    (hpassed : ∀ {fetched settled r branch}, r.selector.Coherent C →
      branch.kind.isConditional = false → P fetched settled r →
        P (fetched ++ [(branch, none)]) settled (r.passed branch))
    (hretired : ∀ {fetched settled r p ps provider tags baseline}, r.selector.Coherent C →
      r.Retires p ps provider tags baseline → P fetched settled r →
        P fetched
          (settled ++ [r.selector.resolution p.branch.ident provider tags p.branch.pc p.direction
            p.branch.taken])
          (r.retired p ps provider tags baseline)) :
    r.selector.Coherent C ∧ P fetched settled r := by
  induction h with
  | refl => exact ⟨hs, hstart⟩
  | @enter fetched settled r r' branch prediction _ hroom henter ih =>
    obtain ⟨hr, hP⟩ := ih
    cases hkind : branch.kind.isConditional with
    | true =>
      obtain ⟨idle, rfl, rfl⟩ := eq_launched_of_enter hr henter hkind
      exact ⟨coherent_launched hr branch, hlaunched hr idle hroom hkind hP⟩
    | false =>
      rw [enter_eq_passed (piece_lt_of_enter henter) hkind] at henter
      obtain ⟨rfl, rfl⟩ := Prod.mk.inj (Except.ok.inj henter)
      exact ⟨coherent_passed hr branch, hpassed hr hkind hP⟩
  | resolve _ hpending hresolve ih =>
    obtain ⟨hr, hP⟩ := ih
    obtain ⟨provider, tags, baseline, hretires, rfl, rfl⟩ :=
      exists_retires_of_resolve hr hpending hresolve
    exact ⟨hretires.coherent hr, hretired hr hretires hP⟩

/-- What every move keeps holds in the whole course of a replay of records in order. -/
theorem Course.induction
    {P : List (Branch × Option Prediction) → List Resolution → Replay β → Prop}
    (h : Course (start s delay) fetched settled r) (ordered : Ordered (fetched.map Prod.fst))
    (hs : s.setup.Coherent C) (hstart : P [] [] (start s delay))
    (hlaunched : ∀ {fetched settled r branch}, r.Queued C (fetched.map Prod.fst) →
      Ordered (fetched.map Prod.fst ++ [branch]) → r.pending.length ≤ r.resolveDelay →
      branch.kind.isConditional = true → P fetched settled r →
        P (fetched ++ [(branch, some (r.selector.prediction branch.ident branch.pc))]) settled
          (r.launched branch))
    (hpassed : ∀ {fetched settled r branch}, r.Queued C (fetched.map Prod.fst) →
      Ordered (fetched.map Prod.fst ++ [branch]) → branch.kind.isConditional = false →
      P fetched settled r → P (fetched ++ [(branch, none)]) settled (r.passed branch))
    (hretired : ∀ {fetched settled r p ps provider tags baseline},
      r.Queued C (fetched.map Prod.fst) → Ordered (fetched.map Prod.fst) →
      r.Retires p ps provider tags baseline → P fetched settled r →
        P fetched
          (settled ++ [r.selector.resolution p.branch.ident provider tags p.branch.pc p.direction
            p.branch.taken])
          (r.retired p ps provider tags baseline)) :
    r.Queued C (fetched.map Prod.fst) ∧ P fetched settled r := by
  refine (h.induction_of_coherent
    (P := fun fetched settled r => Ordered (fetched.map Prod.fst) →
      r.Queued C (fetched.map Prod.fst) ∧ P fetched settled r)
    hs (fun _ => ⟨queued_start hs delay, hstart⟩) ?_ ?_ ?_).2 ordered
  · intro fetched settled r branch _ _ hroom hkind ih ordered
    rw [List.map_append] at ordered ⊢
    obtain ⟨hqueued, hP⟩ := ih (ordered.sublist (List.sublist_append_left _ _))
    exact ⟨hqueued.launched hroom hkind, hlaunched hqueued ordered hroom hkind hP⟩
  · intro fetched settled r branch _ hkind ih ordered
    rw [List.map_append] at ordered ⊢
    obtain ⟨hqueued, hP⟩ := ih (ordered.sublist (List.sublist_append_left _ _))
    exact ⟨hqueued.passed hkind, hpassed hqueued ordered hkind hP⟩
  · intro fetched settled r p ps provider tags baseline _ hretires ih ordered
    obtain ⟨hqueued, hP⟩ := ih ordered
    exact ⟨hqueued.retired ordered hretires, hretired hqueued ordered hretires hP⟩

end Induction

/-! ## Answers -/

/-- Resolving waiting branches one by one is a course. -/
theorem Course.resolveAll {ps rest : List Pending} {resolutions : List Resolution}
    {selector : Selector β} (h : Course first fetched settled r) (hpending : r.pending = ps ++ rest)
    (hresolve : resolveAll r.selector ps = .ok (resolutions, selector)) :
    Course first fetched (settled ++ resolutions) { r with selector, pending := rest } := by
  induction ps generalizing r settled resolutions with
  | nil =>
    obtain ⟨rfl, rfl⟩ := Prod.mk.inj (Except.ok.inj hresolve)
    obtain ⟨selector, pending, resolveDelay, branches⟩ := r
    obtain rfl : pending = rest := hpending
    rw [List.append_nil]
    exact h
  | cons p ps ih =>
    obtain ⟨⟨resolution, middle⟩, hp, hlater⟩ := bind_eq_ok_iff.1 hresolve
    obtain ⟨⟨later, last⟩, hps, hanswer⟩ := bind_eq_ok_iff.1 hlater
    obtain ⟨rfl, rfl⟩ := Prod.mk.inj (Except.ok.inj hanswer)
    have hcourse := ih (.resolve h hpending hp) rfl hps
    rw [List.append_assoc] at hcourse
    exact hcourse

/-- Resolving down to some number of waiting branches is a course. -/
theorem Course.settleDown {allowed : Nat} {resolutions : List Resolution} {r' : Replay β}
    (h : Course first fetched settled r)
    (hsettle : r.settleDown allowed = .ok (resolutions, r')) :
    Course first fetched (settled ++ resolutions) r' ∧ r'.pending.length ≤ allowed ∧
      r'.resolveDelay = r.resolveDelay := by
  obtain ⟨⟨resolved, selector⟩, hresolve, hanswer⟩ := bind_eq_ok_iff.1 hsettle
  obtain ⟨rfl, rfl⟩ := Prod.mk.inj (Except.ok.inj hanswer)
  refine ⟨h.resolveAll (List.take_append_drop _ _).symm hresolve, ?_, rfl⟩
  show (r.pending.drop (r.pending.length - allowed)).length ≤ allowed
  rw [List.length_drop]
  omega

/-- Feeding one record is a course. -/
theorem Course.step {branch : Branch} {fed : Fed} {r' : Replay β}
    (h : Course first fetched settled r) (hroom : r.pending.length ≤ r.resolveDelay)
    (hstep : r.step branch = .ok (fed, r')) :
    Course first (fetched ++ [(branch, fed.prediction)]) (settled ++ fed.resolutions) r' ∧
      r'.pending.length ≤ r'.resolveDelay := by
  obtain ⟨⟨prediction, entered⟩, henter, hlater⟩ := bind_eq_ok_iff.1 hstep
  obtain ⟨⟨resolutions, last⟩, hsettle, hanswer⟩ := bind_eq_ok_iff.1 hlater
  obtain ⟨rfl, rfl⟩ := Prod.mk.inj (Except.ok.inj hanswer)
  obtain ⟨hcourse, hlength, hdelay⟩ := (h.enter hroom henter).settleDown hsettle
  exact ⟨hcourse, hdelay ▸ hlength⟩

/-- Running is a course, with the predictions that the run answers. -/
theorem Course.run {records : List Branch} {feds : List Fed} {r' : Replay β}
    (h : Course first fetched settled r) (hroom : r.pending.length ≤ r.resolveDelay)
    (hrun : r.run records = .ok (feds, r')) :
    Course first (fetched ++ records.zip (feds.map Fed.prediction))
      (settled ++ feds.flatMap Fed.resolutions) r' ∧ feds.length = records.length := by
  induction records generalizing r fetched settled feds with
  | nil =>
    obtain ⟨rfl, rfl⟩ := Prod.mk.inj (Except.ok.inj hrun)
    rw [List.zip_nil_left, List.append_nil, List.flatMap_nil, List.append_nil]
    exact ⟨h, rfl⟩
  | cons branch records ih =>
    obtain ⟨⟨fed, middle⟩, hstep, hlater⟩ := bind_eq_ok_iff.1 hrun
    obtain ⟨⟨later, last⟩, hrest, hanswer⟩ := bind_eq_ok_iff.1 hlater
    obtain ⟨rfl, rfl⟩ := Prod.mk.inj (Except.ok.inj hanswer)
    obtain ⟨hcourse, hmiddle⟩ := h.step hroom hstep
    obtain ⟨hlast, hlength⟩ := ih hcourse hmiddle hrest
    rw [List.append_assoc, List.append_assoc] at hlast
    exact ⟨hlast, congrArg Nat.succ hlength⟩

end Replay

end BranchSelector
