import BranchSelector.Proofs.Baseline.Protocol
import BranchSelector.Proofs.Replay.Run
import BranchSelector.Proofs.Selector.Twins

/-!
# Replays around different filters

A replay makes no calls but those that twins answer in the same way, and it never leaves the
first epoch. So two replays of the same records around twins make the same moves
(`Replay.Twins`), whatever the order of the records, as long as the addresses are separated in
the Bloom filter. With records in order it follows that a replay that selects by the Bloom
filter refines the one that selects by an exact set (`eq_of_separated`).
-/

namespace BranchSelector

open Branch

namespace Replay

variable {β : Type} [Baseline β]

/-- The second replay is the first one around a twin, and the waiting branches have known
addresses. -/
inductive Twins (bits rounds : Nat) (pcs : List UInt64) : Replay β → Replay β → Prop
  | intro {r : Replay β} {selector : Selector β} :
    Selector.Twins bits rounds pcs r.selector selector → (∀ p ∈ r.pending, p.branch.pc ∈ pcs) →
      Twins bits rounds pcs r { r with selector }

variable {bits rounds : Nat} {pcs : List UInt64} {s t : Selector β} {r u : Replay β}
  {branch : Branch} {records : List Branch}

omit [Baseline β] in
/-- Twins are the same but for their configuration and their filter. -/
theorem Twins.eq (h : Twins bits rounds pcs r u) :
    u = { r with selector := { r.selector with
      config := u.selector.config, filter := u.selector.filter } } := by
  obtain ⟨⟨-, -, -, -⟩, -⟩ := h
  rfl

omit [Baseline β] in
theorem Twins.resolveDelay_eq (h : Twins bits rounds pcs r u) :
    u.resolveDelay = r.resolveDelay := by
  obtain ⟨-, -⟩ := h
  rfl

/-! ## Moves -/

theorem alike_resolveAll (h : Selector.Twins bits rounds pcs s t)
    (separated : Bloom.Separated bits rounds pcs) {ps : List Pending}
    (known : ∀ p ∈ ps, p.branch.pc ∈ pcs) :
    Alike (Answers (Selector.Twins bits rounds pcs)) (resolveAll s ps) (resolveAll t ps) := by
  induction ps generalizing s t with
  | nil => exact ⟨rfl, h⟩
  | cons p ps ih =>
    have hp := h.resolve separated (known p List.mem_cons_self) p.branch.seqNo p.branch.piece
      p.direction p.branch.taken p.branch.nextPc
    refine hp.bind ?_
    rintro ⟨resolution, s'⟩ ⟨_, t'⟩ ⟨rfl, hresolved⟩
    refine (ih hresolved fun q hq => known q (List.mem_cons_of_mem _ hq)).bind ?_
    rintro ⟨resolutions, s'⟩ ⟨_, t'⟩ ⟨rfl, hlast⟩
    exact ⟨rfl, hlast⟩

theorem Twins.settleDown (h : Twins bits rounds pcs r u)
    (separated : Bloom.Separated bits rounds pcs) (allowed : Nat) :
    Alike (Answers (Twins bits rounds pcs)) (r.settleDown allowed) (u.settleDown allowed) := by
  obtain ⟨hselector, known⟩ := h
  refine (alike_resolveAll hselector separated fun p hp => known p (List.mem_of_mem_take hp)).bind ?_
  rintro ⟨resolutions, s⟩ ⟨_, t⟩ ⟨rfl, hresolved⟩
  exact ⟨rfl, hresolved, fun p hp => known p (List.mem_of_mem_drop hp)⟩

theorem Twins.enter (h : Twins bits rounds pcs r u)
    (separated : Bloom.Separated bits rounds pcs) (hpc : branch.pc ∈ pcs) :
    Alike (Answers (Twins bits rounds pcs)) (r.enter branch) (u.enter branch) := by
  obtain ⟨hselector, known⟩ := h
  unfold Replay.enter
  by_cases hkind : branch.kind.isConditional = true
  · simp only [if_pos hkind]
    refine (hselector.predict separated hpc branch.seqNo branch.piece).bind ?_
    rintro ⟨prediction, s⟩ ⟨_, t⟩ ⟨rfl, hpredicted⟩
    refine (hpredicted.fetch branch prediction.direction).bind fun s t hfetched => ?_
    refine ⟨rfl, hfetched, fun p hp => ?_⟩
    rcases List.mem_append.1 hp with hold | hnew
    · exact known p hold
    · exact List.mem_singleton.1 hnew ▸ hpc
  · simp only [if_neg hkind]
    refine (hselector.fetch branch true).bind fun s t hfetched => ?_
    exact ⟨rfl, hfetched, known⟩

/-! ## Runs -/

theorem Twins.step (h : Twins bits rounds pcs r u)
    (separated : Bloom.Separated bits rounds pcs) (hpc : branch.pc ∈ pcs) :
    Alike (Answers (Twins bits rounds pcs)) (r.step branch) (u.step branch) := by
  refine (h.enter separated hpc).bind ?_
  rintro ⟨prediction, r⟩ ⟨_, u⟩ ⟨rfl, hentered⟩
  show Alike _ (r.settleDown r.resolveDelay >>= _) (u.settleDown u.resolveDelay >>= _)
  rw [Twins.resolveDelay_eq hentered]
  refine (hentered.settleDown separated r.resolveDelay).bind ?_
  rintro ⟨resolutions, r⟩ ⟨_, u⟩ ⟨rfl, hsettled⟩
  exact ⟨rfl, hsettled⟩

theorem Twins.run (h : Twins bits rounds pcs r u)
    (separated : Bloom.Separated bits rounds pcs) (known : ∀ branch ∈ records, branch.pc ∈ pcs) :
    Alike (Answers (Twins bits rounds pcs)) (r.run records) (u.run records) := by
  induction records generalizing r u with
  | nil => exact ⟨rfl, h⟩
  | cons branch records ih =>
    refine (h.step separated (known branch List.mem_cons_self)).bind ?_
    rintro ⟨fed, r⟩ ⟨_, u⟩ ⟨rfl, hstep⟩
    refine (ih hstep fun later hlater => known later (List.mem_cons_of_mem _ hlater)).bind ?_
    rintro ⟨feds, r⟩ ⟨_, u⟩ ⟨rfl, hlast⟩
    exact ⟨rfl, hlast⟩

/-- Finishing tells the same, down to the last event. -/
theorem Twins.finish_eq (h : Twins bits rounds pcs r u)
    (separated : Bloom.Separated bits rounds pcs) : r.finish = u.finish := by
  refine Alike.eq ((h.settleDown separated 0).bind ?_)
  rintro ⟨resolutions, r⟩ ⟨_, u⟩ ⟨rfl, hdrained⟩
  obtain ⟨⟨-, -, -, -⟩, -⟩ := (hdrained : Twins bits rounds pcs r u)
  rfl

/-- A selector by a Bloom filter and one by an exact set begin as twins. -/
theorem twins_start (config : Config) (baseline : β) (delay : Nat) (pcs : List UInt64) :
    Twins config.filter.bits config.filter.hashRounds pcs
      (start (Selector.ofConfig { config with arbiter.mode := .bloom } baseline) delay)
      (start (Selector.ofConfig { config with arbiter.mode := .oracle } baseline) delay) := by
  have hempty : Filter.Mirrored config.filter.bits config.filter.hashRounds pcs
      (.bloom (Bloom.empty config.filter.bits config.filter.hashRounds)) (.oracle ∅) :=
    ⟨Bloom.holds_empty _ _, fun key hkey => absurd hkey Std.ExtTreeSet.not_mem_empty⟩
  exact ⟨⟨rfl, rfl, rfl, hempty⟩, nofun⟩

/-- Around any predictor, with any delay and for records in order with separated addresses, the
run that selects by a Bloom filter and the one that selects by an exact set answer the same:
every vote, direction and resolution. Their states are the same, the calls of the predictor
included, but for the configuration and the filter. This holds after the last record and
after draining, and finishing tells the same as well. What stops the one, which is never anything
but a refusal of the predictor, stops the other. -/
theorem eq_of_separated {config : Config} {inner : β} {bloom oracle : Selector (Recorded β)}
    {records : List Branch}
    (bloomCreated :
      Selector.create { config with arbiter.mode := .bloom } ⟨inner, []⟩ = .ok bloom)
    (oracleCreated :
      Selector.create { config with arbiter.mode := .oracle } ⟨inner, []⟩ = .ok oracle)
    (ordered : Ordered records)
    (separated : Bloom.Separated config.filter.bits config.filter.hashRounds
      (records.map Branch.pc)) (delay : Nat) :
    Ends ((start bloom delay).run records)
      (fun first => ∃ r, (start oracle delay).run records = .ok (first.1, r) ∧
        r.selector = { first.2.selector with
          config := r.selector.config, filter := r.selector.filter } ∧
        first.2.finish = r.finish ∧
        Ends first.2.drain
          (fun last => ∃ drained, r.drain = .ok (last.1, drained) ∧
            drained.selector = { last.2.selector with
              config := drained.selector.config, filter := drained.selector.filter })
          (fun violation => Baseline.Refuses β violation ∧ r.drain = .error violation))
      (fun violation => Baseline.Refuses β violation ∧
        (start oracle delay).run records = .error violation) := by
  obtain ⟨valid, rfl⟩ := Selector.create_eq_ok bloomCreated
  obtain ⟨-, rfl⟩ := Selector.create_eq_ok oracleCreated
  have hs : (Selector.ofConfig { config with arbiter.mode := .bloom }
      (⟨inner, []⟩ : Recorded β)).setup.Coherent (Baseline.anyContract (Recorded β)) :=
    (Selector.coherent_ofConfig valid trivial).setup
  have hruns := (twins_start config (⟨inner, []⟩ : Recorded β) delay _).run separated
    fun branch hbranch => List.mem_map_of_mem hbranch
  have hrefuses : ∀ violation, Baseline.Refuses (Recorded β) violation →
      Baseline.Refuses β violation := fun violation => Baseline.refuses_of_recorded
  refine (hruns.ends (Reaches.refl.run_ends hs ordered (Nat.zero_le delay))).imp ?_ fun violation h =>
    ⟨hrefuses violation h.1, h.2⟩
  rintro ⟨feds, r⟩ ⟨⟨hreaches, -⟩, ⟨_, u⟩, hrun, rfl, htwins⟩
  have hdrains := htwins.settleDown separated 0
  refine ⟨u, hrun, congrArg selector (Twins.eq htwins), Twins.finish_eq htwins separated,
    (hdrains.ends (hreaches.drain_ends ordered hs)).imp ?_ fun violation h =>
      ⟨hrefuses violation h.1, h.2⟩⟩
  rintro ⟨resolutions, last⟩ ⟨-, ⟨_, drained⟩, hdrain, rfl, hlast⟩
  exact ⟨drained, hdrain, congrArg selector (Twins.eq hlast)⟩

/-- With the default sizes the addresses of a short trace are separated. -/
theorem eq_of_separated_shortTrace :
    Ordered shortTrace ∧
      Bloom.Separated ({} : Config).filter.bits ({} : Config).filter.hashRounds
        (shortTrace.map Branch.pc) ∧
      ∃ feds r u,
        (start (Selector.ofConfig { arbiter.mode := .bloom }
          (⟨.addressBit 2, []⟩ : Recorded Static)) 1).run shortTrace = .ok (feds, r) ∧
        (start (Selector.ofConfig { arbiter.mode := .oracle }
          (⟨.addressBit 2, []⟩ : Recorded Static)) 1).run shortTrace = .ok (feds, u) ∧
        u.selector.stats = r.selector.stats ∧
        u.selector.baseline.calls = r.selector.baseline.calls ∧
        r.finish = u.finish := by
  have hseparated : Bloom.Separated ({} : Config).filter.bits ({} : Config).filter.hashRounds
      (shortTrace.map Branch.pc) := by decide +kernel
  have hbloom : Selector.create { ({} : Config) with arbiter.mode := .bloom }
      (⟨.addressBit 2, []⟩ : Recorded Static) = .ok (Selector.ofConfig { arbiter.mode := .bloom }
        ⟨.addressBit 2, []⟩) := rfl
  have horacle : Selector.create { ({} : Config) with arbiter.mode := .oracle }
      (⟨.addressBit 2, []⟩ : Recorded Static) = .ok (Selector.ofConfig { arbiter.mode := .oracle }
        ⟨.addressBit 2, []⟩) := rfl
  obtain ⟨⟨feds, r⟩, hrun, u, hrun', hselector, hfinish, -⟩ :=
    (eq_of_separated hbloom horacle ordered_shortTrace hseparated 1).exists_ok_of_not
      fun violation h => Baseline.not_refuses_static violation h.1
  refine ⟨ordered_shortTrace, hseparated, feds, r, u, hrun, hrun', ?_, ?_, hfinish⟩
  · rw [hselector]
  · rw [hselector]

end Replay

end BranchSelector
