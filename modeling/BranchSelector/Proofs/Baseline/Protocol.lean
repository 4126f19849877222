import BranchSelector.Baseline.Recorded
import BranchSelector.Baseline.Static
import BranchSelector.Proofs.Baseline.Contract
import BranchSelector.Proofs.Trace.Order
import BranchSelector.Selector.Basic
import Mathlib.Data.List.Nodup

/-!
# The protocol of a baseline predictor

What the calls that a baseline is given have to look like, if branches are fetched and resolve
in program order. A record that was predicted leads to a prediction and right after it an update
of the history; any other record leads to a single call (`Baseline.fetchCalls`). Some time later
one call consumes the predicted branch (`BaselineCall.Consumes`).

`Baseline.Protocol` says this of a finished list of calls, for each branch alone and for all of
them together. `Baseline.Dialogue` says what is true before the end, when some branches have
still to be consumed: fetching a record adds its calls (`Dialogue.fetch`), and consuming the
oldest branch adds one (`Dialogue.consume`). Once no branch is left, the protocol has been
observed (`Dialogue.protocol`).
-/

namespace BranchSelector

namespace BaselineCall

/-- The branch that a call names. -/
def key? : BaselineCall → Option BranchKey
  | predict key _ _ | updateHistory key _ _ _ _ _ | update key _ _ _ _ | killCheckpoint key
  | decodeNotify key _ | executeNotify key _ _ => some key
  | setup | trackOther _ _ _ _ _ | terminate => none

/-- Whether a call is made at the fetch of a record. -/
def isFetch : BaselineCall → Bool
  | predict _ _ _ | updateHistory _ _ _ _ _ _ | trackOther _ _ _ _ _ => true
  | _ => false

/-- Whether a call consumes a branch. -/
def isConsuming : BaselineCall → Bool
  | update _ _ _ _ _ | killCheckpoint _ => true
  | _ => false

/-- A call consumes a branch that was predicted to go some way: it trains on what became of
the branch, or it discards the checkpoint. -/
inductive Consumes (branch : Branch) (direction : Bool) : BaselineCall → Prop
  | trained : Consumes branch direction
      (.update branch.ident branch.pc branch.taken direction branch.nextPc)
  | discarded : Consumes branch direction (.killCheckpoint branch.ident)

variable {branch : Branch} {direction : Bool} {call : BaselineCall}

theorem Consumes.isConsuming (h : Consumes branch direction call) : call.isConsuming = true := by
  cases h <;> rfl

theorem Consumes.isFetch (h : Consumes branch direction call) : call.isFetch = false := by
  cases h <;> rfl

theorem Consumes.key? (h : Consumes branch direction call) : call.key? = some branch.ident := by
  cases h <;> rfl

end BaselineCall

namespace Baseline

open BaselineCall

/-- The calls that the fetch of a record leads to. -/
def fetchCalls (branch : Branch) : Option Prediction → List BaselineCall
  | some prediction =>
    [.predict branch.ident branch.pc prediction.baselineVote,
      .updateHistory branch.ident branch.pc branch.kind.typeCode prediction.direction branch.taken
        branch.nextPc]
  | none => [.trackOther branch.pc branch.kind.typeCode true branch.taken branch.nextPc]

/-- The records that were predicted, with their predictions. -/
def launches (fetched : List (Branch × Option Prediction)) : List (Branch × Prediction) :=
  fetched.filterMap fun entry => entry.2.map (entry.1, ·)

/-- No call names a branch. -/
def Unnamed (key : BranchKey) (calls : List BaselineCall) : Prop :=
  ∀ call ∈ calls, call.key? ≠ some key

/-- A branch is predicted once and its history is updated right after, and no other call
names it. -/
def Opened (branch : Branch) (prediction : Prediction) (calls : List BaselineCall) : Prop :=
  ∃ before after, calls = before ++ fetchCalls branch (some prediction) ++ after ∧
    Unnamed branch.ident before ∧ Unnamed branch.ident after

/-- A branch is predicted once and its history is updated right after; some time later one call
consumes it, and no other call names it. -/
def Closed (branch : Branch) (prediction : Prediction) (calls : List BaselineCall) : Prop :=
  ∃ before between call after,
    calls = before ++ fetchCalls branch (some prediction) ++ between ++ call :: after ∧
    Consumes branch prediction.direction call ∧
    Unnamed branch.ident before ∧ Unnamed branch.ident between ∧ Unnamed branch.ident after

/-- The calls of a baseline while the records in `fetched` were fetched and resolved. -/
structure Protocol (fetched : List (Branch × Option Prediction)) (calls : List BaselineCall) :
    Prop where
  /-- Exactly the conditional records are predicted. -/
  predicted : ∀ entry ∈ fetched, entry.2.isSome = entry.1.kind.isConditional
  /-- There are no calls but those of a fetch and those that consume. -/
  kinds : ∀ call ∈ calls, call.isFetch = true ∨ call.isConsuming = true
  /-- The calls of the fetches are those of the records, in the order of the records. -/
  fetches : calls.filter isFetch = fetched.flatMap fun entry => fetchCalls entry.1 entry.2
  /-- The predicted records are consumed once each, in the order of the records. -/
  consumptions : List.Forall₂ (fun entry call => Consumes entry.1 entry.2.direction call)
    (launches fetched) (calls.filter isConsuming)
  /-- A predicted record has its own calls, in their order, and is named by no other. -/
  closed : ∀ branch prediction, (branch, some prediction) ∈ fetched →
    Closed branch prediction calls
  /-- No call names a record that was not predicted. -/
  unnamed : ∀ branch, (branch, none) ∈ fetched → Unnamed branch.ident calls

/-- The calls of a baseline as long as some records wait to be consumed. The records in `past`
have been consumed, and those in `waiting` have not. -/
structure Dialogue (fetched : List (Branch × Option Prediction))
    (past waiting : List (Branch × Prediction)) (calls : List BaselineCall) : Prop where
  launches_eq : launches fetched = past ++ waiting
  predicted : ∀ entry ∈ fetched, entry.2.isSome = entry.1.kind.isConditional
  distinct : (fetched.map fun entry => entry.1.ident).Nodup
  kinds : ∀ call ∈ calls, call.isFetch = true ∨ call.isConsuming = true
  /-- A branch that a call names is one of the predicted records. -/
  named : ∀ call ∈ calls, ∀ key ∈ call.key?, ∃ entry ∈ launches fetched, entry.1.ident = key
  fetches : calls.filter isFetch = fetched.flatMap fun entry => fetchCalls entry.1 entry.2
  consumptions : List.Forall₂ (fun entry call => Consumes entry.1 entry.2.direction call)
    past (calls.filter isConsuming)
  opened : ∀ entry ∈ waiting, Opened entry.1 entry.2 calls
  closed : ∀ entry ∈ past, Closed entry.1 entry.2 calls

/-! ## Calls of one branch -/

section Branch

variable {branch : Branch} {prediction : Prediction} {key : BranchKey}
  {calls more : List BaselineCall} {call : BaselineCall}

theorem Unnamed.append (h : Unnamed key calls) (hmore : Unnamed key more) :
    Unnamed key (calls ++ more) := by
  intro call hcall
  rcases List.mem_append.1 hcall with hold | hnew
  · exact h call hold
  · exact hmore call hnew

theorem Opened.append (h : Opened branch prediction calls) (hmore : Unnamed branch.ident more) :
    Opened branch prediction (calls ++ more) := by
  obtain ⟨before, after, rfl, hbefore, hafter⟩ := h
  exact ⟨before, after ++ more, List.append_assoc _ _ _, hbefore, hafter.append hmore⟩

theorem Closed.append (h : Closed branch prediction calls) (hmore : Unnamed branch.ident more) :
    Closed branch prediction (calls ++ more) := by
  obtain ⟨before, between, call, after, rfl, hcall, hbefore, hbetween, hafter⟩ := h
  refine ⟨before, between, call, after ++ more, ?_, hcall, hbefore, hbetween, hafter.append hmore⟩
  rw [List.append_assoc, List.cons_append]

/-- The fetch of a branch that no call named opens it. -/
theorem opened_fetchCalls (h : Unnamed branch.ident calls) (prediction : Prediction) :
    Opened branch prediction (calls ++ fetchCalls branch (some prediction)) :=
  ⟨calls, [], (List.append_nil _).symm, h, nofun⟩

/-- Consuming an open branch closes it. -/
theorem Opened.close (h : Opened branch prediction calls)
    (hcall : Consumes branch prediction.direction call) :
    Closed branch prediction (calls ++ [call]) := by
  obtain ⟨before, after, rfl, hbefore, hafter⟩ := h
  exact ⟨before, after, call, [], rfl, hcall, hbefore, hafter, nofun⟩

/-- The calls of a fetch name no branch but the one that is fetched. -/
theorem unnamed_fetchCalls (hne : branch.ident ≠ key) (prediction : Option Prediction) :
    Unnamed key (fetchCalls branch prediction) := by
  intro call hcall
  cases prediction with
  | none =>
    obtain rfl := List.mem_singleton.1 hcall
    nofun
  | some prediction =>
    rcases List.mem_cons.1 hcall with rfl | hcall
    · exact fun hsame => hne (Option.some.inj hsame)
    · obtain rfl := List.mem_singleton.1 hcall
      exact fun hsame => hne (Option.some.inj hsame)

theorem isFetch_of_mem_fetchCalls {prediction : Option Prediction}
    (h : call ∈ fetchCalls branch prediction) :
    call.isFetch = true ∧ call.isConsuming = false := by
  cases prediction with
  | none =>
    obtain rfl := List.mem_singleton.1 h
    exact ⟨rfl, rfl⟩
  | some prediction =>
    rcases List.mem_cons.1 h with rfl | h
    · exact ⟨rfl, rfl⟩
    · obtain rfl := List.mem_singleton.1 h
      exact ⟨rfl, rfl⟩

end Branch

/-! ## Calls of all branches -/

section Dialogue

variable {fetched : List (Branch × Option Prediction)} {past waiting : List (Branch × Prediction)}
  {calls : List BaselineCall} {branch : Branch} {prediction : Prediction}

theorem mem_launches :
    (branch, prediction) ∈ launches fetched ↔ (branch, some prediction) ∈ fetched := by
  unfold launches
  rw [List.mem_filterMap]
  constructor
  · rintro ⟨⟨other, _ | found⟩, hmem, hentry⟩
    · cases hentry
    · obtain ⟨rfl, rfl⟩ := Prod.mk.inj (Option.some.inj hentry)
      exact hmem
  · exact fun hmem => ⟨_, hmem, rfl⟩

theorem launches_concat (branch : Branch) (prediction : Option Prediction) :
    launches (fetched ++ [(branch, prediction)]) =
      launches fetched ++ (prediction.map (branch, ·)).toList := by
  unfold launches
  rw [List.filterMap_append]
  cases prediction <;> rfl

/-- Before the first record there are no calls. -/
theorem dialogue_nil : Dialogue [] [] [] [] where
  launches_eq := rfl
  predicted := nofun
  distinct := .nil
  kinds := nofun
  named := nofun
  fetches := rfl
  consumptions := .nil
  opened := nofun
  closed := nofun

/-- No two predicted records have the same key. -/
theorem Dialogue.distinct_launches (h : Dialogue fetched past waiting calls) :
    ((past ++ waiting).map fun entry => entry.1.ident).Nodup := by
  refine List.Nodup.sublist ?_ h.distinct
  rw [← h.launches_eq]
  clear h
  induction fetched with
  | nil => exact .slnil
  | cons entry fetched ih =>
    obtain ⟨branch, _ | prediction⟩ := entry
    · exact ih.cons _
    · exact ih.cons_cons _

/-- A record that has not been fetched is named by no call. -/
theorem Dialogue.unnamed (h : Dialogue fetched past waiting calls)
    (hfresh : branch.ident ∉ fetched.map fun entry => entry.1.ident) :
    Unnamed branch.ident calls := by
  intro call hcall hkey
  obtain ⟨⟨other, prediction⟩, hmem, hsame⟩ := h.named call hcall _ hkey
  exact hfresh (List.mem_map.2 ⟨_, mem_launches.1 hmem, hsame⟩)

/-- The fetch of a new record. -/
theorem Dialogue.fetch (h : Dialogue fetched past waiting calls)
    (hfresh : branch.ident ∉ fetched.map fun entry => entry.1.ident)
    {prediction : Option Prediction} (hkind : prediction.isSome = branch.kind.isConditional) :
    Dialogue (fetched ++ [(branch, prediction)]) past
      (waiting ++ (prediction.map (branch, ·)).toList)
      (calls ++ fetchCalls branch prediction) := by
  have hunnamed := h.unnamed hfresh
  -- The new calls name no branch of an earlier record.
  have hothers : ∀ entry ∈ past ++ waiting,
      Unnamed entry.1.ident (fetchCalls branch prediction) := by
    rw [← h.launches_eq]
    refine fun entry hentry => unnamed_fetchCalls (fun hsame => ?_) prediction
    exact hfresh (List.mem_map.2 ⟨_, mem_launches.1 hentry, hsame.symm⟩)
  have hfetches : (fetchCalls branch prediction).filter isFetch = fetchCalls branch prediction :=
    List.filter_eq_self.2 fun call hcall => (isFetch_of_mem_fetchCalls hcall).1
  have hconsumptions : (fetchCalls branch prediction).filter isConsuming = [] :=
    List.filter_eq_nil_iff.2 fun call hcall =>
      Bool.eq_false_iff.1 (isFetch_of_mem_fetchCalls hcall).2
  constructor
  case launches_eq => rw [launches_concat, h.launches_eq, List.append_assoc]
  case predicted =>
    intro entry hentry
    rcases List.mem_append.1 hentry with hold | hnew
    · exact h.predicted entry hold
    · exact List.mem_singleton.1 hnew ▸ hkind
  case distinct =>
    rw [List.map_append, List.nodup_append]
    refine ⟨h.distinct, List.nodup_singleton _, fun key hkey other hother => ?_⟩
    obtain rfl := List.mem_singleton.1 hother
    exact fun hsame : key = branch.ident => hfresh (hsame ▸ hkey)
  case kinds =>
    intro call hcall
    rcases List.mem_append.1 hcall with hold | hnew
    · exact h.kinds call hold
    · exact .inl (isFetch_of_mem_fetchCalls hnew).1
  case named =>
    intro call hcall key hkey
    rw [launches_concat]
    rcases List.mem_append.1 hcall with hold | hnew
    · obtain ⟨entry, hentry, hsame⟩ := h.named call hold key hkey
      exact ⟨entry, List.mem_append_left _ hentry, hsame⟩
    · cases prediction with
      | none =>
        obtain rfl := List.mem_singleton.1 hnew
        cases hkey
      | some prediction =>
        refine ⟨(branch, prediction), List.mem_append_right _ (List.mem_singleton_self _), ?_⟩
        by_contra hne
        exact unnamed_fetchCalls hne (some prediction) call hnew hkey
  case fetches => rw [List.filter_append, hfetches, h.fetches, List.flatMap_append,
    List.flatMap_singleton]
  case consumptions =>
    rw [List.filter_append, hconsumptions, List.append_nil]
    exact h.consumptions
  case opened =>
    intro entry hentry
    rcases List.mem_append.1 hentry with hold | hnew
    · exact (h.opened entry hold).append (hothers entry (List.mem_append_right _ hold))
    · cases prediction with
      | none => cases hnew
      | some prediction =>
        obtain rfl := List.mem_singleton.1 hnew
        exact opened_fetchCalls hunnamed prediction
  case closed =>
    exact fun entry hentry =>
      (h.closed entry hentry).append (hothers entry (List.mem_append_left _ hentry))

/-- The oldest waiting branch is consumed. -/
theorem Dialogue.consume {call : BaselineCall}
    (h : Dialogue fetched past ((branch, prediction) :: waiting) calls)
    (hcall : Consumes branch prediction.direction call) :
    Dialogue fetched (past ++ [(branch, prediction)]) waiting (calls ++ [call]) := by
  have hsplit : past ++ (branch, prediction) :: waiting =
      past ++ [(branch, prediction)] ++ waiting := by
    rw [List.append_assoc, List.singleton_append]
  -- The call names the oldest branch, and so none of the others.
  have hdistinct := h.distinct_launches
  rw [List.map_append, List.map_cons, List.nodup_append, List.nodup_cons] at hdistinct
  have hother : ∀ entry : Branch × Prediction, branch.ident ≠ entry.1.ident →
      Unnamed entry.1.ident [call] := by
    intro entry hne other hmem hkey
    obtain rfl := List.mem_singleton.1 hmem
    exact hne (Option.some.inj (hcall.key?.symm.trans hkey))
  constructor
  case launches_eq => rw [h.launches_eq, hsplit]
  case predicted => exact h.predicted
  case distinct => exact h.distinct
  case kinds =>
    intro other hmem
    rcases List.mem_append.1 hmem with hold | hnew
    · exact h.kinds other hold
    · exact .inr (List.mem_singleton.1 hnew ▸ hcall.isConsuming)
  case named =>
    intro other hmem key hkey
    rcases List.mem_append.1 hmem with hold | hnew
    · exact h.named other hold key hkey
    · obtain rfl := List.mem_singleton.1 hnew
      refine ⟨(branch, prediction), ?_, Option.some.inj (hcall.key?.symm.trans hkey)⟩
      rw [h.launches_eq]
      exact List.mem_append_right _ List.mem_cons_self
  case fetches =>
    rw [List.filter_append, List.filter_singleton, hcall.isFetch, h.fetches]
    exact List.append_nil _
  case consumptions =>
    rw [List.filter_append, List.filter_singleton, hcall.isConsuming]
    exact List.rel_append h.consumptions (.cons hcall .nil)
  case opened =>
    intro entry hentry
    refine (h.opened entry (List.mem_cons_of_mem _ hentry)).append (hother entry fun hsame => ?_)
    exact hdistinct.2.1.1 (List.mem_map.2 ⟨entry, hentry, hsame.symm⟩)
  case closed =>
    intro entry hentry
    rcases List.mem_append.1 hentry with hold | hnew
    · refine (h.closed entry hold).append (hother entry fun hsame => ?_)
      exact hdistinct.2.2 _ (List.mem_map_of_mem hold) _ List.mem_cons_self hsame.symm
    · obtain rfl := List.mem_singleton.1 hnew
      exact (h.opened _ List.mem_cons_self).close hcall

/-- Once no branch waits, the protocol has been observed. -/
theorem Dialogue.protocol (h : Dialogue fetched past [] calls) : Protocol fetched calls := by
  have hlaunches : launches fetched = past := h.launches_eq.trans (List.append_nil _)
  constructor
  case predicted => exact h.predicted
  case kinds => exact h.kinds
  case fetches => exact h.fetches
  case consumptions => exact hlaunches ▸ h.consumptions
  case closed =>
    intro branch prediction hmem
    exact h.closed _ (hlaunches ▸ mem_launches.2 hmem)
  case unnamed =>
    -- A branch that a call names was predicted, and no two records have the same key.
    intro branch hmem call hcall hkey
    obtain ⟨⟨other, prediction⟩, hentry, hsame⟩ := h.named call hcall _ hkey
    have hentries := List.inj_on_of_nodup_map h.distinct hmem (mem_launches.1 hentry) hsame.symm
    cases hentries

end Dialogue

/-! ## Refusals -/

/-- Recording a predictor does not make it refuse anything else. -/
theorem refuses_of_recorded {β : Type} [Baseline β] {violation : Violation}
    (h : Refuses (Recorded β) violation) : Refuses β violation := by
  rcases h with ⟨b, key, pc, taken, predicted, nextPc, hupdate⟩ | ⟨b, key, hkill⟩
  · exact .inl ⟨b.inner, key, pc, taken, predicted, nextPc, map_eq_error_iff.1 hupdate⟩
  · exact .inr ⟨b.inner, key, map_eq_error_iff.1 hkill⟩

theorem not_refuses_static (violation : Violation) : ¬ Refuses Static violation := by
  rintro (⟨_, _, _, _, _, _, hupdate⟩ | ⟨_, _, hkill⟩)
  · cases hupdate
  · cases hkill

end Baseline

end BranchSelector
