/-!
# What a call answers

A call answers with a value or with an error. `bind_eq_ok_iff` takes apart a call that is
made of two, and is the only fact about such calls that proofs about runs need.
`Ends` says of a call what its value is like if it answers one, and what its error is like
otherwise. `Alike` compares two calls: they fail with the same error, or answer with related
values. Both are kept in step with the way in which calls are put together.
-/

namespace BranchSelector

/-- Two calls in a row answer if and only if both do. -/
theorem bind_eq_ok_iff {ε α γ : Type} {first : Except ε α} {next : α → Except ε γ} {last : γ} :
    first >>= next = .ok last ↔ ∃ middle, first = .ok middle ∧ next middle = .ok last := by
  cases first with
  | ok middle =>
    constructor
    · exact fun h => ⟨middle, rfl, h⟩
    · rintro ⟨_, hfirst, hnext⟩
      exact Except.ok.inj hfirst ▸ hnext
  | error e =>
    constructor
    · exact fun h => nomatch h
    · rintro ⟨_, hfirst, -⟩
      cases hfirst

/-- A call whose answers are turned into others fails as the call does. -/
theorem map_eq_error_iff {ε α γ : Type} {result : Except ε α} {turn : α → γ} {e : ε} :
    result.map turn = .error e ↔ result = .error e := by
  cases result with
  | ok answer => exact ⟨nofun, nofun⟩
  | error violation => exact ⟨fun h => congrArg _ (Except.error.inj h), fun h => h ▸ rfl⟩

theorem map_eq_ok_iff {ε α γ : Type} {result : Except ε α} {turn : α → γ} {last : γ} :
    result.map turn = .ok last ↔ ∃ answer, result = .ok answer ∧ turn answer = last := by
  cases result with
  | ok answer =>
    constructor
    · exact fun h => ⟨answer, rfl, Except.ok.inj h⟩
    · rintro ⟨_, hanswer, rfl⟩
      exact Except.ok.inj hanswer ▸ rfl
  | error e =>
    constructor
    · exact nofun
    · rintro ⟨_, hanswer, -⟩
      cases hanswer

/-- A list passes a check if each of its elements does. -/
theorem forM_eq_ok {ε α : Type} {check : α → Except ε PUnit} {items : List α}
    (h : ∀ item ∈ items, check item = .ok ()) : items.forM check = .ok () := by
  induction items with
  | nil => rfl
  | cons item items ih =>
    show (do check item; items.forM check) = _
    rw [h item List.mem_cons_self]
    exact ih fun other hother => h other (List.mem_cons_of_mem _ hother)

/-- A call ends well with an answer of one kind or badly with an error of one kind. -/
def Ends {ε α : Type} (result : Except ε α) (good : α → Prop) (bad : ε → Prop) : Prop :=
  match result with
  | .ok answer => good answer
  | .error e => bad e

/-- Whether a call gives an answer can be computed. -/
theorem exists_eq_ok_of_isOk {ε α : Type} {result : Except ε α} (h : result.isOk = true) :
    ∃ answer, result = .ok answer := by
  cases result with
  | ok answer => exact ⟨answer, rfl⟩
  | error e => cases h

namespace Ends

variable {ε α γ : Type} {result : Except ε α} {good : α → Prop} {bad : ε → Prop}

theorem of_eq_ok {answer : α} (h : result = .ok answer) (hgood : good answer) :
    Ends result good bad := by
  subst h
  exact hgood

theorem imp {good' : α → Prop} {bad' : ε → Prop} (h : Ends result good bad)
    (hgood : ∀ a, good a → good' a) (hbad : ∀ e, bad e → bad' e) : Ends result good' bad' := by
  cases result with
  | ok answer => exact hgood answer h
  | error e => exact hbad e h

theorem mono {good' : α → Prop} (h : Ends result good bad) (hgood : ∀ a, good a → good' a) :
    Ends result good' bad :=
  h.imp hgood fun _ => id

/-- The answer that is of some kind is the one that the call has given. -/
theorem with_eq (h : Ends result good bad) :
    Ends result (fun answer => result = .ok answer ∧ good answer) bad := by
  cases result with
  | ok answer => exact ⟨rfl, h⟩
  | error e => exact h

/-- Two calls in a row end as they should if the second does on every answer that the first
may give. -/
theorem bind {next : α → Except ε γ} {good' : γ → Prop} (h : Ends result good bad)
    (hnext : ∀ a, good a → Ends (next a) good' bad) : Ends (result >>= next) good' bad := by
  cases result with
  | ok answer => exact hnext answer h
  | error e => exact h

theorem of_ok {answer : α} (h : Ends result good bad) (hok : result = .ok answer) :
    good answer := by
  subst hok
  exact h

theorem of_error {e : ε} (h : Ends result good bad) (herr : result = .error e) : bad e := by
  subst herr
  exact h

/-- A call gives an answer if there are no errors for it to end badly with. -/
theorem exists_ok_of_not (h : Ends result good bad) (hnot : ∀ e, ¬ bad e) :
    ∃ answer, result = .ok answer ∧ good answer := by
  cases result with
  | ok answer => exact ⟨answer, rfl, h⟩
  | error e => exact absurd h (hnot e)

/-- A call that may not end badly gives an answer. -/
theorem exists_ok (h : Ends result good fun _ => False) : ∃ answer, result = .ok answer ∧
    good answer :=
  h.exists_ok_of_not fun _ => id

end Ends

/-- Two calls end alike: with the same error, or with answers that are related. -/
def Alike {ε α γ : Type} (R : α → γ → Prop) : Except ε α → Except ε γ → Prop
  | .ok a, .ok b => R a b
  | .error e, .error f => e = f
  | _, _ => False

/-- Two answers give the same value and leave related states behind. -/
def Answers {α S T : Type} (R : S → T → Prop) (a : α × S) (b : α × T) : Prop :=
  a.1 = b.1 ∧ R a.2 b.2

namespace Alike

variable {ε α γ : Type} {R : α → γ → Prop} {first : Except ε α} {second : Except ε γ}

theorem refl (result : Except ε α) : Alike Eq result result := by
  cases result <;> exact rfl

theorem mono {R' : α → γ → Prop} (h : Alike R first second) (hR : ∀ a b, R a b → R' a b) :
    Alike R' first second := by
  cases first with
  | ok a =>
    cases second with
    | ok b => exact hR a b h
    | error e => exact h.elim
  | error e =>
    cases second with
    | ok b => exact h.elim
    | error f => exact h

/-- The answers that are related are those that the calls have given. -/
theorem with_eq (h : Alike R first second) :
    Alike (fun a b => first = .ok a ∧ second = .ok b ∧ R a b) first second := by
  cases first with
  | ok a =>
    cases second with
    | ok b => exact ⟨rfl, rfl, h⟩
    | error e => exact h.elim
  | error e =>
    cases second with
    | ok b => exact h.elim
    | error f => exact h

/-- Two calls in a row end alike if the second ones do on every two answers that the first
ones may give. -/
theorem bind {α' γ' : Type} {R' : α' → γ' → Prop} {next : α → Except ε α'} {next' : γ → Except ε γ'}
    (h : Alike R first second) (hnext : ∀ a b, R a b → Alike R' (next a) (next' b)) :
    Alike R' (first >>= next) (second >>= next') := by
  cases first with
  | ok a =>
    cases second with
    | ok b => exact hnext a b h
    | error e => exact h.elim
  | error e =>
    cases second with
    | ok b => exact h.elim
    | error f => exact h

/-- Calls that answer the same are the same. -/
theorem eq {first second : Except ε α} (h : Alike Eq first second) : first = second := by
  cases first with
  | ok a =>
    cases second with
    | ok b => exact congrArg Except.ok h
    | error e => exact h.elim
  | error e =>
    cases second with
    | ok b => exact h.elim
    | error f => exact congrArg Except.error h

/-- If one call answers, so does the other. -/
theorem of_ok {a : α} (h : Alike R first second) (hok : first = .ok a) :
    ∃ b, second = .ok b ∧ R a b := by
  subst hok
  cases second with
  | ok b => exact ⟨b, rfl, h⟩
  | error e => exact h.elim

/-- How one call ends says how the other does. -/
theorem ends {good : α → Prop} {bad : ε → Prop} (h : Alike R first second)
    (hends : Ends first good bad) :
    Ends first (fun a => good a ∧ ∃ b, second = .ok b ∧ R a b)
      (fun e => bad e ∧ second = .error e) := by
  cases first with
  | ok a =>
    cases second with
    | ok b => exact ⟨hends, b, rfl, h⟩
    | error e => exact h.elim
  | error e =>
    cases second with
    | ok b => exact h.elim
    | error f => exact ⟨hends, congrArg Except.error (show e = f from h).symm⟩

end Alike

end BranchSelector
