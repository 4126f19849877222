import BranchSelector.Json.Shape
import BranchSelector.Proofs.Json.Reads

/-!
# How numbers are written

A number is digits without a needless zero, with a sign before them and a fraction and an exponent
after them if need be (`Numeral`). Its end shows only in what follows: the text after a number has
to begin with a character that would not go on it (`StopsNumber`).

Every numeral is skipped (`Reads.skipNumber`). A natural number below some bound is read off its
decimal digits (`Reads.natural`), which are absorbed up to the last one because the number fits 64
bits.
-/

namespace BranchSelector.Json

open Reader

theorem isSpace_of_isDigit {d : Char} (h : d.isDigit = true) : isSpace d = false := by
  have hbound : 48 ≤ d.toNat := by
    simp only [Char.isDigit, Bool.and_eq_true, decide_eq_true_eq] at h
    exact h.1
  simp only [isSpace, Bool.or_eq_false_iff, beq_eq_false_iff_ne]
  refine ⟨⟨⟨?_, ?_⟩, ?_⟩, ?_⟩ <;>
    · rintro rfl
      exact absurd hbound (by decide)

/-- At least one digit, and nothing else. -/
def Digits (text : List Char) : Prop :=
  text ≠ [] ∧ ∀ d ∈ text, d.isDigit = true

/-- Digits of which the first is not a needless zero. -/
structure WholePart (text : List Char) : Prop where
  digits : Digits text
  significant : text.head? = some '0' → text.length = 1

/-- A point and the digits after it, if there are any. -/
inductive FractionPart : List Char → Prop where
  | absent : FractionPart []
  | digits {ds : List Char} (h : Digits ds) : FractionPart ('.' :: ds)

/-- The letter of an exponent, its sign and its digits, if there are any. -/
inductive ExponentPart : List Char → Prop where
  | absent : ExponentPart []
  | digits {letter : Char} {sign ds : List Char} (hletter : letter = 'e' ∨ letter = 'E')
      (hsign : sign = [] ∨ sign = ['+'] ∨ sign = ['-']) (h : Digits ds) :
      ExponentPart (letter :: (sign ++ ds))

/-- A number as JSON writes it. -/
inductive Numeral : List Char → Prop where
  | parts {sign whole fraction exponent : List Char} (hsign : sign = [] ∨ sign = ['-'])
      (hwhole : WholePart whole) (hfraction : FractionPart fraction)
      (hexponent : ExponentPart exponent) : Numeral (sign ++ (whole ++ (fraction ++ exponent)))

/-- Digits do not go on into a text. -/
def StopsDigits (text : List Char) : Prop :=
  ∀ c ∈ text.head?, c.isDigit = false

/-- A number does not go on into a text. -/
def StopsNumber (text : List Char) : Prop :=
  ∀ c ∈ text.head?, c.isDigit = false ∧ c ≠ '.' ∧ c ≠ 'e' ∧ c ≠ 'E'

variable {text rest : List Char}

theorem StopsNumber.stopsDigits (h : StopsNumber rest) : StopsDigits rest :=
  fun c hc => (h c hc).1

theorem ExponentPart.stopsDigits (h : ExponentPart text) (hrest : StopsNumber rest) :
    StopsDigits (text ++ rest) := by
  cases h with
  | absent => exact hrest.stopsDigits
  | digits hletter =>
    intro c hc
    obtain rfl := Option.some.inj hc
    rcases hletter with rfl | rfl <;> rfl

theorem FractionPart.stopsDigits (h : FractionPart text) (hrest : StopsDigits rest) :
    StopsDigits (text ++ rest) := by
  cases h with
  | absent => exact hrest
  | digits =>
    intro c hc
    obtain rfl := Option.some.inj hc
    rfl

theorem ExponentPart.head?_ne_point (h : ExponentPart text) (hrest : StopsNumber rest) :
    (text ++ rest).head? ≠ some '.' := by
  cases h with
  | absent => exact fun heq => absurd rfl (hrest _ heq).2.1
  | digits hletter => rcases hletter with rfl | rfl <;> exact fun heq => nomatch heq

theorem WholePart.not_needless (h : WholePart text) :
    ¬ (text.head? = some '0' ∧ 1 < text.length) := by
  rintro ⟨hzero, hlong⟩
  rw [h.significant hzero] at hlong
  exact absurd hlong (Nat.lt_irrefl 1)

theorem Digits.head?_eq (h : Digits text) (rest : List Char) :
    ∃ d, (text ++ rest).head? = some d ∧ d.isDigit = true := by
  cases text with
  | nil => exact absurd rfl h.1
  | cons d ds => exact ⟨d, rfl, h.2 d List.mem_cons_self⟩

/-- Digits do not begin with a sign, a letter or a point. -/
theorem Digits.head?_ne (h : Digits text) (rest : List Char) {c : Char} (hc : c.isDigit = false) :
    (text ++ rest).head? ≠ some c := by
  obtain ⟨d, hd, hdigit⟩ := h.head?_eq rest
  rw [hd]
  rintro ⟨⟩
  rw [hc] at hdigit
  cases hdigit

namespace Reads

theorem skipSomeDigits (h : Digits text) (hrest : StopsDigits rest) :
    Reads Reader.skipSomeDigits (text ++ rest) () rest := by
  refine (Reads.digits h.2 hrest).bind ?_
  rw [if_neg (by simpa using h.1)]
  exact Reads.pure () rest

theorem skipExponent (h : ExponentPart text) (hrest : StopsNumber rest) :
    Reads Reader.skipExponent (text ++ rest) () rest := by
  refine (Reads.peek _).bind ?_
  cases h with
  | absent =>
    split
    next heq => exact absurd rfl (hrest _ heq).2.2.1
    next heq => exact absurd rfl (hrest _ heq).2.2.2
    next => exact Reads.pure () rest
  | @digits letter sign ds hletter hsign h =>
    have htail : Reads (do
        Reader.advance
        let sign ← Reader.peek
        if sign = some '+' ∨ sign = some '-' then Reader.advance
        Reader.skipSomeDigits) (letter :: (sign ++ ds) ++ rest) () rest := by
      refine (Reads.advance letter (sign ++ ds ++ rest)).bind ?_
      rw [List.append_assoc]
      refine Reads.optional ?_ (skipSomeDigits h hrest.stopsDigits)
      rcases hsign with rfl | rfl | rfl
      · exact .inl ⟨rfl, not_or.2 ⟨h.head?_ne rest rfl, h.head?_ne rest rfl⟩⟩
      · exact .inr ⟨_, rfl, .inl rfl⟩
      · exact .inr ⟨_, rfl, .inr rfl⟩
    rcases hletter with rfl | rfl <;> exact htail

theorem skipNumber (h : Numeral text) (hrest : StopsNumber rest) :
    Reads Reader.skipNumber (text ++ rest) () rest := by
  cases h with
  | @parts sign whole fraction exponent hsign hwhole hfraction hexponent =>
    have hafter : StopsDigits (fraction ++ (exponent ++ rest)) :=
      hfraction.stopsDigits (hexponent.stopsDigits hrest)
    simp only [List.append_assoc]
    refine Reads.optional ?_ ?_
    · rcases hsign with rfl | rfl
      · exact .inl ⟨rfl, hwhole.digits.head?_ne _ rfl⟩
      · exact .inr ⟨'-', rfl, rfl⟩
    refine (Reads.digits hwhole.digits.2 hafter).bind ?_
    rw [if_neg (not_or.2 ⟨by simpa using hwhole.digits.1, hwhole.not_needless⟩)]
    refine (Reads.peek _).bind ?_
    cases hfraction with
    | absent =>
      rw [List.nil_append, if_neg (hexponent.head?_ne_point hrest)]
      exact skipExponent hexponent hrest
    | @digits ds h =>
      rw [List.cons_append, List.head?_cons, if_pos rfl]
      refine (Reads.advance '.' _).bind ?_
      refine (skipSomeDigits h (hexponent.stopsDigits hrest)).bind ?_
      exact skipExponent hexponent hrest

/-! ## Natural numbers -/

theorem someDigits (h : Digits text) (hrest : StopsDigits rest) :
    Reads Reader.someDigits (text ++ rest) text rest := by
  refine (Reads.digits h.2 hrest).bind ?_
  rw [if_neg (by simpa using h.1)]
  exact Reads.pure text rest

end Reads

theorem le_foldl_digits (n : Nat) (ds : List Char) :
    n ≤ ds.foldl (fun n d => 10 * n + digitValue d) n := by
  induction ds generalizing n with
  | nil => exact Nat.le_refl n
  | cons d ds ih =>
    have hstep : n ≤ 10 * n + digitValue d := by omega
    exact Nat.le_trans hstep (ih _)

/-- Digits are absorbed up to the last one if their number fits 64 bits. -/
theorem absorb_eq {significand : Nat} {ds : List Char}
    (h : ds.foldl (fun n d => 10 * n + digitValue d) significand < UInt64.size) :
    absorb significand ds =
      (ds.foldl (fun n d => 10 * n + digitValue d) significand, ds.length) := by
  induction ds generalizing significand with
  | nil => rfl
  | cons d ds ih =>
    rw [List.foldl_cons] at h ⊢
    have hlt : 10 * significand + digitValue d < UInt64.size :=
      Nat.lt_of_le_of_lt (le_foldl_digits _ ds) h
    rw [absorb, if_pos hlt, ih h]
    rfl

theorem digitsValue_toDigits (n : Nat) : digitsValue (Nat.toDigits 10 n) = n :=
  Nat.ofDigitChars_toDigits (by decide) (by decide)

/-- The decimal digits of a natural number have no needless zero. -/
theorem length_toDigits_of_head? (n : Nat) (h : (Nat.toDigits 10 n).head? = some '0') :
    (Nat.toDigits 10 n).length = 1 := by
  induction n using Nat.strongRecOn with
  | _ n ih =>
    by_cases hlt : n < 10
    · rw [Nat.toDigits_of_lt_base hlt]
      rfl
    · have hsplit : Nat.toDigits 10 n = Nat.toDigits 10 (n / 10) ++ Nat.toDigits 10 (n % 10) := by
        rw [Nat.toDigits_append_toDigits (by decide) (by omega) (by omega), Nat.div_add_mod]
      have hhead : (Nat.toDigits 10 (n / 10)).head? = some '0' := by
        obtain ⟨c, cs, hcs⟩ :=
          List.exists_cons_of_ne_nil (Nat.toDigits_ne_nil (n := n / 10) (b := 10))
        rw [hsplit, hcs] at h
        rw [hcs]
        exact h
      -- The digits before the last one are a zero alone, but they write more than zero.
      obtain ⟨d, hone⟩ := List.length_eq_one_iff.1 (ih (n / 10) (by omega) hhead)
      have hvalue := digitsValue_toDigits (n / 10)
      rw [hone] at hhead hvalue
      obtain rfl := Option.some.inj hhead
      have hzero : digitsValue ['0'] = 0 := rfl
      omega

theorem wholePart_toDigits (n : Nat) : WholePart (Nat.toDigits 10 n) where
  digits := ⟨Nat.toDigits_ne_nil,
    fun _ hd => Nat.isDigit_of_mem_toDigits (by decide) (by decide) hd⟩
  significant := length_toDigits_of_head? n

namespace Reads

theorem unsigned {n : Nat} (hn : n < UInt64.size) (hrest : StopsNumber rest) :
    Reads (Reader.unsigned false) (Nat.toDigits 10 n ++ rest) (.natural n) rest := by
  have hwhole := wholePart_toDigits n
  have habsorb : absorb 0 (Nat.toDigits 10 n) = (n, (Nat.toDigits 10 n).length) := by
    have hvalue := digitsValue_toDigits n
    rw [digitsValue] at hvalue
    rw [absorb_eq (by rwa [hvalue]), hvalue]
  refine (someDigits hwhole.digits hrest.stopsDigits).bind ?_
  rw [if_neg hwhole.not_needless, habsorb]
  refine (Reads.peek rest).bind ?_
  split
  next heq => exact absurd rfl (hrest _ heq).2.1
  next heq => exact absurd rfl (hrest _ heq).2.2.1
  next heq => exact absurd rfl (hrest _ heq).2.2.2
  next =>
    rw [if_pos (Int.sub_self _)]
    exact Reads.pure _ rest

/-- A natural number is read off its digits. -/
theorem natural {n bound : Nat} (hn : n < bound) (hbound : bound ≤ UInt64.size) (expected : String)
    {spaces : List Char} (hspaces : Spaces spaces) (hrest : StopsNumber rest) :
    Reads (Reader.natural bound expected) (spaces ++ (Nat.toDigits 10 n ++ rest)) n rest := by
  obtain ⟨d, ds, hds⟩ := List.exists_cons_of_ne_nil (wholePart_toDigits n).digits.1
  have hdigit : d.isDigit = true :=
    (wholePart_toDigits n).digits.2 d (hds ▸ List.mem_cons_self)
  have hminus : d ≠ '-' := by
    rintro rfl
    cases hdigit
  have hunsigned := unsigned (Nat.lt_of_lt_of_le hn hbound) hrest
  rw [hds] at hunsigned ⊢
  refine (Reads.peekToken hspaces (isSpace_of_isDigit hdigit)).bind ?_
  dsimp only
  rw [if_pos (.inr hdigit)]
  have hnumber : Reads Reader.number (d :: ds ++ rest) (.natural n) rest := by
    refine (Reads.peek _).bind ?_
    rw [List.cons_append, List.head?_cons, if_neg fun heq => hminus (Option.some.inj heq)]
    exact hunsigned
  refine hnumber.bind ?_
  dsimp only
  rw [if_pos hn]
  exact Reads.pure n rest

theorem word64 (n : UInt64) {spaces : List Char} (hspaces : Spaces spaces)
    (hrest : StopsNumber rest) :
    Reads Reader.word64 (spaces ++ (Nat.toDigits 10 n.toNat ++ rest)) n rest := by
  refine (natural n.toNat_lt (Nat.le_refl _) "u64" hspaces hrest).bind ?_
  rw [UInt64.ofNat_toNat]
  exact Reads.pure n rest

theorem byte (n : UInt8) {spaces : List Char} (hspaces : Spaces spaces)
    (hrest : StopsNumber rest) :
    Reads Reader.byte (spaces ++ (Nat.toDigits 10 n.toNat ++ rest)) n rest := by
  refine (natural n.toNat_lt (by decide) "u8" hspaces hrest).bind ?_
  rw [UInt8.ofNat_toNat]
  exact Reads.pure n rest

end Reads

end BranchSelector.Json
