import BranchSelector.Json.Literal
import BranchSelector.Proofs.Json.Reads

/-!
# What string literals spell

A character of a string can stand for itself, be written as a short escape or as its UTF-16 units
(`Spells`). However a string is spelled, the literal is read as that string (`Reads.literal`). A
literal that is skipped may also hold units that have no partner (`Quoted`).
-/

namespace BranchSelector.Json

/-- The letters of the short escapes with the characters that they stand for. -/
def shortEscapes : List (Char × Char) :=
  [('"', '"'), ('\\', '\\'), ('/', '/'), ('b', '\x08'), ('f', '\x0c'), ('n', '\n'), ('r', '\r'),
    ('t', '\t')]

/-- Four hexadecimal digits write a UTF-16 unit. -/
inductive WritesUnit : List Char → Nat → Prop where
  | digits {p q r s : Char} {a b c d : Nat} (hp : hexDigit? p = some a)
      (hq : hexDigit? q = some b) (hr : hexDigit? r = some c) (hs : hexDigit? s = some d) :
      WritesUnit [p, q, r, s] (((a * 16 + b) * 16 + c) * 16 + d)

/-- A character that stands for itself between the quotes of a literal. -/
def IsPlain (c : Char) : Prop :=
  ' ' ≤ c ∧ c ≠ '"' ∧ c ≠ '\\'

instance (c : Char) : Decidable (IsPlain c) :=
  inferInstanceAs (Decidable (' ' ≤ c ∧ c ≠ '"' ∧ c ≠ '\\'))

/-- A text whose characters all stand for themselves. -/
def Plain (text : List Char) : Prop :=
  ∀ c ∈ text, IsPlain c

instance (text : List Char) : Decidable (Plain text) :=
  List.decidableBAll _ text

/-- What stands between the quotes of a literal spells some characters. -/
inductive Spells : List Char → List Char → Prop where
  | nil : Spells [] []
  | plain {c : Char} {text cs : List Char} (hplain : IsPlain c) (h : Spells text cs) :
      Spells (c :: text) (c :: cs)
  | short {letter c : Char} {text cs : List Char} (hshort : (letter, c) ∈ shortEscapes)
      (h : Spells text cs) : Spells ('\\' :: letter :: text) (c :: cs)
  | unit {ds text cs : List Char} {unit : Nat} (hunit : WritesUnit ds unit)
      (hleading : isLeading unit = false) (htrailing : isTrailing unit = false)
      (h : Spells text cs) : Spells ('\\' :: 'u' :: (ds ++ text)) (Char.ofNat unit :: cs)
  | pair {ds ds' text cs : List Char} {first second : Nat} (hfirst : WritesUnit ds first)
      (hleading : isLeading first = true) (hsecond : WritesUnit ds' second)
      (htrailing : isTrailing second = true) (h : Spells text cs) :
      Spells ('\\' :: 'u' :: (ds ++ '\\' :: 'u' :: (ds' ++ text)))
        (Char.ofNat ((first - 0xD800) * 0x400 + (second - 0xDC00) + 0x10000) :: cs)

/-- What may stand between the quotes of a literal of which the value is not needed. -/
inductive Quoted : List Char → Prop where
  | nil : Quoted []
  | plain {c : Char} {text : List Char} (hplain : IsPlain c) (h : Quoted text) :
      Quoted (c :: text)
  | short {letter c : Char} {text : List Char} (hshort : (letter, c) ∈ shortEscapes)
      (h : Quoted text) : Quoted ('\\' :: letter :: text)
  | unit {ds text : List Char} {unit : Nat} (hunit : WritesUnit ds unit) (h : Quoted text) :
      Quoted ('\\' :: 'u' :: (ds ++ text))

/-- A string whose characters all stand for themselves spells itself. -/
theorem Spells.self {cs : List Char} (h : Plain cs) : Spells cs cs := by
  induction cs with
  | nil => exact .nil
  | cons c cs ih =>
    exact .plain (h c List.mem_cons_self) (ih fun d hd => h d (List.mem_cons_of_mem c hd))

variable {ds text cs rest : List Char} {unit : Nat}

/-! ## Escapes -/

theorem WritesUnit.length_eq (h : WritesUnit ds unit) : ds.length = 4 := by
  cases h
  rfl

theorem WritesUnit.hexUnit_eq (h : WritesUnit ds unit) (rest : List Char) :
    hexUnit (ds ++ rest) = .ok unit := by
  cases h with
  | @digits p q r s a b c d hp hq hr hs =>
    have htake : ([p, q, r, s] ++ rest).take 4 = [p, q, r, s] := rfl
    have hvalues : [p, q, r, s].mapM hexDigit? = some [a, b, c, d] := by
      simp [hp, hq, hr, hs]
    rw [hexUnit, htake, hvalues]

theorem escape_short {letter c : Char} (h : (letter, c) ∈ shortEscapes) (rest : List Char) :
    escape (letter :: rest) = .ok (c, 1) ∧ escapeSize (letter :: rest) = .ok 1 := by
  simp only [shortEscapes, List.mem_cons, Prod.mk.injEq, List.not_mem_nil, or_false] at h
  rcases h with ⟨rfl, rfl⟩ | ⟨rfl, rfl⟩ | ⟨rfl, rfl⟩ | ⟨rfl, rfl⟩ | ⟨rfl, rfl⟩ | ⟨rfl, rfl⟩ |
    ⟨rfl, rfl⟩ | ⟨rfl, rfl⟩ <;> exact ⟨rfl, rfl⟩

theorem escape_unit (h : WritesUnit ds unit) (hleading : isLeading unit = false)
    (htrailing : isTrailing unit = false) (rest : List Char) :
    escape ('u' :: (ds ++ rest)) = .ok (Char.ofNat unit, 5) := by
  show (hexUnit (ds ++ rest) >>= _) = _
  rw [h.hexUnit_eq]
  show (if isTrailing unit = true then _ else _) = _
  simp only [htrailing, hleading]
  rfl

theorem escape_pair {ds' : List Char} {first second : Nat} (hfirst : WritesUnit ds first)
    (hleading : isLeading first = true) (hsecond : WritesUnit ds' second)
    (htrailing : isTrailing second = true) (rest : List Char) :
    escape ('u' :: (ds ++ '\\' :: 'u' :: (ds' ++ rest))) =
      .ok (Char.ofNat ((first - 0xD800) * 0x400 + (second - 0xDC00) + 0x10000), 11) := by
  have hother : isTrailing first = false := by
    have hrange := of_decide_eq_true hleading
    exact decide_eq_false (by omega)
  have hdrop : (ds ++ '\\' :: 'u' :: (ds' ++ rest)).drop 4 = '\\' :: 'u' :: (ds' ++ rest) := by
    rw [← hfirst.length_eq, List.drop_left]
  have hunit : trailingUnit ('\\' :: 'u' :: (ds' ++ rest)) = .ok second := by
    show (hexUnit (ds' ++ rest) >>= _) = _
    rw [hsecond.hexUnit_eq]
    exact if_pos htrailing
  show (hexUnit (ds ++ '\\' :: 'u' :: (ds' ++ rest)) >>= _) = _
  rw [hfirst.hexUnit_eq]
  show (if isTrailing first = true then _ else if isLeading first = true then
    trailingUnit ((ds ++ '\\' :: 'u' :: (ds' ++ rest)).drop 4) >>= _ else _) = _
  rw [hdrop, hunit, if_neg (by rw [hother]; decide), if_pos hleading]
  rfl

theorem escapeSize_unit (h : WritesUnit ds unit) (rest : List Char) :
    escapeSize ('u' :: (ds ++ rest)) = .ok 5 := by
  show (hexUnit (ds ++ rest) >>= _) = _
  rw [h.hexUnit_eq]
  rfl

/-! ## Literals -/

theorem literalChars_plain {c : Char} (hplain : IsPlain c)
    (h : literalChars 0 text = .ok (cs, rest)) :
    literalChars 0 (c :: text) = .ok (c :: cs, rest) := by
  obtain ⟨hcontrol, hquote, hback⟩ := hplain
  rw [literalChars, if_neg (Char.not_lt.2 hcontrol), h]
  · rfl
  · exact hquote
  · exact hback

theorem literalChars_passed (passed text : List Char) :
    literalChars passed.length (passed ++ text) = literalChars 0 text := by
  induction passed with
  | nil => rfl
  | cons c passed ih => exact ih

theorem literalChars_escape (passed : List Char) {c : Char}
    (hescape : escape (passed ++ text) = .ok (c, passed.length))
    (h : literalChars 0 text = .ok (cs, rest)) :
    literalChars 0 ('\\' :: (passed ++ text)) = .ok (c :: cs, rest) := by
  show (escape (passed ++ text) >>= _) = _
  rw [hescape]
  show (literalChars passed.length (passed ++ text) >>= _) = _
  rw [literalChars_passed, h]
  rfl

theorem literalChars_eq (h : Spells text cs) (rest : List Char) :
    literalChars 0 (text ++ '"' :: rest) = .ok (cs, rest) := by
  induction h with
  | nil => rfl
  | plain hplain _ ih => exact literalChars_plain hplain ih
  | @short letter c text cs hshort _ ih =>
    have hescape : escape ([letter] ++ (text ++ '"' :: rest)) = .ok (c, 1) :=
      (escape_short hshort _).1
    exact literalChars_escape [letter] hescape ih
  | @unit ds text cs unit hunit hleading htrailing _ ih =>
    have hsize : ('u' :: ds).length = 5 := congrArg Nat.succ hunit.length_eq
    have hescape : escape (('u' :: ds) ++ (text ++ '"' :: rest)) = .ok (Char.ofNat unit, 5) :=
      escape_unit hunit hleading htrailing _
    rw [List.cons_append, List.cons_append, List.append_assoc]
    exact literalChars_escape ('u' :: ds) (hsize ▸ hescape) ih
  | @pair ds ds' text cs first second hfirst hleading hsecond htrailing _ ih =>
    have hsize : ('u' :: (ds ++ '\\' :: 'u' :: ds')).length = 11 := by
      simp only [List.length_cons, List.length_append, hfirst.length_eq, hsecond.length_eq]
    have hescape := escape_pair hfirst hleading hsecond htrailing (text ++ '"' :: rest)
    have hassoc : 'u' :: (ds ++ '\\' :: 'u' :: (ds' ++ (text ++ '"' :: rest))) =
        ('u' :: (ds ++ '\\' :: 'u' :: ds')) ++ (text ++ '"' :: rest) := by
      simp only [List.cons_append, List.append_assoc]
    rw [hassoc, ← hsize] at hescape
    have hpair := literalChars_escape _ hescape ih
    simp only [List.cons_append, List.append_assoc] at hpair ⊢
    exact hpair

/-- A literal is read as the string that it spells. -/
theorem Reads.literal (h : Spells text cs) (rest : List Char) :
    Reads Reader.literal ('"' :: (text ++ '"' :: rest)) (String.ofList cs) rest := by
  show (literalChars 0 (text ++ '"' :: rest) >>= _) = _
  rw [literalChars_eq h]
  rfl

theorem afterLiteral_plain {c : Char} (h : IsPlain c) (text : List Char) :
    afterLiteral 0 (c :: text) = afterLiteral 0 text := by
  obtain ⟨hcontrol, hquote, hback⟩ := h
  rw [afterLiteral, if_neg (Char.not_lt.2 hcontrol)]
  · exact hquote
  · exact hback

theorem afterLiteral_passed (passed text : List Char) :
    afterLiteral passed.length (passed ++ text) = afterLiteral 0 text := by
  induction passed with
  | nil => rfl
  | cons c passed ih => exact ih

theorem afterLiteral_escape (passed : List Char)
    (h : escapeSize (passed ++ text) = .ok passed.length) :
    afterLiteral 0 ('\\' :: (passed ++ text)) = afterLiteral 0 text := by
  show (escapeSize (passed ++ text) >>= _) = _
  rw [h, ← afterLiteral_passed passed text]
  rfl

theorem afterLiteral_eq (h : Quoted text) (rest : List Char) :
    afterLiteral 0 (text ++ '"' :: rest) = .ok rest := by
  induction h with
  | nil => rfl
  | plain hplain _ ih => rw [List.cons_append, afterLiteral_plain hplain, ih]
  | @short letter c text hshort _ ih =>
    have hsize : escapeSize ([letter] ++ (text ++ '"' :: rest)) = .ok 1 :=
      (escape_short hshort _).2
    exact (afterLiteral_escape [letter] hsize).trans ih
  | @unit ds text unit hunit _ ih =>
    have hlength : ('u' :: ds).length = 5 := congrArg Nat.succ hunit.length_eq
    have hsize : escapeSize (('u' :: ds) ++ (text ++ '"' :: rest)) = .ok 5 :=
      escapeSize_unit hunit _
    rw [List.cons_append, List.cons_append, List.append_assoc]
    exact (afterLiteral_escape ('u' :: ds) (hlength ▸ hsize)).trans ih

/-- A literal is passed over whatever it spells. -/
theorem Reads.skipLiteral (h : Quoted text) (rest : List Char) :
    Reads Reader.skipLiteral ('"' :: (text ++ '"' :: rest)) () rest := by
  show (afterLiteral 0 (text ++ '"' :: rest) >>= _) = _
  rw [afterLiteral_eq h]
  rfl

end BranchSelector.Json
