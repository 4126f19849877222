import BranchSelector.Json.Skip
import BranchSelector.Proofs.Json.Literal
import BranchSelector.Proofs.Json.Number

/-!
# Values

`Value text` says that a text is a value of JSON, of any depth. White space may stand around the
elements of a list (`Padded`) and around the names and values of an object (`Member`). Every value
is skipped, whatever follows it (`Reads.skipValue`), unless that would go on a number.
-/

namespace BranchSelector.Json

open Reader

/-! ## Texts of values -/

/-- A text with white space before and after it. -/
structure Padded where
  before : List Char
  inner : List Char
  after : List Char
  before_spaces : Spaces before
  after_spaces : Spaces after

def Padded.text (item : Padded) : List Char :=
  item.before ++ (item.inner ++ item.after)

/-- A member of an object: what stands between the quotes of its name, and its value. -/
structure Member where
  before : List Char
  name : List Char
  after : List Char
  value : Padded
  before_spaces : Spaces before
  after_spaces : Spaces after

def Member.text (member : Member) : List Char :=
  member.before ++ '"' :: (member.name ++ '"' :: (member.after ++ ':' :: member.value.text))

theorem Member.text_append (member : Member) (tail : List Char) :
    member.text ++ tail = member.before ++
      '"' :: (member.name ++ '"' :: (member.after ++ ':' :: (member.value.text ++ tail))) := by
  simp only [text, List.append_assoc, List.cons_append]

/-- Texts with commas between them. -/
def joined (texts : List (List Char)) : List Char :=
  [','].intercalate texts

/-- A value of JSON as it is written, without white space around it. -/
inductive Value : List Char → Prop where
  | null : Value ['n', 'u', 'l', 'l']
  | truth : Value ['t', 'r', 'u', 'e']
  | falsity : Value ['f', 'a', 'l', 's', 'e']
  | literal {text : List Char} (h : Quoted text) : Value ('"' :: (text ++ ['"']))
  | number {text : List Char} (h : Numeral text) : Value text
  | emptyList {spaces : List Char} (h : Spaces spaces) : Value ('[' :: (spaces ++ [']']))
  | list {items : List Padded} (hsome : items ≠ []) (h : ∀ item ∈ items, Value item.inner) :
      Value ('[' :: (joined (items.map Padded.text) ++ [']']))
  | emptyObject {spaces : List Char} (h : Spaces spaces) :
      Value ('\x7b' :: (spaces ++ ['\x7d']))
  | object {members : List Member} (hsome : members ≠ [])
      (hnames : ∀ member ∈ members, Quoted member.name)
      (h : ∀ member ∈ members, Value member.value.inner) :
      Value ('\x7b' :: (joined (members.map Member.text) ++ ['\x7d']))

theorem joined_cons (text : List Char) (texts : List (List Char)) :
    joined (text :: texts) = text ++ texts.flatMap (',' :: ·) := by
  induction texts generalizing text with
  | nil => simp [joined, List.intercalate]
  | cons other texts ih =>
    have hnext : joined (text :: other :: texts) = text ++ ',' :: joined (other :: texts) := by
      simp [joined, List.intercalate, List.intersperse]
    rw [hnext, ih]
    rfl

theorem not_mem_joined {c : Char} (hc : c ≠ ',') {texts : List (List Char)}
    (h : ∀ text ∈ texts, c ∉ text) : c ∉ joined texts := by
  cases texts with
  | nil => exact List.not_mem_nil
  | cons text texts =>
    rw [joined_cons, List.mem_append, List.mem_flatMap]
    rintro (hmem | ⟨later, hlater, hmem⟩)
    · exact h text List.mem_cons_self hmem
    · rcases List.mem_cons.1 hmem with heq | hmem
      · exact hc heq
      · exact h later (List.mem_cons_of_mem text hlater) hmem

/-- A text is passed over as a value, with two steps for each of its characters. -/
def Skips (text : List Char) : Prop :=
  ∀ fuel rest, 2 * text.length ≤ fuel → StopsNumber rest →
    Reads (skipValueWithin fuel) (text ++ rest) () rest

/-! ## Where a value begins and ends -/

theorem Numeral.exists_head {text : List Char} (h : Numeral text) :
    ∃ c cs, text = c :: cs ∧ (c = '-' ∨ c.isDigit = true) := by
  cases h with
  | @parts sign whole fraction exponent hsign hwhole =>
    rcases hsign with rfl | rfl
    · obtain ⟨d, ds, rfl⟩ := List.exists_cons_of_ne_nil hwhole.digits.1
      exact ⟨d, _, rfl, .inr (hwhole.digits.2 d List.mem_cons_self)⟩
    · exact ⟨'-', _, rfl, .inl rfl⟩

/-- A value begins with a character that is no white space and does not end a list. -/
theorem Value.exists_head {text : List Char} (h : Value text) :
    ∃ c cs, text = c :: cs ∧ isSpace c = false ∧ c ≠ ']' := by
  cases h with
  | null => exact ⟨_, _, rfl, rfl, by decide⟩
  | truth => exact ⟨_, _, rfl, rfl, by decide⟩
  | falsity => exact ⟨_, _, rfl, rfl, by decide⟩
  | literal => exact ⟨_, _, rfl, rfl, by decide⟩
  | emptyList => exact ⟨_, _, rfl, rfl, by decide⟩
  | list => exact ⟨_, _, rfl, rfl, by decide⟩
  | emptyObject => exact ⟨_, _, rfl, rfl, by decide⟩
  | object => exact ⟨_, _, rfl, rfl, by decide⟩
  | number h =>
    obtain ⟨c, cs, rfl, hc⟩ := h.exists_head
    refine ⟨c, cs, rfl, ?_, ?_⟩
    · rcases hc with rfl | hdigit
      · rfl
      · exact isSpace_of_isDigit hdigit
    · rintro rfl
      rcases hc with hc | hc <;> cases hc

theorem StopsNumber.of_cons {c : Char} (hdigit : c.isDigit = false)
    (hother : c ≠ '.' ∧ c ≠ 'e' ∧ c ≠ 'E') (rest : List Char) : StopsNumber (c :: rest) := by
  rintro _ ⟨⟩
  exact ⟨hdigit, hother⟩

/-- No number goes on into what is left of a list or an object. -/
theorem StopsNumber.of_commas {rest : List Char} (texts : List (List Char))
    (hrest : StopsNumber rest) : StopsNumber (texts.flatMap (',' :: ·) ++ rest) := by
  cases texts with
  | nil => exact hrest
  | cons => exact .of_cons rfl (by decide) _

theorem StopsNumber.of_spaces {spaces rest : List Char} (hspaces : Spaces spaces)
    (hrest : StopsNumber rest) : StopsNumber (spaces ++ rest) := by
  cases spaces with
  | nil => exact hrest
  | cons c spaces =>
    have hc : isSpace c = true := hspaces c List.mem_cons_self
    refine .of_cons (Bool.eq_false_iff.2 fun hdigit => ?_) ⟨?_, ?_, ?_⟩ _
    · rw [isSpace_of_isDigit hdigit] at hc
      cases hc
    all_goals
      rintro rfl
      cases hc

/-! ## Skipping -/

namespace Reads

variable {text rest spaces : List Char} {fuel : Nat}

theorem skipValueWithin_spaces (hspaces : Spaces spaces)
    (h : Reads (Reader.skipValueWithin fuel) text () rest) :
    Reads (Reader.skipValueWithin fuel) (spaces ++ text) () rest := by
  cases fuel with
  | zero => cases h
  | succ fuel =>
    rw [Reader.skipValueWithin] at h ⊢
    exact Reads.skip hspaces h

theorem skipPadded {item : Padded} (h : Skips item.inner) (hfuel : 2 * item.text.length ≤ fuel)
    (hrest : StopsNumber rest) :
    Reads (Reader.skipValueWithin fuel) (item.text ++ rest) () (item.after ++ rest) := by
  have hinner : 2 * item.inner.length ≤ fuel := by
    simp only [Padded.text, List.length_append] at hfuel
    omega
  rw [Padded.text, List.append_assoc, List.append_assoc]
  exact skipValueWithin_spaces item.before_spaces
    (h fuel _ hinner (.of_spaces item.after_spaces hrest))

/-! ### Lists -/

section Lists

variable {item : Padded} {later : List Padded}

theorem skipElements_end (hspaces : Spaces spaces) (hfuel : 0 < fuel) (atStart : Bool) :
    Reads (Reader.skipElements fuel atStart) (spaces ++ ']' :: rest) () rest := by
  cases fuel with
  | zero => cases hfuel
  | succ fuel =>
    rw [Reader.skipElements]
    exact (Reads.peekToken hspaces rfl).bind (Reads.advance ']' rest)

theorem skipElements_later (hlater : ∀ item ∈ later, Skips item.inner) (hspaces : Spaces spaces)
    (hfuel : 2 * ((later.map Padded.text).flatMap (',' :: ·)).length < fuel) :
    Reads (Reader.skipElements fuel false)
      (spaces ++ ((later.map Padded.text).flatMap (',' :: ·) ++ ']' :: rest)) () rest := by
  induction later generalizing fuel spaces with
  | nil => exact skipElements_end hspaces hfuel false
  | cons item later ih =>
    rw [List.map_cons, List.flatMap_cons, List.length_append, List.length_cons] at hfuel
    rw [List.map_cons, List.flatMap_cons, List.append_assoc, List.cons_append]
    cases fuel with
    | zero => cases hfuel
    | succ fuel =>
      rw [Reader.skipElements]
      refine (Reads.peekToken hspaces rfl).bind ((Reads.advance ',' _).bind ?_)
      have hstops : StopsNumber ((later.map Padded.text).flatMap (',' :: ·) ++ ']' :: rest) :=
        .of_commas _ (.of_cons rfl (by decide) rest)
      refine (skipPadded (hlater item List.mem_cons_self) (by omega) hstops).bind ?_
      exact ih (fun other hother => hlater other (List.mem_cons_of_mem item hother))
        item.after_spaces (by omega)

theorem skipElements_first (hitem : Skips item.inner)
    (hhead : ∃ c cs, item.inner = c :: cs ∧ isSpace c = false ∧ c ≠ ']')
    (hlater : ∀ item ∈ later, Skips item.inner)
    (hfuel : 2 * (joined ((item :: later).map Padded.text)).length < fuel) :
    Reads (Reader.skipElements fuel true)
      (joined ((item :: later).map Padded.text) ++ ']' :: rest) () rest := by
  rw [List.map_cons, joined_cons] at hfuel ⊢
  rw [List.length_append] at hfuel
  obtain ⟨c, cs, hinner, hc, hend⟩ := hhead
  cases fuel with
  | zero => cases hfuel
  | succ fuel =>
    rw [Reader.skipElements]
    have hstops : StopsNumber ((later.map Padded.text).flatMap (',' :: ·) ++ ']' :: rest) :=
      .of_commas _ (.of_cons rfl (by decide) rest)
    have hlength : item.text.length =
        item.before.length + (item.inner.length + item.after.length) := by
      rw [Padded.text, List.length_append, List.length_append]
    have hsome : 0 < item.inner.length := by
      rw [hinner]
      exact Nat.succ_pos _
    have hread := hitem fuel _ (by omega) (.of_spaces item.after_spaces hstops)
    rw [Padded.text, List.append_assoc, List.append_assoc, List.append_assoc]
    rw [hinner] at hread ⊢
    refine (Reads.peekToken item.before_spaces hc).bind ?_
    split
    next heq => cases heq
    next heq => exact absurd (Option.some.inj heq) hend
    next =>
      refine hread.bind ?_
      exact skipElements_later hlater item.after_spaces (by omega)

end Lists

/-! ### Objects -/

section Objects

variable {member : Member} {later : List Member}

theorem skipMembers_end (hspaces : Spaces spaces) (hfuel : 0 < fuel) (atStart : Bool) :
    Reads (Reader.skipMembers fuel atStart) (spaces ++ '\x7d' :: rest) () rest := by
  cases fuel with
  | zero => cases hfuel
  | succ fuel =>
    rw [Reader.skipMembers]
    exact (Reads.peekToken hspaces rfl).bind (Reads.advance '\x7d' rest)

/-- A member is skipped with its name and its value, and then what is left of the object. -/
theorem skipMember {tail : List Char} (hname : Quoted member.name)
    (hvalue : Skips member.value.inner) (hfuel : 2 * member.text.length ≤ fuel)
    (hstops : StopsNumber tail)
    (htail : Reads (Reader.skipMembers fuel false) (member.value.after ++ tail) () rest) :
    Reads (do
        Reader.skipLiteral
        Reader.colon
        Reader.skipValueWithin fuel
        Reader.skipMembers fuel false)
      ('"' :: (member.name ++ '"' :: (member.after ++ ':' :: (member.value.text ++ tail)))) ()
      rest := by
  have hinner : 2 * member.value.text.length ≤ fuel := by
    simp only [Member.text, List.length_append, List.length_cons] at hfuel
    omega
  refine (Reads.skipLiteral hname _).bind ?_
  refine (Reads.colon member.after_spaces).bind ?_
  exact (skipPadded hvalue hinner hstops).bind htail

theorem skipMembers_later (hnames : ∀ member ∈ later, Quoted member.name)
    (hvalues : ∀ member ∈ later, Skips member.value.inner) (hspaces : Spaces spaces)
    (hfuel : 2 * ((later.map Member.text).flatMap (',' :: ·)).length < fuel) :
    Reads (Reader.skipMembers fuel false)
      (spaces ++ ((later.map Member.text).flatMap (',' :: ·) ++ '\x7d' :: rest)) () rest := by
  induction later generalizing fuel spaces with
  | nil => exact skipMembers_end hspaces hfuel false
  | cons member later ih =>
    rw [List.map_cons, List.flatMap_cons, List.length_append, List.length_cons] at hfuel
    rw [List.map_cons, List.flatMap_cons, List.append_assoc, List.cons_append]
    cases fuel with
    | zero => cases hfuel
    | succ fuel =>
      rw [Reader.skipMembers]
      refine (Reads.peekToken hspaces rfl).bind ((Reads.advance ',' _).bind ?_)
      have hstops : StopsNumber ((later.map Member.text).flatMap (',' :: ·) ++ '\x7d' :: rest) :=
        .of_commas _ (.of_cons rfl (by decide) rest)
      rw [Member.text_append]
      refine (Reads.peekToken member.before_spaces rfl).bind ?_
      refine skipMember (hnames member List.mem_cons_self) (hvalues member List.mem_cons_self)
        (by omega) hstops ?_
      exact ih (fun other hother => hnames other (List.mem_cons_of_mem member hother))
        (fun other hother => hvalues other (List.mem_cons_of_mem member hother))
        member.value.after_spaces (by omega)

theorem skipMembers_first (hname : Quoted member.name) (hvalue : Skips member.value.inner)
    (hnames : ∀ member ∈ later, Quoted member.name)
    (hvalues : ∀ member ∈ later, Skips member.value.inner)
    (hfuel : 2 * (joined ((member :: later).map Member.text)).length < fuel) :
    Reads (Reader.skipMembers fuel true)
      (joined ((member :: later).map Member.text) ++ '\x7d' :: rest) () rest := by
  rw [List.map_cons, joined_cons] at hfuel ⊢
  rw [List.length_append] at hfuel
  cases fuel with
  | zero => cases hfuel
  | succ fuel =>
    rw [Reader.skipMembers]
    have hstops : StopsNumber ((later.map Member.text).flatMap (',' :: ·) ++ '\x7d' :: rest) :=
      .of_commas _ (.of_cons rfl (by decide) rest)
    have hsome : 0 < member.text.length := by
      rw [Member.text, List.length_append, List.length_cons]
      omega
    rw [List.append_assoc, Member.text_append]
    refine (Reads.peekToken member.before_spaces rfl).bind ?_
    refine (Reads.peekToken_self rfl _).bind ?_
    refine skipMember hname hvalue (by omega) hstops ?_
    exact skipMembers_later hnames hvalues member.value.after_spaces (by omega)

end Objects

end Reads

/-! ### Values -/

theorem Skips.of_succ {text : List Char} (hsome : text ≠ [])
    (h : ∀ fuel rest, 2 * text.length ≤ fuel + 1 → StopsNumber rest →
      Reads (skipValueWithin (fuel + 1)) (text ++ rest) () rest) : Skips text := by
  intro fuel rest hfuel hrest
  cases fuel with
  | zero =>
    have hlength := List.length_pos_iff.2 hsome
    omega
  | succ fuel => exact h fuel rest hfuel hrest

theorem Numeral.skips {text : List Char} (h : Numeral text) : Skips text := by
  obtain ⟨c, cs, rfl, hc⟩ := h.exists_head
  refine .of_succ (List.cons_ne_nil _ _) fun fuel rest _ hrest => ?_
  have hspace : isSpace c = false := by
    rcases hc with rfl | hdigit
    · rfl
    · exact isSpace_of_isDigit hdigit
  rw [skipValueWithin]
  refine (Reads.peekToken_self hspace _).bind ?_
  -- None of the characters that begin another value is a sign or a digit.
  split
  case h_8 heq =>
    obtain rfl := Option.some.inj heq
    rw [if_pos hc]
    exact Reads.skipNumber h hrest
  case h_1 heq => cases heq
  all_goals
    obtain rfl := Option.some.inj ‹some c = some _›
    rcases hc with hc | hc <;> cases hc

/-- Every value is passed over. -/
theorem Value.skips {text : List Char} (h : Value text) : Skips text := by
  induction h with
  | null =>
    refine .of_succ (List.cons_ne_nil _ _) fun fuel rest _ _ => ?_
    rw [skipValueWithin]
    exact (Reads.peekToken_self rfl _).bind (Reads.word ['n', 'u', 'l', 'l'] rest)
  | truth =>
    refine .of_succ (List.cons_ne_nil _ _) fun fuel rest _ _ => ?_
    rw [skipValueWithin]
    exact (Reads.peekToken_self rfl _).bind (Reads.word ['t', 'r', 'u', 'e'] rest)
  | falsity =>
    refine .of_succ (List.cons_ne_nil _ _) fun fuel rest _ _ => ?_
    rw [skipValueWithin]
    exact (Reads.peekToken_self rfl _).bind (Reads.word ['f', 'a', 'l', 's', 'e'] rest)
  | @literal text h =>
    refine .of_succ (List.cons_ne_nil _ _) fun fuel rest _ _ => ?_
    rw [skipValueWithin, List.cons_append, List.append_assoc]
    exact (Reads.peekToken_self rfl _).bind (Reads.skipLiteral h rest)
  | number h => exact h.skips
  | @emptyList spaces h =>
    refine .of_succ (List.cons_ne_nil _ _) fun fuel rest hfuel _ => ?_
    rw [List.length_cons] at hfuel
    rw [skipValueWithin, List.cons_append, List.append_assoc]
    refine (Reads.peekToken_self rfl _).bind ((Reads.advance '[' _).bind ?_)
    exact Reads.skipElements_end h (by omega) true
  | @list items hsome hitems ih =>
    refine .of_succ (List.cons_ne_nil _ _) fun fuel rest hfuel _ => ?_
    rw [List.length_cons, List.length_append] at hfuel
    rw [skipValueWithin, List.cons_append, List.append_assoc]
    refine (Reads.peekToken_self rfl _).bind ((Reads.advance '[' _).bind ?_)
    obtain ⟨item, later, rfl⟩ := List.exists_cons_of_ne_nil hsome
    exact Reads.skipElements_first (ih item List.mem_cons_self)
      (hitems item List.mem_cons_self).exists_head
      (fun other hother => ih other (List.mem_cons_of_mem item hother)) (by omega)
  | @emptyObject spaces h =>
    refine .of_succ (List.cons_ne_nil _ _) fun fuel rest hfuel _ => ?_
    rw [List.length_cons] at hfuel
    rw [skipValueWithin, List.cons_append, List.append_assoc]
    refine (Reads.peekToken_self rfl _).bind ((Reads.advance '\x7b' _).bind ?_)
    exact Reads.skipMembers_end h (by omega) true
  | @object members hsome hnames _ ih =>
    refine .of_succ (List.cons_ne_nil _ _) fun fuel rest hfuel _ => ?_
    rw [List.length_cons, List.length_append] at hfuel
    rw [skipValueWithin, List.cons_append, List.append_assoc]
    refine (Reads.peekToken_self rfl _).bind ((Reads.advance '\x7b' _).bind ?_)
    obtain ⟨member, later, rfl⟩ := List.exists_cons_of_ne_nil hsome
    exact Reads.skipMembers_first (hnames member List.mem_cons_self)
      (ih member List.mem_cons_self)
      (fun other hother => hnames other (List.mem_cons_of_mem member hother))
      (fun other hother => ih other (List.mem_cons_of_mem member hother)) (by omega)

/-- A value is skipped with the white space before it. -/
theorem Reads.skipValue {text rest spaces : List Char} (h : Value text) (hspaces : Spaces spaces)
    (hrest : StopsNumber rest) :
    Reads Reader.skipValue (spaces ++ (text ++ rest)) () rest := by
  refine (Reads.get _).bind ?_
  refine Reads.skipValueWithin_spaces hspaces (h.skips _ rest ?_ hrest)
  simp only [List.length_append]
  omega

end BranchSelector.Json
