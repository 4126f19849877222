import BranchSelector.Json.Shape
import BranchSelector.Proofs.Json.Value

/-!
# Objects of a known shape

A record is written as the members of an object, each with the name that it spells. A member of a
field writes something into the record, and any other member has to be a value
(`Shape.Understands`). What the record comes to is said by a function of the names of the fields
that were there, so the order of the members does not matter to it.

If each member is understood, no field is there twice and no required one is missing, the object is
read as the record (`Reads.object`).
-/

namespace BranchSelector.Json

open Reader

variable {α : Type} {shape : Shape α} {state : List String → α}

/-- A member with the name that it spells. -/
structure NamedMember extends Member where
  spelled : String
  spells : Spells name spelled.toList

/-- A member whose name spells itself, with nothing around its parts. -/
def NamedMember.plain (name : String) (value : List Char) (h : Plain name.toList) :
    NamedMember where
  before := []
  name := name.toList
  after := []
  value := ⟨[], value, [], .nil, .nil⟩
  before_spaces := .nil
  after_spaces := .nil
  spelled := name
  spells := .self h

/-- A plain member is on one line if its value is. -/
theorem NamedMember.lineFeed_not_mem_plain {name : String} {value : List Char}
    (hname : Plain name.toList) (hvalue : '\n' ∉ value) :
    '\n' ∉ (NamedMember.plain name value hname).text := by
  have hnone : '\n' ∉ name.toList := fun hmem => absurd (hname _ hmem) (by decide)
  simp [plain, Member.text, Padded.text, hnone, hvalue]

/-- Some field of a shape has a name. -/
def Shape.knows (shape : Shape α) (name : String) : Bool :=
  (shape.fields.find? (·.name == name)).isSome

/-- A member is a field of which the value is written into the record, or it is skipped. The record
is a function of the fields that were there. -/
inductive Shape.Understands (shape : Shape α) (state : List String → α) (name : String)
    (value : Padded) : Prop where
  | known (field : Field α) (write : α → α)
      (hfield : shape.fields.find? (·.name == name) = some field)
      (hread : ∀ rest, StopsNumber rest →
        Reads field.read (value.before ++ (value.inner ++ rest)) write rest)
      (hwrite : ∀ seen, write (state seen) = state (name :: seen))
  | unknown (hfield : shape.fields.find? (·.name == name) = none) (hvalue : Value value.inner)

/-- The names of the fields among some members, the last one first. -/
def Shape.named (shape : Shape α) (members : List NamedMember) : List String :=
  ((members.map (·.spelled)).filter shape.knows).reverse

theorem Shape.named_cons (shape : Shape α) (member : NamedMember) (members : List NamedMember) :
    shape.named (member :: members) = shape.named members ++ shape.named [member] := by
  show shape.named ([member] ++ members) = _
  simp only [named, List.map_append, List.filter_append, List.reverse_append]

/-! ## Values of fields -/

namespace Reads

variable {rest spaces : List Char}

theorem truth (hspaces : Spaces spaces) :
    Reads Reader.boolean (spaces ++ (['t', 'r', 'u', 'e'] ++ rest)) true rest :=
  (Reads.peekToken hspaces rfl).bind ((Reads.word ['t', 'r', 'u', 'e'] rest).bind (Reads.pure _ _))

theorem falsity (hspaces : Spaces spaces) :
    Reads Reader.boolean (spaces ++ (['f', 'a', 'l', 's', 'e'] ++ rest)) false rest :=
  (Reads.peekToken hspaces rfl).bind
    ((Reads.word ['f', 'a', 'l', 's', 'e'] rest).bind (Reads.pure _ _))

/-- One name out of several is read off the literal that spells it. -/
theorem choice {options : List (String × α)} {text : List Char} {name : String} {value : α}
    (h : Spells text name.toList) (hvalue : options.lookup name = some value)
    (hspaces : Spaces spaces) :
    Reads (Reader.choice options) (spaces ++ ('"' :: (text ++ ['"']) ++ rest)) value rest := by
  rw [List.cons_append, List.append_assoc]
  refine (Reads.peekToken hspaces rfl).bind ((Reads.literal h rest).bind ?_)
  rw [String.ofList_toList, Reader.choose, hvalue]
  exact Reads.pure value rest

end Reads

/-! ## Members -/

namespace Reads

variable {text tail rest spaces : List Char} {member : NamedMember} {later : List NamedMember}
  {seen : List String} {last : α × List String} {fuel : Nat} {atStart : Bool}

theorem moreMembers_end (hspaces : Spaces spaces) (atStart : Bool) :
    Reads (Reader.moreMembers atStart) (spaces ++ '\x7d' :: rest) false ('\x7d' :: rest) :=
  (Reads.peekToken hspaces rfl).bind (Reads.pure false _)

theorem moreMembers_first (hspaces : Spaces spaces) :
    Reads (Reader.moreMembers true) (spaces ++ '"' :: rest) true ('"' :: rest) :=
  (Reads.peekToken hspaces rfl).bind (Reads.pure true _)

theorem moreMembers_later {spaces' : List Char} (hspaces : Spaces spaces)
    (hspaces' : Spaces spaces') :
    Reads (Reader.moreMembers false) (spaces ++ ',' :: (spaces' ++ '"' :: rest)) true
      ('"' :: rest) := by
  refine (Reads.peekToken hspaces rfl).bind ((Reads.advance ',' _).bind ?_)
  exact (Reads.peekToken hspaces' rfl).bind (Reads.pure true _)

/-- A member is read, and then what is left of the object. -/
theorem members_step (hunderstood : shape.Understands state member.spelled member.value)
    (hnew : (shape.named [member] ++ seen).Nodup)
    (hmore : Reads (Reader.moreMembers atStart) text true
      ('"' :: (member.name ++ '"' :: (member.after ++ ':' :: (member.value.text ++ tail)))))
    (htail : StopsNumber tail)
    (hnext : Reads (shape.members fuel false (shape.named [member] ++ seen)
        (state (shape.named [member] ++ seen))) (member.value.after ++ tail) last rest) :
    Reads (shape.members (fuel + 1) atStart seen (state seen)) text last rest := by
  have hstops : StopsNumber (member.value.after ++ tail) :=
    .of_spaces member.value.after_spaces htail
  have hvalue : member.value.text ++ tail =
      member.value.before ++ (member.value.inner ++ (member.value.after ++ tail)) := by
    simp only [Padded.text, List.append_assoc]
  rw [Shape.members]
  refine hmore.bind ?_
  rw [if_pos rfl]
  refine (Reads.literal member.spells _).bind ?_
  rw [String.ofList_toList, hvalue]
  cases hunderstood with
  | known field write hfield hread hwrite =>
    have hnamed : shape.named [member] = [member.spelled] := by
      simp [Shape.named, Shape.knows, hfield]
    rw [hnamed, List.singleton_append] at hnew hnext
    rw [hfield]
    dsimp only
    rw [if_neg (List.nodup_cons.1 hnew).1]
    refine (Reads.colon member.after_spaces).bind ((hread _ hstops).bind ?_)
    rw [hwrite]
    exact hnext
  | unknown hfield hskip =>
    have hnamed : shape.named [member] = [] := by
      simp [Shape.named, Shape.knows, hfield]
    rw [hnamed] at hnext
    rw [hfield]
    refine (Reads.colon member.after_spaces).bind ?_
    exact (Reads.skipValue hskip member.value.before_spaces hstops).bind hnext

theorem members_later
    (hunderstood : ∀ member ∈ later, shape.Understands state member.spelled member.value)
    (hnodup : (shape.named later ++ seen).Nodup) (hspaces : Spaces spaces)
    (hfuel : later.length < fuel) :
    Reads (shape.members fuel false seen (state seen))
      (spaces ++ ((later.map (·.text)).flatMap (',' :: ·) ++ '\x7d' :: rest))
      (state (shape.named later ++ seen), shape.named later ++ seen) ('\x7d' :: rest) := by
  induction later generalizing fuel spaces seen with
  | nil =>
    cases fuel with
    | zero => cases hfuel
    | succ fuel =>
      rw [Shape.members]
      exact (moreMembers_end hspaces false).bind (Reads.pure _ _)
  | cons member later ih =>
    cases fuel with
    | zero => cases hfuel
    | succ fuel =>
      rw [shape.named_cons, List.append_assoc] at hnodup ⊢
      rw [List.map_cons, List.flatMap_cons, List.append_assoc, List.cons_append,
        Member.text_append]
      refine members_step (hunderstood member List.mem_cons_self)
        (List.nodup_append.1 hnodup).2.1 (moreMembers_later hspaces member.before_spaces) ?_ ?_
      · exact .of_commas _ (.of_cons rfl (by decide) rest)
      · exact ih (fun other hother => hunderstood other (List.mem_cons_of_mem member hother))
          hnodup member.value.after_spaces (Nat.lt_of_succ_lt_succ hfuel)

theorem members_first
    (hunderstood : ∀ other ∈ member :: later, shape.Understands state other.spelled other.value)
    (hnodup : (shape.named (member :: later)).Nodup) (hfuel : later.length + 1 < fuel) :
    Reads (shape.members fuel true [] (state []))
      (joined ((member :: later).map (·.text)) ++ '\x7d' :: rest)
      (state (shape.named (member :: later)), shape.named (member :: later)) ('\x7d' :: rest) := by
  cases fuel with
  | zero => cases hfuel
  | succ fuel =>
    rw [shape.named_cons] at hnodup ⊢
    rw [List.map_cons, joined_cons, List.append_assoc, Member.text_append]
    have hnew : (shape.named [member] ++ []).Nodup := by
      rw [List.append_nil]
      exact (List.nodup_append.1 hnodup).2.1
    refine members_step (hunderstood member List.mem_cons_self) hnew
      (moreMembers_first member.before_spaces) ?_ ?_
    · exact .of_commas _ (.of_cons rfl (by decide) rest)
    · rw [List.append_nil]
      exact members_later
        (fun other hother => hunderstood other (List.mem_cons_of_mem member hother))
        hnodup member.value.after_spaces (Nat.lt_of_succ_lt_succ hfuel)

end Reads

/-! ## Objects -/

theorem length_le_flatMap_comma (texts : List (List Char)) :
    texts.length ≤ (texts.flatMap (',' :: ·)).length := by
  induction texts with
  | nil => exact Nat.le_refl 0
  | cons text texts ih =>
    rw [List.flatMap_cons, List.length_append, List.length_cons, List.length_cons]
    omega

/-- An object of which every member is understood is read as what its fields come to, if no field is
there twice and no required one is missing. -/
theorem Reads.object {members : List NamedMember} (hsome : members ≠ [])
    (hunderstood : ∀ member ∈ members, shape.Understands state member.spelled member.value)
    (hnodup : (shape.named members).Nodup) (hinitial : state [] = shape.initial)
    (hrequired : ∀ field ∈ shape.fields, field.required = true → field.name ∈ shape.named members)
    (rest : List Char) :
    Reads shape.reader ('\x7b' :: (joined (members.map (·.text)) ++ '\x7d' :: rest))
      (state (shape.named members)) rest := by
  have hmissing : shape.fields.find? (fun field =>
      field.required && !(shape.named members).contains field.name) = none := by
    refine List.find?_eq_none.2 fun field hfield hmiss => ?_
    obtain ⟨hneeded, habsent⟩ := Bool.and_eq_true_iff.1 hmiss
    rw [List.contains_iff_mem.2 (hrequired field hfield hneeded)] at habsent
    cases habsent
  obtain ⟨member, later, rfl⟩ := List.exists_cons_of_ne_nil hsome
  have hfuel : later.length + 1 <
      (joined ((member :: later).map (·.text)) ++ '\x7d' :: rest).length + 1 := by
    have hcommas := length_le_flatMap_comma (later.map (·.text))
    rw [List.length_map] at hcommas
    rw [List.map_cons, joined_cons, List.length_append, List.length_append, List.length_cons]
    omega
  refine (Reads.peekToken_self rfl _).bind ((Reads.advance '\x7b' _).bind ?_)
  refine (Reads.get _).bind ?_
  rw [← hinitial]
  refine (Reads.members_first hunderstood hnodup hfuel).bind ?_
  dsimp only
  rw [hmissing]
  exact (Reads.advance '\x7d' rest).bind (Reads.pure _ rest)

end BranchSelector.Json
