import BranchSelector.Proofs.Json.Object
import BranchSelector.Trace.Document

/-!
# How records are written

A record is written as an object of its fields in any order. A field is there once, and only the
piece index may be absent, if it is zero; members of other names may hold any value
(`Branch.WrittenAs`). Such an object is read as the record (`Branch.ofJson_objectText`).
-/

namespace BranchSelector

open Json Reader

namespace Branch

/-- The names of the fields of a record. -/
def fieldNames : List String :=
  ["seq_no", "piece", "pc", "class", "taken", "next_pc"]

/-- How the value of a field of a record is written. -/
inductive WritesField (b : Branch) : String → List Char → Prop where
  | seqNo : WritesField b "seq_no" (Nat.toDigits 10 b.seqNo.toNat)
  | piece : WritesField b "piece" (Nat.toDigits 10 b.piece.toNat)
  | pc : WritesField b "pc" (Nat.toDigits 10 b.pc.toNat)
  | kind {text : List Char} (h : Spells text b.kind.name.toList) :
      WritesField b "class" ('"' :: (text ++ ['"']))
  | taken (h : b.taken = true) : WritesField b "taken" ['t', 'r', 'u', 'e']
  | notTaken (h : b.taken = false) : WritesField b "taken" ['f', 'a', 'l', 's', 'e']
  | nextPc : WritesField b "next_pc" (Nat.toDigits 10 b.nextPc.toNat)

/-- Members of an object that write a record. -/
structure WrittenAs (b : Branch) (members : List NamedMember) : Prop where
  values : ∀ member ∈ members, b.WritesField member.spelled member.value.inner ∨
    member.spelled ∉ fieldNames ∧ Value member.value.inner
  once : ((members.map (·.spelled)).filter (· ∈ fieldNames)).Nodup
  complete : ∀ name ∈ fieldNames, name ∈ members.map (·.spelled) ∨ name = "piece" ∧ b.piece = 0

/-- The object of some members. -/
def objectText (members : List NamedMember) : List Char :=
  '\x7b' :: (joined (members.map (·.text)) ++ ['\x7d'])

/-- What reading a record comes to if only some of its fields are there. -/
def restrict (b : Branch) (names : List String) : Branch where
  seqNo := if "seq_no" ∈ names then b.seqNo else 0
  piece := if "piece" ∈ names then b.piece else 0
  pc := if "pc" ∈ names then b.pc else 0
  kind := if "class" ∈ names then b.kind else .condBranch
  taken := if "taken" ∈ names then b.taken else false
  nextPc := if "next_pc" ∈ names then b.nextPc else 0

variable {b : Branch} {members : List NamedMember} {name : String}

theorem restrict_of_complete {names : List String}
    (h : ∀ name ∈ fieldNames, name ∈ names ∨ name = "piece" ∧ b.piece = 0) :
    b.restrict names = b := by
  have hpiece : (if "piece" ∈ names then b.piece else 0) = b.piece := by
    split
    next => rfl
    next habsent =>
      rcases h "piece" (by decide) with hthere | ⟨-, hzero⟩
      · exact absurd hthere habsent
      · exact hzero.symm
  have hother : ∀ name ∈ fieldNames, name ≠ "piece" → name ∈ names :=
    fun name hname hnot => (h name hname).resolve_right fun hpiece => hnot hpiece.1
  rw [restrict, hpiece, if_pos (hother "seq_no" (by decide) (by decide)),
    if_pos (hother "pc" (by decide) (by decide)), if_pos (hother "class" (by decide) (by decide)),
    if_pos (hother "taken" (by decide) (by decide)),
    if_pos (hother "next_pc" (by decide) (by decide))]

theorem knows_iff : shape.knows name = true ↔ name ∈ fieldNames := by
  rw [Shape.knows, List.find?_isSome]
  simp only [beq_iff_eq]
  constructor
  · rintro ⟨field, hfield, rfl⟩
    exact List.mem_map_of_mem hfield
  · exact fun h => List.mem_map.1 h

theorem lookup_name (kind : BranchClass) :
    BranchClass.options.lookup kind.name = some kind := by
  cases kind <;> rfl

theorem WritesField.understands {value : Padded} (h : b.WritesField name value.inner) :
    shape.Understands b.restrict name value := by
  obtain ⟨before, inner, after, hbefore, hafter⟩ := value
  cases h with
  | seqNo =>
    exact .known _ _ rfl (fun rest hrest => (Reads.word64 b.seqNo hbefore hrest).map)
      fun seen => by simp [restrict]
  | piece =>
    exact .known _ _ rfl (fun rest hrest => (Reads.byte b.piece hbefore hrest).map)
      fun seen => by simp [restrict]
  | pc =>
    exact .known _ _ rfl (fun rest hrest => (Reads.word64 b.pc hbefore hrest).map)
      fun seen => by simp [restrict]
  | kind h =>
    exact .known _ _ rfl
      (fun rest hrest => (Reads.choice h (lookup_name b.kind) hbefore).map)
      fun seen => by simp [restrict]
  | taken h =>
    exact .known _ _ rfl (fun rest hrest => (Reads.truth hbefore).map)
      fun seen => by simp [restrict, h]
  | notTaken h =>
    exact .known _ _ rfl (fun rest hrest => (Reads.falsity hbefore).map)
      fun seen => by simp [restrict, h]
  | nextPc =>
    exact .known _ _ rfl (fun rest hrest => (Reads.word64 b.nextPc hbefore hrest).map)
      fun seen => by simp [restrict]

theorem named_eq (members : List NamedMember) :
    shape.named members =
      ((members.map (·.spelled)).filter fun name => decide (name ∈ fieldNames)).reverse := by
  rw [Shape.named]
  congr 2
  funext name
  rw [Bool.eq_iff_iff, knows_iff, decide_eq_true_iff]

namespace WrittenAs

theorem understands (h : b.WrittenAs members) {member : NamedMember} (hmember : member ∈ members) :
    shape.Understands b.restrict member.spelled member.value := by
  rcases h.values member hmember with hfield | ⟨hother, hvalue⟩
  · exact hfield.understands
  · refine .unknown ?_ hvalue
    rw [← Option.not_isSome_iff_eq_none]
    exact fun hknows => hother (knows_iff.1 hknows)

theorem mem_named (h : b.WrittenAs members) (hname : name ∈ fieldNames) :
    name ∈ shape.named members ∨ name = "piece" ∧ b.piece = 0 := by
  rcases h.complete name hname with hthere | hpiece
  · left
    rw [named_eq, List.mem_reverse, List.mem_filter]
    exact ⟨hthere, decide_eq_true hname⟩
  · exact .inr hpiece

/-- Only the piece index is not required. -/
theorem required_mem (h : b.WrittenAs members) {field : Json.Field Branch}
    (hfield : field ∈ shape.fields) (hrequired : field.required = true) :
    field.name ∈ shape.named members := by
  refine (h.mem_named (List.mem_map_of_mem hfield)).resolve_right fun hpiece => ?_
  have hname : field.name ≠ "piece" := by
    simp only [shape, List.mem_cons, List.not_mem_nil, or_false] at hfield
    rcases hfield with rfl | rfl | rfl | rfl | rfl | rfl
    case inr.inl => cases hrequired
    all_goals simp [Field.mandatory]
  exact hname hpiece.1

theorem ne_nil (h : b.WrittenAs members) : members ≠ [] := by
  rintro rfl
  rcases h.complete "seq_no" (by decide) with hthere | ⟨hpiece, -⟩
  · cases hthere
  · exact absurd hpiece (by decide)

/-- The object of a record is read as the record. -/
theorem ofJson_eq (h : b.WrittenAs members) :
    Branch.ofJson (String.ofList (objectText members)) = .ok b := by
  have hnodup : (shape.named members).Nodup := by
    rw [named_eq]
    exact (List.reverse_perm _).symm.nodup h.once
  have hread : Reads shape.reader (objectText members) (b.restrict (shape.named members)) [] :=
    Reads.object h.ne_nil (fun _ hmember => h.understands hmember) hnodup rfl
      (fun _ hfield hrequired => h.required_mem hfield hrequired) []
  rw [restrict_of_complete fun name hname => h.mem_named hname] at hread
  refine Reads.decode ?_ Spaces.nil
  rw [String.toList_ofList]
  exact hread

end WrittenAs

/-! ## The plain object of a record -/

theorem plain_name (kind : BranchClass) : Plain kind.name.toList := by
  cases kind <;> decide

/-- The fields of a record in their own order, with their values as they are written. -/
def fieldTexts (b : Branch) : List (String × List Char) := [
  ("seq_no", Nat.toDigits 10 b.seqNo.toNat),
  ("piece", Nat.toDigits 10 b.piece.toNat),
  ("pc", Nat.toDigits 10 b.pc.toNat),
  ("class", '"' :: (b.kind.name.toList ++ ['"'])),
  ("taken", (toString b.taken).toList),
  ("next_pc", Nat.toDigits 10 b.nextPc.toNat)]

theorem plain_fieldTexts (b : Branch) : ∀ field ∈ b.fieldTexts, Plain field.1.toList := by
  have hnames : ∀ name ∈ fieldNames, Plain name.toList := by decide
  exact fun field hfield => hnames field.1 (List.mem_map_of_mem hfield)

theorem writesField_fieldTexts (b : Branch) :
    ∀ field ∈ b.fieldTexts, b.WritesField field.1 field.2 := by
  simp only [fieldTexts, List.forall_mem_cons]
  refine ⟨.seqNo, .piece, .pc, .kind (.self (plain_name b.kind)), ?_, .nextPc,
    List.forall_mem_nil _⟩
  cases htaken : b.taken with
  | true => exact .taken htaken
  | false => exact .notTaken htaken

/-- The members of the plain object of a record. -/
def plainMembers (b : Branch) : List NamedMember :=
  b.fieldTexts.pmap (fun field h => .plain field.1 field.2 h) b.plain_fieldTexts

theorem writtenAs_plainMembers (b : Branch) : b.WrittenAs b.plainMembers where
  values member hmember := by
    obtain ⟨field, hfield, rfl⟩ := List.mem_pmap.1 hmember
    exact .inl (b.writesField_fieldTexts field hfield)
  once := by
    show (fieldNames.filter (· ∈ fieldNames)).Nodup
    decide
  complete name hname := .inl hname

theorem lineFeed_not_mem_objectText (h : ∀ member ∈ members, '\n' ∉ member.text) :
    '\n' ∉ objectText members := by
  have hjoined : '\n' ∉ joined (members.map (·.text)) :=
    not_mem_joined (by decide) fun text htext => by
      obtain ⟨member, hmember, rfl⟩ := List.mem_map.1 htext
      exact h member hmember
  simp [objectText, hjoined]

theorem lineFeed_not_mem_fieldTexts (b : Branch) :
    ∀ field ∈ b.fieldTexts, '\n' ∉ field.2 := by
  have hdigits (n : Nat) : '\n' ∉ Nat.toDigits 10 n := fun hmem =>
    absurd ((wholePart_toDigits n).digits.2 _ hmem) (by decide)
  have hname : '\n' ∉ b.kind.name.toList :=
    fun hmem => absurd (plain_name b.kind _ hmem) (by decide)
  simp only [fieldTexts, List.forall_mem_cons]
  refine ⟨hdigits _, hdigits _, hdigits _, ?_, ?_, hdigits _, List.forall_mem_nil _⟩
  · simp [hname]
  · cases b.taken <;> decide

theorem lineFeed_not_mem_plainMembers (b : Branch) : '\n' ∉ objectText b.plainMembers := by
  refine lineFeed_not_mem_objectText fun member hmember => ?_
  obtain ⟨field, hfield, rfl⟩ := List.mem_pmap.1 hmember
  exact NamedMember.lineFeed_not_mem_plain _ (b.lineFeed_not_mem_fieldTexts field hfield)

end Branch

end BranchSelector
