import BranchSelector.Proofs.Trace.Acceptance
import BranchSelector.Proofs.Trace.Record
import Mathlib.Data.List.DropRight

/-!
# Reading what was written

Records are written one to a line, with spaces and tabs around them, and blank lines and remarks may
stand anywhere (`Trace.Written`). A line ends with a line feed, before which a carriage return may
stand; the last one need not end.

A line tells what it was written for (`Trace.Line.tells`), since trimming takes off nothing but what
stands around the object of a record. So reading gives the records back if they are in order, in
whatever way they were written (`Trace.parse_of_written`). Any records can be written
(`Trace.written_print`).
-/

namespace BranchSelector

open Json

/-! ## Texts -/

namespace Text

/-- The bytes of a text. -/
def utf8 (text : List Char) : List UInt8 :=
  text.flatMap String.utf8EncodeChar

/-- The bytes of a text are decoded into the text. -/
theorem fromUTF8?_utf8 (text : List Char) :
    String.fromUTF8? (utf8 text).toByteArray = some (String.ofList text) :=
  dif_pos ⟨text, rfl⟩

/-- Only the line feed has its byte in its encoding. -/
theorem lineFeed_of_mem_encode {c : Char} (h : 10 ∈ String.utf8EncodeChar c) : c = '\n' := by
  have hbyte : ∀ n, (10 : UInt8) = UInt8.ofNat n → 10 = n % 256 := by
    intro n hn
    have hval := congrArg UInt8.toNat hn
    rwa [UInt8.toNat_ofNat'] at hval
  simp only [String.utf8EncodeChar] at h
  split at h
  next hsmall =>
    have hval := hbyte _ (List.mem_singleton.1 h)
    have hnat : c.val.toNat = 10 := by omega
    exact Char.ext (UInt32.toNat_inj.1 hnat)
  next =>
    -- Every byte of a longer encoding is above 127.
    split at h
    all_goals try split at h
    all_goals
      simp only [List.mem_cons, List.not_mem_nil, or_false] at h
    · rcases h with h | h <;> have hval := hbyte _ h <;> omega
    · rcases h with h | h | h <;> have hval := hbyte _ h <;> omega
    · rcases h with h | h | h | h <;> have hval := hbyte _ h <;> omega

theorem lineFeed_not_mem_utf8 {text : List Char} (h : '\n' ∉ text) : 10 ∉ utf8 text := by
  intro hmem
  obtain ⟨c, hc, hbyte⟩ := List.mem_flatMap.1 hmem
  exact h (lineFeed_of_mem_encode hbyte ▸ hc)

variable {before text after : List Char} {c d : Char}

theorem trim_eq_nil (h : ∀ c ∈ text, isBlank c = true) : trim text = [] := by
  have hleft : text.dropWhile isBlank = [] := by
    rw [← List.append_nil text, List.dropWhile_append_of_pos h]
    rfl
  rw [trim, hleft]
  rfl

theorem dropWhile_blank (hbefore : ∀ c ∈ before, isBlank c = true) (hc : isBlank c = false)
    (text : List Char) : (before ++ c :: text).dropWhile isBlank = c :: text := by
  rw [List.dropWhile_append_of_pos hbefore, List.dropWhile_cons_of_neg (by rw [hc]; decide)]

/-- Trimming keeps the first character that is not blank. -/
theorem head?_trim (hbefore : ∀ c ∈ before, isBlank c = true) (hc : isBlank c = false)
    (text : List Char) : (trim (before ++ c :: text)).head? = some c := by
  rw [trim, dropWhile_blank hbefore hc]
  have hfront : (c :: text).rdropWhile isBlank <+: c :: text := List.rdropWhile_prefix _ _
  have hsome : (c :: text).rdropWhile isBlank ≠ [] := by
    intro hnone
    have hblank := List.rdropWhile_eq_nil_iff.1 hnone c List.mem_cons_self
    rw [hc] at hblank
    cases hblank
  show ((c :: text).rdropWhile isBlank).head? = some c
  obtain ⟨e, rest, hrest⟩ := List.exists_cons_of_ne_nil hsome
  rw [hrest] at hfront ⊢
  rw [(List.cons_prefix_cons.1 hfront).1]
  rfl

theorem trim_padded (hbefore : ∀ c ∈ before, isBlank c = true)
    (hafter : ∀ c ∈ after, isBlank c = true) (hc : isBlank c = false) (hd : isBlank d = false) :
    trim (before ++ (c :: (text ++ [d]) ++ after)) = c :: (text ++ [d]) := by
  rw [List.cons_append, trim, dropWhile_blank hbefore hc]
  have hreverse : (c :: (text ++ [d] ++ after)).reverse =
      after.reverse ++ d :: (c :: text).reverse := by
    simp only [List.reverse_cons, List.reverse_append, List.nil_append, List.append_assoc,
      List.cons_append]
  have hblank : ∀ c ∈ after.reverse, isBlank c = true :=
    fun c hmem => hafter c (List.mem_reverse.1 hmem)
  rw [hreverse, dropWhile_blank hblank hd, List.reverse_cons, List.reverse_reverse]
  rfl

end Text

namespace Trace

open Branch

/-! ## Lines -/

/-- Spaces and tabs. -/
def Padding (text : List Char) : Prop :=
  ∀ c ∈ text, c = ' ' ∨ c = '\t'

instance (text : List Char) : Decidable (Padding text) :=
  List.decidableBAll _ text

/-- A line as it is written, without its end, for nothing or for one record. -/
inductive Line : List Char → Option Branch → Prop where
  | blank {pad : List Char} (hpad : Padding pad) : Line pad none
  | remark {pad text : List Char} (hpad : Padding pad) (htext : '\n' ∉ text) :
      Line (pad ++ '#' :: text) none
  | record {before after : List Char} {members : List NamedMember} {b : Branch}
      (hbefore : Padding before) (hafter : Padding after) (h : b.WrittenAs members)
      (htext : '\n' ∉ objectText members) :
      Line (before ++ (objectText members ++ after)) (some b)

/-- A text of lines in which some records are written. -/
inductive Written : List Char → List Branch → Prop where
  | last {line : List Char} {told : Option Branch} (hline : Line line told) :
      Written line told.toList
  | line {line ending text : List Char} {told : Option Branch} {records : List Branch}
      (hline : Line line told) (hending : ending = [] ∨ ending = ['\r'])
      (h : Written text records) :
      Written (line ++ ending ++ '\n' :: text) (told.toList ++ records)

theorem Padding.isBlank {pad : List Char} (h : Padding pad) : ∀ c ∈ pad, Text.isBlank c = true := by
  intro c hc
  rcases h c hc with rfl | rfl <;> rfl

theorem Padding.lineFeed_not_mem {pad : List Char} (h : Padding pad) : '\n' ∉ pad := by
  intro hmem
  rcases h _ hmem with heq | heq <;> cases heq

theorem Line.lineFeed_not_mem {line : List Char} {told : Option Branch} (h : Line line told) :
    '\n' ∉ line := by
  cases h with
  | blank hpad => exact hpad.lineFeed_not_mem
  | remark hpad htext => simp [hpad.lineFeed_not_mem, htext]
  | record hbefore hafter _ htext =>
    simp [hbefore.lineFeed_not_mem, hafter.lineFeed_not_mem, htext]

/-- A line tells what it is written for, whatever blanks end it. -/
theorem Line.tells {line ending : List Char} {told : Option Branch} (h : Line line told)
    (hending : ∀ c ∈ ending, Text.isBlank c = true) : Tells (Text.utf8 (line ++ ending)) told := by
  have hutf8 := Text.fromUTF8?_utf8 (line ++ ending)
  cases h with
  | blank hpad =>
    refine .nothing hutf8 ?_
    rw [String.toList_ofList, Text.trim_eq_nil fun c hc => ?_]
    · rfl
    · exact (List.mem_append.1 hc).elim (hpad.isBlank c) (hending c)
  | @remark pad text hpad htext =>
    refine .nothing hutf8 ?_
    rw [String.toList_ofList, List.append_assoc, isRemark,
      List.cons_append, Text.head?_trim hpad.isBlank rfl]
    exact Bool.or_true _
  | @record before after members b hbefore hafter h htext =>
    have htrim : Text.trim (before ++ (objectText members ++ after) ++ ending) =
        objectText members := by
      rw [List.append_assoc, List.append_assoc]
      refine Text.trim_padded hbefore.isBlank (fun c hc => ?_) rfl rfl
      exact (List.mem_append.1 hc).elim (hafter.isBlank c) (hending c)
    refine .record hutf8 ?_ ?_
    · rw [String.toList_ofList, htrim]
      rfl
    · rw [String.toList_ofList, htrim]
      exact h.ofJson_eq

/-! ## Traces -/

/-- What the lines of a text tell are the records that are written in it. -/
theorem Written.tells {text : List Char} {records : List Branch} (h : Written text records) :
    ∃ told, List.Forall₂ Tells ((Text.utf8 text).splitOn 10) told ∧
      told.reduceOption = records := by
  induction h with
  | @last line told hline =>
    refine ⟨[told], ?_, ?_⟩
    · rw [List.splitOn_eq_singleton (Text.lineFeed_not_mem_utf8 hline.lineFeed_not_mem)]
      have htells : Tells (Text.utf8 (line ++ [])) told := hline.tells (List.forall_mem_nil _)
      rw [List.append_nil] at htells
      exact .cons htells .nil
    · cases told <;> rfl
  | @line line ending text said records hline hending _ ih =>
    obtain ⟨told, htold, hrecords⟩ := ih
    have hblank : ∀ c ∈ ending, Text.isBlank c = true := by
      rcases hending with rfl | rfl
      · exact List.forall_mem_nil _
      · exact List.forall_mem_singleton.2 rfl
    have hnone : '\n' ∉ line ++ ending := by
      rcases hending with rfl | rfl <;> simp [hline.lineFeed_not_mem]
    have hbytes : Text.utf8 (line ++ ending ++ '\n' :: text) =
        Text.utf8 (line ++ ending) ++ 10 :: Text.utf8 text := by
      rw [Text.utf8, List.flatMap_append, List.flatMap_cons]
      rfl
    refine ⟨said :: told, ?_, ?_⟩
    · rw [hbytes, List.splitOn_append_cons_self,
        List.splitOn_eq_singleton (Text.lineFeed_not_mem_utf8 hnone)]
      exact .cons (hline.tells hblank) htold
    · cases said with
      | none => exact hrecords
      | some b => exact congrArg (b :: ·) hrecords

/-- Records in order are read back from every text in which they are written. -/
theorem parse_of_written {text : List Char} {records : List Branch} (hordered : Ordered records)
    (hwritten : Written text records) : parse (Text.utf8 text) = .ok records := by
  refine parse_of_legible ⟨?_, hordered.pieces, ?_⟩
  · rw [lines_eq_splitOn]
    exact hwritten.tells
  · refine (hordered.increasing.imp_of_mem fun hearlier hlater hbefore => ?_).isChain
    exact hbefore.ident_lt (hordered.pieces _ hearlier) (hordered.pieces _ hlater)

/-! ### Two branches in a loose form -/

/-- A branch of which the piece index is left out, and one whose key is the last there is. -/
def looseRecords : List Branch :=
  [⟨7, 0, 64, .condBranch, true, 128⟩, ⟨0xFFFFFFFFFFFFFFFF, 15, 0, .callReturn, false, 4⟩]

theorem spells_class :
    Spells ['c', 'l', '\\', 'u', '0', '0', '6', '1', 's', 's'] "class".toList := by
  have hunit : WritesUnit ['0', '0', '6', '1'] (((0 * 16 + 0) * 16 + 6) * 16 + 1) :=
    .digits rfl rfl rfl rfl
  have hrest : Spells ['s', 's'] ['s', 's'] := .self (by decide)
  have hletters : IsPlain 'c' ∧ IsPlain 'l' := by decide
  exact .plain hletters.1 (.plain hletters.2 (.unit hunit (by decide) (by decide) hrest))

/-- The elements of a list that is the value of no field. -/
def looseNote : List Padded :=
  [⟨[], ['-', '1', '.', '5', 'e', '9'], [], .nil, .nil⟩,
    ⟨[' '], ['\x7b', ' ', '\x7d'], ['\t'], by decide, by decide⟩]

theorem value_looseNote : Value ('[' :: (joined (looseNote.map Padded.text) ++ [']'])) := by
  have hdigits : ∀ d, d.isDigit = true → Digits [d] :=
    fun d hd => ⟨List.cons_ne_nil _ _, List.forall_mem_singleton.2 hd⟩
  have hnumber : Numeral (['-'] ++ (['1'] ++ ('.' :: ['5'] ++ 'e' :: ([] ++ ['9'])))) :=
    .parts (.inr rfl) ⟨hdigits '1' rfl, by decide⟩ (.digits (hdigits '5' rfl))
      (.digits (.inl rfl) (.inl rfl) (hdigits '9' rfl))
  have hspace : Spaces [' '] := by decide
  refine .list (List.cons_ne_nil _ _) ?_
  simp only [looseNote, List.forall_mem_cons]
  exact ⟨.number hnumber, .emptyObject hspace, List.forall_mem_nil _⟩

/-- The members of the first branch. The last field comes first, there is a note besides the fields,
and the name of the class has an escape. -/
def looseMembers : List NamedMember := [
  { NamedMember.plain "next_pc" [] (by decide) with
    value := ⟨[' '], ['1', '2', '8'], [' '], by decide, by decide⟩ },
  .plain "note" ('[' :: (joined (looseNote.map Padded.text) ++ [']'])) (by decide),
  { NamedMember.plain "class" ('"' :: ("cond_branch".toList ++ ['"'])) (by decide) with
    before := [' ']
    name := ['c', 'l', '\\', 'u', '0', '0', '6', '1', 's', 's']
    before_spaces := by decide
    spells := spells_class },
  .plain "taken" ['t', 'r', 'u', 'e'] (by decide),
  .plain "seq_no" ['7'] (by decide),
  .plain "pc" ['6', '4'] (by decide)]

example : String.ofList (objectText looseMembers) =
    "\x7b\"next_pc\": 128 ,\"note\":[-1.5e9, \x7b \x7d\t], \"cl\\u0061ss\":\"cond_branch\"," ++
      "\"taken\":true,\"seq_no\":7,\"pc\":64\x7d" := by
  rfl

theorem writtenAs_looseMembers :
    WrittenAs ⟨7, 0, 64, .condBranch, true, 128⟩ looseMembers := by
  have hnames : looseMembers.map (·.spelled) =
      ["next_pc", "note", "class", "taken", "seq_no", "pc"] := rfl
  refine ⟨?_, ?_, ?_⟩
  · simp only [looseMembers, List.forall_mem_cons]
    exact ⟨.inl .nextPc, .inr ⟨by decide, value_looseNote⟩, .inl (.kind (.self (by decide))),
      .inl (.taken rfl), .inl .seqNo, .inl .pc, List.forall_mem_nil _⟩
  · rw [hnames]
    decide
  · rw [hnames]
    decide

/-- A remark, a blank line, the first branch between blanks and the second one on a line that does
not end. -/
def looseText : List Char :=
  '#' :: " two branches".toList ++ ['\r'] ++ '\n' :: ([' ', '\t'] ++ [] ++ '\n' ::
    (['\t'] ++ (objectText looseMembers ++ [' ']) ++ ['\r'] ++ '\n' ::
      objectText (plainMembers ⟨0xFFFFFFFFFFFFFFFF, 15, 0, .callReturn, false, 4⟩)))

theorem written_looseText : Written looseText looseRecords := by
  have hnone : Padding [] := List.forall_mem_nil _
  have hremark : Line ([] ++ '#' :: " two branches".toList) none := .remark hnone (by decide)
  have hblank : Line [' ', '\t'] none := .blank (by decide)
  have hpads : Padding ['\t'] ∧ Padding [' '] := by decide
  have hfirst := Line.record hpads.1 hpads.2 writtenAs_looseMembers (by decide)
  have hsecond := Line.record hnone hnone
    (writtenAs_plainMembers ⟨0xFFFFFFFFFFFFFFFF, 15, 0, .callReturn, false, 4⟩)
    (lineFeed_not_mem_plainMembers _)
  rw [List.append_nil] at hsecond
  exact .line hremark (.inr rfl) (.line hblank (.inl rfl)
    (.line hfirst (.inr rfl) (.last hsecond)))

theorem parse_looseText : Ordered looseRecords ∧ Written looseText looseRecords ∧
    parse (Text.utf8 looseText) = .ok looseRecords := by
  have hordered : Ordered looseRecords := ⟨by decide, by decide⟩
  exact ⟨hordered, written_looseText, parse_of_written hordered written_looseText⟩

/-! ### A plain form -/

/-- Writes records as plain objects, one to a line. -/
def print (records : List Branch) : List Char :=
  records.flatMap fun b => objectText b.plainMembers ++ ['\n']

theorem written_print (records : List Branch) : Written (print records) records := by
  have hnone : Padding [] := List.forall_mem_nil _
  induction records with
  | nil => exact .last (.blank hnone)
  | cons b records ih =>
    have hline : Line (objectText b.plainMembers) (some b) := by
      have hpadded := Line.record hnone hnone b.writtenAs_plainMembers
        b.lineFeed_not_mem_plainMembers
      rwa [List.append_nil] at hpadded
    have hwritten := Written.line hline (.inl rfl) ih
    rwa [List.append_nil, ← List.singleton_append, ← List.append_assoc] at hwritten

end Trace

end BranchSelector
