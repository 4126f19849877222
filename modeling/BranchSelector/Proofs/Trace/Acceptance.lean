import BranchSelector.Proofs.Trace.Order
import Mathlib.Data.List.Chain
import Mathlib.Data.List.Forall2
import Mathlib.Data.List.Induction
import Mathlib.Data.List.ReduceOption

/-!
# Which traces are accepted

A line by itself tells nothing or one record (`Trace.Tells`). Lines are legible if each of them
tells something or nothing, the records have valid keys and every key is above the one before
(`Trace.Legible`). A line is at fault if it is not well formed, or if its record has no valid key or
does not come after the last record (`Trace.Faulty`).

There is no other case (`Trace.legible_or_faulty`). Legible lines are accepted, with the records
that they tell, and of other lines the first that is at fault is reported (`Trace.parse_iff`). The
lines of a text are what stands between its line feeds (`Trace.lines_eq_splitOn`).
-/

namespace BranchSelector.Trace

open Json Branch

/-! ## Lines -/

theorem lines_ne_nil (bytes : List UInt8) : lines bytes ≠ [] := by
  cases bytes with
  | nil => exact List.cons_ne_nil _ _
  | cons byte bytes =>
    rw [lines, List.foldr_cons]
    split
    · exact List.cons_ne_nil _ _
    · split <;> exact List.cons_ne_nil _ _

theorem lines_cons (byte : UInt8) (bytes : List UInt8) :
    lines (byte :: bytes) =
      if byte = 10 then [] :: lines bytes else (lines bytes).modifyHead (byte :: ·) := by
  obtain ⟨line, later, hlines⟩ := List.exists_cons_of_ne_nil (lines_ne_nil bytes)
  unfold lines at hlines ⊢
  rw [List.foldr_cons, hlines]
  rfl

/-- The lines of a text are what stands between its line feeds. -/
theorem lines_eq_splitOn (bytes : List UInt8) : lines bytes = bytes.splitOn 10 := by
  induction bytes with
  | nil => rfl
  | cons byte bytes ih =>
    rw [lines_cons, ih, List.splitOn, List.splitOn, List.splitOnP_cons_eq_if_modifyHead]
    simp only [beq_iff_eq]

/-! ## What lines tell -/

/-- What a line tells by itself: nothing, if it is blank or a remark, or one record. -/
inductive Tells (bytes : List UInt8) : Option Branch → Prop where
  | nothing {text : String} (hutf8 : String.fromUTF8? bytes.toByteArray = some text)
      (hremark : isRemark (Text.trim text.toList) = true) : Tells bytes none
  | record {text : String} {record : Branch}
      (hutf8 : String.fromUTF8? bytes.toByteArray = some text)
      (hremark : isRemark (Text.trim text.toList) = false)
      (hread : Branch.ofJson (String.ofList (Text.trim text.toList)) = .ok record) :
      Tells bytes (some record)

/-- Lines that are all well formed, with the records that they tell in the order of the lines. The
records have valid keys, and each key is above the one before. -/
structure Legible (lines : List (List UInt8)) (records : List Branch) : Prop where
  told : ∃ said, List.Forall₂ Tells lines said ∧ said.reduceOption = records
  pieces : ∀ record ∈ records, record.piece.toNat < 16
  increasing : records.IsChain fun earlier later => earlier.ident < later.ident

/-- What is wrong with a line of some number after a last record. A line that is wrong in several
ways has the first of them for its fault. -/
inductive Faulty (line : Nat) (previous : Option Branch) (bytes : List UInt8) : TraceError → Prop
  | notUtf8 (hutf8 : String.fromUTF8? bytes.toByteArray = none) :
      Faulty line previous bytes (.unreadable .notUtf8)
  | malformed {text : String} {fault : Fault}
      (hutf8 : String.fromUTF8? bytes.toByteArray = some text)
      (hremark : isRemark (Text.trim text.toList) = false)
      (hread : Branch.ofJson (String.ofList (Text.trim text.toList)) = .error fault) :
      Faulty line previous bytes (.malformed line fault)
  | pieceOutOfRange {record : Branch} (htells : Tells bytes (some record))
      (hpiece : 16 ≤ record.piece.toNat) :
      Faulty line previous bytes (.pieceOutOfRange line record.piece)
  | outOfOrder {record earlier : Branch} (htells : Tells bytes (some record))
      (hpiece : record.piece.toNat < 16) (hprevious : previous = some earlier)
      (horder : ¬ earlier.ident < record.ident) :
      Faulty line previous bytes (.outOfOrder line record.ident earlier.ident)

variable {line : Nat} {bytes : List UInt8} {lines : List (List UInt8)} {record : Branch}
  {records : List Branch}

namespace Legible

theorem nil : Legible [] [] :=
  ⟨⟨[], .nil, rfl⟩, List.forall_mem_nil _, .nil⟩

/-- A line that tells nothing leaves the records as they are. -/
theorem concat_nothing (h : Legible lines records) (htells : Tells bytes none) :
    Legible (lines ++ [bytes]) records := by
  obtain ⟨said, hsaid, hrecords⟩ := h.told
  refine ⟨⟨said ++ [none], ?_, ?_⟩, h.pieces, h.increasing⟩
  · exact List.rel_append hsaid (.cons htells .nil)
  · rw [List.reduceOption_append, hrecords]
    exact List.append_nil records

theorem concat_record (h : Legible lines records) (htells : Tells bytes (some record))
    (hpiece : record.piece.toNat < 16)
    (horder : ∀ earlier ∈ records.getLast?, earlier.ident < record.ident) :
    Legible (lines ++ [bytes]) (records ++ [record]) := by
  obtain ⟨said, hsaid, hrecords⟩ := h.told
  refine ⟨⟨said ++ [some record], ?_, ?_⟩, ?_, ?_⟩
  · exact List.rel_append hsaid (.cons htells .nil)
  · rw [List.reduceOption_append, hrecords]
    rfl
  · intro other hother
    rcases List.mem_append.1 hother with hold | hnew
    · exact h.pieces other hold
    · exact List.mem_singleton.1 hnew ▸ hpiece
  · refine List.isChain_append.2 ⟨h.increasing, .singleton record, ?_⟩
    exact fun earlier hearlier later hlater => Option.some.inj hlater ▸ horder earlier hearlier

end Legible

/-- A line tells nothing, or a record that comes after the last one, or it is at fault. -/
theorem tells_or_faulty (line : Nat) (previous : Option Branch) (bytes : List UInt8) :
    Tells bytes none ∨
      (∃ record, Tells bytes (some record) ∧ record.piece.toNat < 16 ∧
        ∀ earlier ∈ previous, earlier.ident < record.ident) ∨
      ∃ e, Faulty line previous bytes e := by
  cases hutf8 : String.fromUTF8? bytes.toByteArray with
  | none => exact .inr (.inr ⟨_, .notUtf8 hutf8⟩)
  | some text =>
    cases hremark : isRemark (Text.trim text.toList) with
    | true => exact .inl (.nothing hutf8 hremark)
    | false =>
      cases hread : Branch.ofJson (String.ofList (Text.trim text.toList)) with
      | error fault => exact .inr (.inr ⟨_, .malformed hutf8 hremark hread⟩)
      | ok record =>
        have htells : Tells bytes (some record) := .record hutf8 hremark hread
        by_cases hpiece : record.piece.toNat < 16
        · by_cases horder : ∀ earlier ∈ previous, earlier.ident < record.ident
          · exact .inr (.inl ⟨record, htells, hpiece, horder⟩)
          · push Not at horder
            obtain ⟨earlier, hprevious, hnot⟩ := horder
            exact .inr (.inr ⟨_, .outOfOrder htells hpiece hprevious hnot⟩)
        · exact .inr (.inr ⟨_, .pieceOutOfRange htells (Nat.le_of_not_lt hpiece)⟩)

/-- Lines are legible, or there is a first one that is at fault. -/
theorem legible_or_faulty (lines : List (List UInt8)) :
    (∃ records, Legible lines records) ∨
      ∃ before bytes after records e, lines = before ++ bytes :: after ∧
        Legible before records ∧ Faulty (before.length + 1) records.getLast? bytes e := by
  induction lines using List.reverseRecOn with
  | nil => exact .inl ⟨[], .nil⟩
  | append_singleton lines bytes ih =>
    rcases ih with ⟨records, hlegible⟩ | ⟨before, wrong, after, records, e, rfl, hbefore, hwrong⟩
    · rcases tells_or_faulty (lines.length + 1) records.getLast? bytes with
        hnothing | ⟨record, htells, hpiece, horder⟩ | ⟨e, hfaulty⟩
      · exact .inl ⟨records, hlegible.concat_nothing hnothing⟩
      · exact .inl ⟨_, hlegible.concat_record htells hpiece horder⟩
      · exact .inr ⟨lines, bytes, [], records, e, rfl, hlegible, hfaulty⟩
    · -- What follows a fault does not matter.
      refine .inr ⟨before, wrong, after ++ [bytes], records, e, ?_, hbefore, hwrong⟩
      simp only [List.append_assoc, List.cons_append]

/-! ## Reading lines -/

theorem decodeText_eq_ok {text : String}
    (h : String.fromUTF8? bytes.toByteArray = some text) : decodeText bytes = .ok text := by
  rw [decodeText, h]

theorem readLine_nothing (previous : Option BranchKey) (h : Tells bytes none) :
    readLine line previous bytes = .ok none := by
  cases h with
  | nothing hutf8 hremark =>
    rw [readLine, decodeText_eq_ok hutf8]
    exact if_pos hremark

/-- What is left to check of a record that a line tells: its key, against the one before. -/
def checkKey (line : Nat) (previous : Option BranchKey) (record : Branch) :
    Except TraceError (Option (Branch × BranchKey)) :=
  match record.key?, previous with
  | none, _ => .error (.pieceOutOfRange line record.piece)
  | some key, none => .ok (some (record, key))
  | some key, some earlier =>
    if earlier < key then .ok (some (record, key)) else .error (.outOfOrder line key earlier)

theorem readLine_record (line : Nat) (previous : Option BranchKey)
    (h : Tells bytes (some record)) :
    readLine line previous bytes = checkKey line previous record := by
  cases h with
  | record hutf8 hremark hread =>
    rw [readLine, decodeText_eq_ok hutf8]
    simp only [hremark, hread, Bool.false_eq_true, if_false]
    rfl

theorem readLine_later {previous : Option Branch} (h : Tells bytes (some record))
    (hpiece : record.piece.toNat < 16)
    (horder : ∀ earlier ∈ previous, earlier.ident < record.ident) :
    readLine line (previous.map ident) bytes = .ok (some (record, record.ident)) := by
  rw [readLine_record line _ h]
  unfold checkKey
  rw [key?_eq_some hpiece]
  cases previous with
  | none => rfl
  | some earlier => exact if_pos (horder earlier rfl)

/-- A line that is at fault is refused, and the fault is what is reported. -/
theorem Faulty.readLine_eq {previous : Option Branch} {e : TraceError}
    (h : Faulty line previous bytes e) :
    readLine line (previous.map ident) bytes = .error e := by
  cases h with
  | notUtf8 hutf8 => rw [readLine, decodeText, hutf8]
  | malformed hutf8 hremark hread =>
    rw [readLine, decodeText_eq_ok hutf8]
    simp only [hremark, hread, Bool.false_eq_true, if_false]
  | pieceOutOfRange htells hpiece =>
    have hkey : Branch.key? _ = none := BranchKey.ofParts?_eq_none_iff.2 hpiece
    rw [readLine_record line _ htells]
    unfold checkKey
    rw [hkey]
  | outOfOrder htells hpiece hprevious horder =>
    rw [readLine_record line _ htells]
    unfold checkKey
    rw [key?_eq_some hpiece, hprevious]
    exact if_neg horder

/-! ## Reading a trace -/

/-- Reading has come through some lines, of which it has the records. -/
def Progress.reached (lines : Nat) (records : List Branch) : Progress :=
  ⟨lines, records.getLast?.map ident, records.reverse⟩

section Reached

variable {earlier : List Branch} {count : Nat}

theorem Progress.next_nothing (h : Tells bytes none) :
    (reached count earlier).next bytes = .ok (reached (count + 1) earlier) := by
  show (readLine (count + 1) (earlier.getLast?.map ident) bytes >>= _) = _
  rw [readLine_nothing _ h]
  rfl

theorem Progress.next_record (h : Tells bytes (some record)) (hpiece : record.piece.toNat < 16)
    (horder : ∀ last ∈ earlier.getLast?, last.ident < record.ident) :
    (reached count earlier).next bytes = .ok (reached (count + 1) (earlier ++ [record])) := by
  show (readLine (count + 1) (earlier.getLast?.map ident) bytes >>= _) = _
  have hlast : (earlier ++ [record]).getLast? = some record := List.getLast?_concat
  rw [readLine_later h hpiece horder, reached, reached, hlast, List.reverse_concat]
  rfl

theorem Progress.next_faulty {e : TraceError} (h : Faulty (count + 1) earlier.getLast? bytes e) :
    (reached count earlier).next bytes = .error e := by
  show (readLine (count + 1) (earlier.getLast?.map ident) bytes >>= _) = _
  rw [h.readLine_eq]
  rfl

/-- Lines that are well formed are read to their end if the keys of their records go on from those
of the earlier ones. -/
theorem foldlM_reached {told : List (Option Branch)} (htold : List.Forall₂ Tells lines told)
    (hpieces : ∀ record ∈ told.reduceOption, record.piece.toNat < 16)
    (hincreasing : (earlier ++ told.reduceOption).IsChain fun a b => a.ident < b.ident) :
    lines.foldlM Progress.next (.reached count earlier) =
      .ok (.reached (count + lines.length) (earlier ++ told.reduceOption)) := by
  induction htold generalizing earlier count with
  | nil =>
    rw [List.reduceOption_nil, List.append_nil]
    rfl
  | @cons bytes said lines told htells htold ih =>
    rw [List.foldlM_cons, List.length_cons, ← Nat.succ_add_eq_add_succ]
    cases said with
    | none =>
      rw [Progress.next_nothing htells]
      exact ih hpieces hincreasing
    | some record =>
      rw [List.reduceOption_cons_of_some] at hpieces hincreasing ⊢
      have horder := (List.isChain_append.1 hincreasing).2.2
      rw [Progress.next_record htells (hpieces record List.mem_cons_self)
        fun last hlast => horder last hlast record rfl]
      rw [List.append_cons earlier record told.reduceOption] at hincreasing ⊢
      exact ih (fun later hlater => hpieces later (List.mem_cons_of_mem _ hlater)) hincreasing

end Reached

theorem Legible.foldlM_eq (h : Legible lines records) :
    lines.foldlM Progress.next .start = .ok (.reached lines.length records) := by
  obtain ⟨told, htold, rfl⟩ := h.told
  have hread : lines.foldlM Progress.next (.reached 0 []) =
      .ok (.reached (0 + lines.length) ([] ++ told.reduceOption)) :=
    foldlM_reached htold h.pieces h.increasing
  rwa [Nat.zero_add] at hread

theorem parse_of_legible (h : Legible (Trace.lines bytes) records) : parse bytes = .ok records := by
  unfold parse
  rw [h.foldlM_eq]
  exact congrArg Except.ok (List.reverse_reverse records)

/-- Of lines that begin legibly the first one at fault is reported. -/
theorem parse_of_faulty {before after : List (List UInt8)} {wrong : List UInt8} {e : TraceError}
    (hlines : Trace.lines bytes = before ++ wrong :: after) (hbefore : Legible before records)
    (hwrong : Faulty (before.length + 1) records.getLast? wrong e) : parse bytes = .error e := by
  unfold parse
  rw [hlines, List.foldlM_append, hbefore.foldlM_eq]
  show ((wrong :: after).foldlM Progress.next (.reached before.length records) >>= _) = _
  rw [List.foldlM_cons, Progress.next_faulty hwrong]
  rfl

/-- A trace is accepted if and only if its lines are legible, with the records that they tell. It is
refused if and only if some line is at fault after legible ones, and what is reported is that
fault of that line. -/
theorem parse_iff (bytes : List UInt8) :
    (∀ records, parse bytes = .ok records ↔ Legible (bytes.splitOn 10) records) ∧
    ∀ e, parse bytes = .error e ↔
      ∃ before line after records, bytes.splitOn 10 = before ++ line :: after ∧
        Legible before records ∧ Faulty (before.length + 1) records.getLast? line e := by
  rw [← lines_eq_splitOn]
  have hcases := legible_or_faulty (Trace.lines bytes)
  constructor
  · refine fun records => ⟨fun hparse => ?_, parse_of_legible⟩
    rcases hcases with ⟨found, hlegible⟩ | ⟨_, _, _, _, _, hlines, hbefore, hwrong⟩
    · exact Except.ok.inj ((parse_of_legible hlegible).symm.trans hparse) ▸ hlegible
    · cases (parse_of_faulty hlines hbefore hwrong).symm.trans hparse
  · refine fun e => ⟨fun hparse => ?_, ?_⟩
    · rcases hcases with ⟨_, hlegible⟩ | ⟨before, line, after, records, _, hlines, hbefore, hwrong⟩
      · cases (parse_of_legible hlegible).symm.trans hparse
      · have heq := Except.error.inj ((parse_of_faulty hlines hbefore hwrong).symm.trans hparse)
        exact ⟨before, line, after, records, hlines, hbefore, heq ▸ hwrong⟩
    · rintro ⟨before, line, after, records, hlines, hbefore, hwrong⟩
      exact parse_of_faulty hlines hbefore hwrong

end BranchSelector.Trace
