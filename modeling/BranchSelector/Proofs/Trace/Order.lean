import BranchSelector.Proofs.Answer
import BranchSelector.Trace.Parse

/-!
# Traces in order

The branches of a trace come in program order: by sequence number, then by piece index
(`Branch.Before`), and no piece index is out of range. Of such branches the keys are known
without any check (`Branch.ident`, `Branch.key_eq_ok`), and no two are the same
(`Branch.Before.ident_ne`).

Whatever reading a trace accepts is in this order (`ordered_of_parse`). Reading compares each
key with the last one only; that it comes after all of the earlier ones is the invariant
`Trace.Progress.Sound`.
-/

namespace BranchSelector

namespace Branch

/-- The key of a branch whose piece index is known to be below 16. -/
def ident (branch : Branch) : BranchKey :=
  ⟨branch.seqNo, ⟨branch.piece.toNat % 16, Nat.mod_lt _ (by decide)⟩⟩

/-- A branch comes before another in program order. -/
def Before (a b : Branch) : Prop :=
  a.seqNo < b.seqNo ∨ a.seqNo = b.seqNo ∧ a.piece < b.piece

instance (a b : Branch) : Decidable (a.Before b) :=
  inferInstanceAs (Decidable (a.seqNo < b.seqNo ∨ a.seqNo = b.seqNo ∧ a.piece < b.piece))

/-- Branches with valid keys in program order. -/
structure Ordered (branches : List Branch) : Prop where
  pieces : ∀ branch ∈ branches, branch.piece.toNat < 16
  increasing : branches.Pairwise Before

/-- Two branches of one instruction, a call, and the first branch once more. -/
def shortTrace : List Branch :=
  [⟨1, 0, 0x40, .condBranch, true, 0x80⟩, ⟨1, 1, 0x44, .condBranch, false, 0x48⟩,
    ⟨2, 0, 0x90, .callDirect, true, 0x2000⟩, ⟨3, 0, 0x40, .condBranch, true, 0x80⟩]

theorem ordered_shortTrace : Ordered shortTrace :=
  ⟨by decide, by decide⟩

variable {a b c : Branch}

theorem key?_eq_some (h : b.piece.toNat < 16) : b.key? = some b.ident := by
  rw [key?, BranchKey.ofParts?, dif_pos h]
  simp only [ident, Nat.mod_eq_of_lt h]

theorem key_eq_ok (h : b.piece.toNat < 16) : b.key = .ok b.ident := by
  have hkey := key?_eq_some h
  rw [key?] at hkey
  rw [key, BranchKey.ofParts, hkey]

theorem piece_lt_of_key? {key : BranchKey} (h : b.key? = some key) : b.piece.toNat < 16 := by
  refine Nat.lt_of_not_le fun hpiece => ?_
  have hnone : BranchKey.ofParts? b.seqNo b.piece = none :=
    BranchKey.ofParts?_eq_none_iff.2 hpiece
  rw [key?, hnone] at h
  cases h

/-- Keys compare as their branches do. -/
theorem before_of_ident_lt (ha : a.piece.toNat < 16) (hb : b.piece.toNat < 16)
    (h : a.ident < b.ident) : a.Before b := by
  rcases h with hseq | ⟨hseq, hpiece⟩
  · exact .inl hseq
  · have hlt : a.piece.toNat % 16 < b.piece.toNat % 16 := hpiece
    rw [Nat.mod_eq_of_lt ha, Nat.mod_eq_of_lt hb] at hlt
    exact .inr ⟨hseq, UInt8.lt_iff_toNat_lt.2 hlt⟩

theorem Before.ident_lt (h : a.Before b) (ha : a.piece.toNat < 16) (hb : b.piece.toNat < 16) :
    a.ident < b.ident := by
  rcases h with hseq | ⟨hseq, hpiece⟩
  · exact .inl hseq
  · refine .inr ⟨hseq, ?_⟩
    show a.piece.toNat % 16 < b.piece.toNat % 16
    rw [Nat.mod_eq_of_lt ha, Nat.mod_eq_of_lt hb]
    exact UInt8.lt_iff_toNat_lt.1 hpiece

theorem Before.trans (hab : a.Before b) (hbc : b.Before c) : a.Before c := by
  rcases hab with hab | ⟨hab, hpiece⟩
  · rcases hbc with hbc | ⟨hbc, -⟩
    · exact .inl (UInt64.lt_trans hab hbc)
    · exact .inl (hbc ▸ hab)
  · rcases hbc with hbc | ⟨hbc, hpiece'⟩
    · exact .inl (hab ▸ hbc)
    · exact .inr ⟨hab.trans hbc, UInt8.lt_trans hpiece hpiece'⟩

/-- A branch does not come before one of the same key. -/
theorem Before.ident_ne (h : a.Before b) (ha : a.piece.toNat < 16) (hb : b.piece.toNat < 16) :
    a.ident ≠ b.ident := by
  intro heq
  have hseq : a.seqNo = b.seqNo := congrArg BranchKey.seqNo heq
  rcases h with hlt | ⟨-, hlt⟩
  · rw [hseq] at hlt
    exact absurd hlt (UInt64.lt_irrefl _)
  · have hpiece : a.piece.toNat % 16 = b.piece.toNat % 16 :=
      congrArg (fun key : BranchKey => key.piece.val) heq
    rw [Nat.mod_eq_of_lt ha, Nat.mod_eq_of_lt hb] at hpiece
    exact absurd (UInt8.lt_iff_toNat_lt.1 hlt) (Nat.not_lt.2 (Nat.le_of_eq hpiece.symm))

theorem Before.seqNo_le (h : a.Before b) : a.seqNo.toNat ≤ b.seqNo.toNat := by
  rcases h with hlt | ⟨heq, -⟩
  · exact Nat.le_of_lt (UInt64.lt_iff_toNat_lt.1 hlt)
  · exact Nat.le_of_eq (congrArg UInt64.toNat heq)

/-- A part of branches in order is in order. -/
theorem Ordered.sublist {some all : List Branch} (h : Ordered all) (hsub : some.Sublist all) :
    Ordered some :=
  ⟨fun branch hmem => h.pieces branch (hsub.mem hmem), h.increasing.sublist hsub⟩

/-- No branch before the last one has its key. -/
theorem Ordered.ident_ne {done : List Branch} (h : Ordered (done ++ [b])) (ha : a ∈ done) :
    a.ident ≠ b.ident := by
  have hbefore : a.Before b :=
    (List.pairwise_append.1 h.increasing).2.2 a ha b (List.mem_singleton_self b)
  refine hbefore.ident_ne (h.pieces a ?_) (h.pieces b ?_)
  · exact List.mem_append_left _ ha
  · exact List.mem_append_right _ (List.mem_singleton_self b)

end Branch

namespace Trace

open Branch

/-- What the records that were read so far are: in order, if the last one read is put last,
and the key that the next record is compared with is that of the last one. -/
structure Progress.Sound (progress : Progress) : Prop where
  ordered : Ordered progress.records.reverse
  previous : progress.previous = progress.records.head?.map ident

/-- A record that passes the checks of its key has a valid one and comes after the key
before. -/
theorem of_checked {line : Nat} {previous : Option BranchKey} {read record : Branch}
    {key : BranchKey}
    (h : (match read.key?, previous with
      | none, _ => .error (.pieceOutOfRange line read.piece)
      | some key, none => .ok (some (read, key))
      | some key, some earlier =>
        if earlier < key then .ok (some (read, key))
        else .error (.outOfOrder line key earlier) : Except TraceError _) =
      .ok (some (record, key))) :
    record.piece.toNat < 16 ∧ key = record.ident ∧ ∀ earlier ∈ previous, earlier < key := by
  cases hkey : read.key? with
  | none =>
    rw [hkey] at h
    cases h
  | some found =>
    have hpiece := piece_lt_of_key? hkey
    have hident : found = read.ident := Option.some.inj (hkey.symm.trans (key?_eq_some hpiece))
    rw [hkey] at h
    -- The first record is compared with nothing, and any other with the one before.
    cases previous with
    | none =>
      obtain ⟨rfl, rfl⟩ := Prod.mk.inj (Option.some.inj (Except.ok.inj h))
      exact ⟨hpiece, hident, nofun⟩
    | some earlier =>
      dsimp only at h
      split at h
      next hlt =>
        obtain ⟨rfl, rfl⟩ := Prod.mk.inj (Option.some.inj (Except.ok.inj h))
        refine ⟨hpiece, hident, fun other hother => ?_⟩
        exact Option.some.inj hother ▸ hlt
      next => cases h

/-- The record of a line has a valid key and comes after the key before. -/
theorem readLine_eq_some {line : Nat} {previous : Option BranchKey} {bytes : List UInt8}
    {record : Branch} {key : BranchKey}
    (h : readLine line previous bytes = .ok (some (record, key))) :
    record.piece.toNat < 16 ∧ key = record.ident ∧ ∀ earlier ∈ previous, earlier < key := by
  unfold readLine at h
  cases hdecode : decodeText bytes with
  | error fault =>
    rw [hdecode] at h
    cases h
  | ok string =>
    simp only [hdecode] at h
    by_cases hremark : isRemark (Text.trim string.toList) = true
    · rw [if_pos hremark] at h
      cases h
    · rw [if_neg hremark] at h
      cases hread : Branch.ofJson (String.ofList (Text.trim string.toList)) with
      | error fault =>
        rw [hread] at h
        cases h
      | ok read =>
        simp only [hread] at h
        exact of_checked h

/-- A line keeps the records in order. -/
theorem Progress.Sound.next {progress after : Progress} {bytes : List UInt8}
    (h : progress.Sound) (hnext : progress.next bytes = .ok after) : after.Sound := by
  obtain ⟨read, hline, hread⟩ := bind_eq_ok_iff.1 hnext
  cases read with
  | none =>
    -- A remark or an empty line leaves the records alone.
    obtain rfl := Except.ok.inj hread
    exact ⟨h.ordered, h.previous⟩
  | some entry =>
    obtain ⟨record, key⟩ := entry
    obtain rfl := Except.ok.inj hread
    obtain ⟨hpiece, rfl, hlater⟩ := readLine_eq_some hline
    refine ⟨⟨?_, ?_⟩, rfl⟩
    · intro branch hmem
      rcases List.mem_append.1 (List.reverse_cons ▸ hmem) with hold | hnew
      · exact h.ordered.pieces branch hold
      · exact List.mem_singleton.1 hnew ▸ hpiece
    · show (record :: progress.records).reverse.Pairwise Before
      rw [List.reverse_cons, List.pairwise_append]
      refine ⟨h.ordered.increasing, List.pairwise_singleton _ _, ?_⟩
      intro branch hmem last hlast
      obtain rfl := List.mem_singleton.1 hlast
      -- The last record comes before the new one, and any other before the last.
      cases hrecords : progress.records with
      | nil =>
        rw [hrecords] at hmem
        cases hmem
      | cons latest earlier =>
        have horder := h.ordered
        rw [hrecords, List.reverse_cons] at hmem horder
        have hlatest : latest.Before last := by
          refine before_of_ident_lt (horder.pieces latest (by simp)) hpiece (hlater _ ?_)
          rw [h.previous, hrecords]
          rfl
        rcases List.mem_append.1 hmem with hold | hsame
        · have hbefore := (List.pairwise_append.1 horder.increasing).2.2
          exact (hbefore branch hold latest (List.mem_singleton_self _)).trans hlatest
        · exact List.mem_singleton.1 hsame ▸ hlatest

theorem Progress.Sound.foldlM {progress after : Progress} {lines : List (List UInt8)}
    (h : progress.Sound) (hfold : lines.foldlM Progress.next progress = .ok after) :
    after.Sound := by
  induction lines generalizing progress with
  | nil => exact Except.ok.inj hfold ▸ h
  | cons line lines ih =>
    rw [List.foldlM_cons] at hfold
    obtain ⟨middle, hnext, hlater⟩ := bind_eq_ok_iff.1 hfold
    exact ih (h.next hnext) hlater

/-- The records of a trace that is accepted are in order. -/
theorem ordered_of_parse {bytes : List UInt8} {records : List Branch}
    (h : parse bytes = .ok records) : Ordered records := by
  obtain ⟨progress, hfold, hrecords⟩ := bind_eq_ok_iff.1 h
  obtain rfl := Except.ok.inj hrecords
  have hstart : Progress.start.Sound := ⟨⟨nofun, .nil⟩, rfl⟩
  exact (hstart.foldlM hfold).ordered

end Trace

end BranchSelector
