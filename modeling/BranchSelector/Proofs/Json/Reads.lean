import BranchSelector.Json.Reader

/-!
# What readers take from a text

`Reads reader text value rest` says that a reader finds a value at the front of a text and leaves
the rest of the text. Readers in a row read texts in a row (`Reads.bind`), so what a reader takes
is put together from what its primitives take. All of them stop at the first character that is not
theirs, and a reader that looks for a token passes over white space (`Spaces`) before it.
-/

namespace BranchSelector.Json

open Reader

/-- A reader finds a value at the front of a text and leaves the rest of it. -/
def Reads {α : Type} (reader : Reader α) (text : List Char) (value : α) (rest : List Char) : Prop :=
  reader text = .ok (value, rest)

/-- White space as JSON has it. -/
def Spaces (text : List Char) : Prop :=
  ∀ c ∈ text, isSpace c = true

instance (text : List Char) : Decidable (Spaces text) :=
  List.decidableBAll _ text

theorem Spaces.nil : Spaces [] :=
  List.forall_mem_nil _

namespace Reads

variable {α γ : Type} {reader : Reader α} {next : α → Reader γ} {c : Char} {value : α} {last : γ}
  {text middle rest spaces : List Char}

theorem pure (value : α) (text : List Char) : Reads (Pure.pure value) text value text :=
  rfl

/-- Two readers in a row. -/
theorem bind (h : Reads reader text value middle) (hnext : Reads (next value) middle last rest) :
    Reads (reader >>= next) text last rest := by
  show (reader text >>= fun read => next read.1 read.2) = .ok (last, rest)
  rw [show reader text = .ok (value, middle) from h]
  exact hnext

theorem map {turn : α → γ} (h : Reads reader text value rest) :
    Reads (turn <$> reader) text (turn value) rest := by
  show (reader text >>= fun read => Except.ok (turn read.1, read.2)) = .ok (turn value, rest)
  rw [show reader text = .ok (value, rest) from h]
  rfl

theorem get (text : List Char) : Reads (MonadState.get : Reader (List Char)) text text text :=
  rfl

theorem peek (text : List Char) : Reads Reader.peek text text.head? text :=
  rfl

theorem advance (c : Char) (text : List Char) : Reads Reader.advance (c :: text) () text :=
  rfl

theorem peekToken_eq (text : List Char) :
    Reader.peekToken text = .ok ((text.dropWhile isSpace).head?, text.dropWhile isSpace) :=
  rfl

theorem peekToken (hspaces : Spaces spaces) (hc : isSpace c = false) :
    Reads Reader.peekToken (spaces ++ c :: text) (some c) (c :: text) := by
  have hleft : (spaces ++ c :: text).dropWhile isSpace = c :: text := by
    rw [List.dropWhile_append_of_pos hspaces, List.dropWhile_cons_of_neg (by rw [hc]; decide)]
  rw [Reads, peekToken_eq, hleft]
  rfl

theorem peekToken_self (hc : isSpace c = false) (text : List Char) :
    Reads Reader.peekToken (c :: text) (some c) (c :: text) :=
  peekToken Spaces.nil hc

/-- A reader that looks for a token first passes over white space. -/
theorem skip {next : Option Char → Reader γ} (hspaces : Spaces spaces)
    (h : Reads (Reader.peekToken >>= next) text last rest) :
    Reads (Reader.peekToken >>= next) (spaces ++ text) last rest := by
  have hleft : Reader.peekToken (spaces ++ text) = Reader.peekToken text := by
    rw [peekToken_eq, peekToken_eq, List.dropWhile_append_of_pos hspaces]
  show (Reader.peekToken (spaces ++ text) >>= fun read => next read.1 read.2) = _
  rw [hleft]
  exact h

theorem word (cs rest : List Char) : Reads (Reader.word cs) (cs ++ rest) () rest := by
  induction cs with
  | nil => exact Reads.pure () rest
  | cons c cs ih =>
    refine (Reads.peek _).bind ?_
    show Reads (if c = c then Reader.advance >>= fun _ => Reader.word cs else _) _ _ _
    rw [if_pos rfl]
    exact (Reads.advance c _).bind ih

/-- A character that may come next is taken if it does. -/
theorem optional {P : Option Char → Prop} [DecidablePred P] {next : Unit → Reader γ}
    {front : List Char} (hfront : front = [] ∧ ¬ P text.head? ∨ ∃ c, front = [c] ∧ P (some c))
    (h : Reads (next ()) text last rest) :
    Reads (Reader.peek >>= fun c? => if P c? then Reader.advance >>= next else next ())
      (front ++ text) last rest := by
  rcases hfront with ⟨rfl, hnot⟩ | ⟨c, rfl, hthere⟩
  · refine (Reads.peek text).bind ?_
    rw [if_neg hnot]
    exact h
  · refine (Reads.peek (c :: text)).bind ?_
    rw [List.head?_cons, if_pos hthere]
    exact (Reads.advance c text).bind h

theorem colon (hspaces : Spaces spaces) :
    Reads Reader.colon (spaces ++ ':' :: rest) () rest :=
  (peekToken hspaces (by decide)).bind (advance ':' rest)

/-- Digits are taken up to the first character that is none. -/
theorem digits {ds : List Char} (hds : ∀ d ∈ ds, d.isDigit = true)
    (hrest : ∀ c ∈ rest.head?, c.isDigit = false) :
    Reads Reader.digits (ds ++ rest) ds rest := by
  have hnone : rest.takeWhile Char.isDigit = [] ∧ rest.dropWhile Char.isDigit = rest := by
    cases rest with
    | nil => exact ⟨rfl, rfl⟩
    | cons c rest =>
      have hc : c.isDigit = false := hrest c rfl
      exact ⟨List.takeWhile_cons_of_neg (by simp [hc]), List.dropWhile_cons_of_neg (by simp [hc])⟩
  show Except.ok ((ds ++ rest).takeWhile Char.isDigit, (ds ++ rest).dropWhile Char.isDigit) = _
  rw [List.takeWhile_append_of_pos hds, List.dropWhile_append_of_pos hds, hnone.1, hnone.2,
    List.append_nil]

/-- A text is read whole if nothing but white space is left of it. -/
theorem decode {text : String} (h : Reads reader text.toList value rest) (hrest : Spaces rest) :
    Reader.decode reader text = .ok value := by
  have hleft : rest.dropWhile isSpace = [] := by
    rw [← List.append_nil rest, List.dropWhile_append_of_pos hrest]
    rfl
  show (reader text.toList >>= fun read =>
    if (read.2.dropWhile isSpace).isEmpty then Except.ok read.1
    else .error (.malformed .trailingCharacters)) = .ok value
  rw [show reader text.toList = .ok (value, rest) from h]
  show (if (rest.dropWhile isSpace).isEmpty then Except.ok value else _) = _
  rw [hleft]
  rfl

end Reads

end BranchSelector.Json
