import BarcodeField.Text

/-!
# Text and terminals

A terminal shows some of the characters that it is sent and takes the others as instructions. Most of
these are **control sequences**, which the escape character U+001B begins. The second character tells how
the sequence goes on:

* `[` begins a list of parameters, which a letter ends. Colours are set this way.
* `]` begins a command as a string, which U+0007 ends.
* `P` begins a string for a device, with parameters before it; `X`, `^` and `_` begin other strings.
* Any other character ends the sequence, once the signs between U+0020 and U+002F are over.

U+0018 and U+001A break off a sequence of any kind, and an escape character begins the next.

`coloured` writes such sequences. `plain` gives a text as it reads where there is no terminal, without its
control sequences and without the control characters that do not part words or lines.

Text that holds no such character is its own plain form (`plain_eq_self`), and with a colour it still is
(`plain_coloured`).
-/

namespace BarcodeField.CommandLine.Terminal

/-- Text between the terminal's codes for a colour and for none. -/
def coloured (code : String) (t : Text) : Text :=
  '\x1b' :: '[' :: (code.toList ++ 'm' :: t ++ ['\x1b', '[', '0', 'm'])

/-! ## Kinds of characters -/

/-- Whether a character parts words or lines, without being a space. -/
def isBreak (c : Char) : Bool := c = '\t' || c = '\n' || c = '\x0c' || c = '\r'

/-- Whether a character stands for itself outside control sequences. -/
def isShown (c : Char) : Bool := isBreak c || (' ' ≤ c && c ≤ '~') || '\u0080' ≤ c

/-- Whether a character may stand between the escape character and the end of a sequence. -/
def isIntermediate (c : Char) : Bool := ' ' ≤ c && c ≤ '/'

/-- Whether a byte of the character's encoding is 9C, which ends a string wherever it is met. -/
def endsString (c : Char) : Bool := (String.utf8EncodeChar c).contains 0x9C

/-! ## Sequences -/

/-- How far a terminal has come in a control sequence. -/
inductive Scan where
  /-- Outside every sequence. -/
  | ground
  /-- Behind the escape character. -/
  | escape
  /-- Behind the escape character and further signs. -/
  | intermediate
  /-- In a list of parameters. -/
  | parameters
  /-- At the beginning of a device's parameters. -/
  | device
  /-- Behind a device's first parameter. -/
  | deviceParameters
  /-- Behind a device's parameters and further signs. -/
  | deviceIntermediate
  /-- In a string. -/
  | string
  /-- In a command. -/
  | command
deriving DecidableEq, Repr

namespace Scan

/-- Where a character leads that neither begins a sequence nor breaks one off. -/
def goOn (c : Char) : Scan → Scan
  | .ground => .ground
  | .escape =>
    if isIntermediate c then .intermediate
    else if c = '[' then .parameters
    else if c = ']' then .command
    else if c = 'P' then .device
    else if c = 'X' || c = '^' || c = '_' then .string
    else if '0' ≤ c && c ≤ '~' then .ground
    else .escape
  | .intermediate => if '0' ≤ c && c ≤ '~' then .ground else .intermediate
  | .parameters => if '@' ≤ c && c ≤ '~' then .ground else .parameters
  | .device =>
    if isIntermediate c then .deviceIntermediate
    else if '0' ≤ c && c ≤ '?' then .deviceParameters
    else if '@' ≤ c && c ≤ '~' then .string
    else .device
  | .deviceParameters =>
    if isIntermediate c then .deviceIntermediate
    else if '<' ≤ c && c ≤ '~' then .string
    else .deviceParameters
  | .deviceIntermediate => if '0' ≤ c && c ≤ '~' then .string else .deviceIntermediate
  | .string => if endsString c then .ground else .string
  | .command => if c = '\x07' then .ground else .command

/-- Where a character leads. -/
def next (s : Scan) (c : Char) : Scan :=
  if c = '\x1b' then .escape
  else if c = '\x18' || c = '\x1a' then .ground
  else s.goOn c

/-- Whether a character is shown. What parts words or lines is shown in the middle of a short sequence
too. -/
def shows (c : Char) : Scan → Bool
  | .ground => isShown c
  | .escape | .intermediate | .parameters => isBreak c
  | .device | .deviceParameters | .deviceIntermediate | .string | .command => false

/-- What is shown of a text, from a place in a sequence on. A character that is shown inside a sequence
holds it up: what follows is shown as well, until a control character takes the sequence up again. A
character beyond ASCII that comes first ends it. -/
def shown (s : Scan) (isHeldUp : Bool) : Text → Text
  | [] => []
  | c :: rest =>
    if s.shows c || (isHeldUp && isShown c) then
      c :: (if '\u0080' ≤ c then ground else s).shown true rest
    else (s.next c).shown false rest

end Scan

/-- A text as it reads where there is no terminal. -/
def plain (t : Text) : Text := Scan.ground.shown true t

/-! ## Small laws -/

theorem plain_append {t : Text} (h : ∀ c ∈ t, isShown c = true) (rest : Text) :
    plain (t ++ rest) = t ++ plain rest := by
  induction t with
  | nil => rfl
  | cons c t ih =>
    have ih := ih fun d hd => h d (List.mem_cons_of_mem c hd)
    simp only [plain] at ih
    simp [plain, Scan.shown, Scan.shows, h c List.mem_cons_self, ih]

theorem plain_eq_self {t : Text} (h : ∀ c ∈ t, isShown c = true) : plain t = t := by
  simpa [plain, Scan.shown] using plain_append h []

/-- Outside every sequence a character is shown for itself alone, so nothing is held up. -/
theorem shown_ground (isHeldUp : Bool) (t : Text) : Scan.ground.shown isHeldUp t = plain t := by
  cases t with
  | nil => rfl
  | cons c t => cases isHeldUp <;> simp [plain, Scan.shown, Scan.shows]

/-- A digit is neither shown in a list of parameters nor does it end the list. -/
theorem parameters_of_isDigit {c : Char} (h : c.isDigit = true) :
    Scan.parameters.shows c = false ∧ Scan.parameters.next c = .parameters := by
  have hne (d : Char) (hd : d.isDigit = false) : c ≠ d := fun heq => by simp [heq, hd] at h
  have hletter : ¬ '@' ≤ c := by
    have hnine := (Char.isDigit_iff_toNat.mp h).2
    rw [Char.le_def, UInt32.le_iff_toNat_le]
    exact Nat.not_le.mpr (Nat.lt_of_le_of_lt hnine (by decide))
  constructor
  · simp [Scan.shows, isBreak, hne '\t' rfl, hne '\n' rfl, hne '\x0c' rfl, hne '\r' rfl]
  · simp [Scan.next, Scan.goOn, hne '\x1b' rfl, hne '\x18' rfl, hne '\x1a' rfl, hletter]

theorem plain_sequence {parameters : Text} (h : ∀ c ∈ parameters, c.isDigit = true) (rest : Text) :
    plain ('\x1b' :: '[' :: (parameters ++ 'm' :: rest)) = plain rest := by
  have hparameters : Scan.parameters.shown false (parameters ++ 'm' :: rest) = plain rest := by
    induction parameters with
    | nil => exact shown_ground false rest
    | cons c parameters ih =>
      obtain ⟨hshows, hnext⟩ := parameters_of_isDigit (h c List.mem_cons_self)
      rw [List.cons_append, Scan.shown, hshows, hnext]
      exact ih fun d hd => h d (List.mem_cons_of_mem c hd)
  exact hparameters

/-- A colour is not seen where there is no terminal. -/
theorem plain_coloured {code : String} {t : Text} (hcode : ∀ c ∈ code.toList, c.isDigit = true)
    (ht : ∀ c ∈ t, isShown c = true) (rest : Text) : plain (coloured code t ++ rest) = t ++ plain rest := by
  have hzero : ∀ c ∈ ['0'], c.isDigit = true := List.all_eq_true.mp rfl
  have hsplit : coloured code t ++ rest =
      '\x1b' :: '[' :: (code.toList ++ 'm' :: (t ++ '\x1b' :: '[' :: (['0'] ++ 'm' :: rest))) := by
    simp [coloured]
  rw [hsplit, plain_sequence hcode, plain_append ht, plain_sequence hzero]

end BarcodeField.CommandLine.Terminal
