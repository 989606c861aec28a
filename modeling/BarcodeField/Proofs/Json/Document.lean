import BarcodeField.Proofs.Json.Numeral
import BarcodeField.Proofs.Json.String

/-!
# Documents come back

The reader takes a document apart from its front, in the order in which the writer puts it together. What it does
with each kind of beginning is said once, lemma by lemma, and a value is then read part by part, by induction on
how it is nested. Each call of the reader takes at least half a character's worth of fuel.

**The law** (`read?_write`): a writable value is read from its document in either layout, whatever blanks follow
it. Values that are made of text and of numbers are writable.
-/

namespace BarcodeField.Json.Value

open Numeral (Ends continues)

/-! ## What can be written -/

mutual

/-- Whether the writer writes all of a value: the fraction of a numeral has to be made of digits, and a surrogate
code must be one. -/
def Writable : Value → Prop
  | .number n => ∀ c ∈ n.fraction, c.isDigit
  | .string pieces => ∀ p ∈ pieces, p.WellFormed
  | .array values => AllWritable values
  | .object members => MembersWritable members
  | .null | .bool _ => True

def AllWritable : List Value → Prop
  | [] => True
  | v :: rest => v.Writable ∧ AllWritable rest

def MembersWritable : List (List Piece × Value) → Prop
  | [] => True
  | (key, v) :: rest => (∀ p ∈ key, p.WellFormed) ∧ v.Writable ∧ MembersWritable rest

end

/-! ## Gaps -/

variable {style : Style} {depth fuel : Nat} {gap t rest : Text}

theorem skipGap_append (h : ∀ c ∈ gap, isGap c) : skipGap (gap ++ t) = skipGap t :=
  List.dropWhile_append_of_pos h

theorem skipGap_of_head (h : ∀ c ∈ t.head?, isGap c = false) : skipGap t = t := by
  cases t with
  | nil => rfl
  | cons c t =>
    have hc : isGap c = false := h c rfl
    simp [skipGap, hc]

theorem isGap_of_isDigit {c : Char} (h : c.isDigit) : isGap c = false := by
  by_contra hgap
  simp only [isGap, Bool.or_eq_true, beq_iff_eq, Bool.not_eq_false] at hgap
  obtain ((rfl | rfl) | rfl) | rfl := hgap <;> exact absurd h (by decide)

theorem isGap_of_mem_newline : ∀ c ∈ style.newline depth, isGap c := by
  intro c hc
  cases style with
  | compact => cases hc
  | indented =>
    rcases List.mem_cons.mp hc with rfl | hblank
    · decide
    · rw [List.eq_of_mem_replicate hblank]
      decide

/-- No numeral goes on where a line ends or a value is closed. -/
theorem ends_newline_append {c : Char} (hc : continues c = false) :
    Ends (style.newline depth ++ c :: rest) := by
  cases style with
  | compact =>
    intro _ h
    cases h
    exact hc
  | indented =>
    intro _ h
    cases h
    decide

/-! ## The reader, beginning by beginning -/

theorem readValue?_gap (h : ∀ c ∈ gap, isGap c) : readValue? fuel (gap ++ t) = readValue? fuel t := by
  cases fuel with
  | zero => rfl
  | succ fuel => rw [readValue?, readValue?, skipGap_append h]

theorem readElements?_gap (h : ∀ c ∈ gap, isGap c) : readElements? fuel (gap ++ t) = readElements? fuel t := by
  cases fuel with
  | zero => rfl
  | succ fuel => rw [readElements?, readElements?, readValue?_gap h]

theorem readMembers?_gap (h : ∀ c ∈ gap, isGap c) : readMembers? fuel (gap ++ t) = readMembers? fuel t := by
  cases fuel with
  | zero => rfl
  | succ fuel => rw [readMembers?, readMembers?, skipGap_append h]

theorem readValue?_quote :
    readValue? (fuel + 1) ('"' :: t) = (Piece.readString? t).map fun read => (.string read.1, read.2) := by
  have hskip : skipGap ('"' :: t) = '"' :: t := rfl
  simp only [readValue?, hskip]
  cases Piece.readString? t <;> rfl

/-- A digit or a minus sign begins a number. -/
theorem readValue?_numeral (h : ∀ c ∈ t.head?, c.isDigit ∨ c = '-') :
    readValue? (fuel + 1) t = (Numeral.read? t).map fun read => (.number read.1, read.2) := by
  have hskip : skipGap t = t := by
    apply skipGap_of_head
    intro c hc
    rcases h c hc with hdigit | rfl
    · exact isGap_of_isDigit hdigit
    · decide
  rw [readValue?, hskip]
  -- no other kind of value begins with such a character
  split <;> first | exact absurd (h _ rfl) (by decide) | (cases Numeral.read? t <;> rfl)

/-- A bracket and something else than its partner begin an array with elements. -/
theorem readValue?_array (hgap : ∀ c ∈ gap, isGap c) (h : ∀ c ∈ t.head?, isGap c = false ∧ c ≠ ']') :
    readValue? (fuel + 1) ('[' :: (gap ++ t)) =
      (readElements? fuel t).map fun read => (.array read.1, read.2) := by
  have hskip : skipGap ('[' :: (gap ++ t)) = '[' :: (gap ++ t) := rfl
  have hinside : skipGap (gap ++ t) = t := by
    rw [skipGap_append hgap, skipGap_of_head fun c hc => (h c hc).1]
  simp only [readValue?, hskip, hinside]
  split
  next => exact absurd rfl (h ']' rfl).2
  next => cases readElements? fuel t <;> rfl

/-- The same of an object with members. -/
theorem readValue?_object (hgap : ∀ c ∈ gap, isGap c)
    (h : ∀ c ∈ t.head?, isGap c = false ∧ c ≠ '\x7d') :
    readValue? (fuel + 1) ('\x7b' :: (gap ++ t)) =
      (readMembers? fuel t).map fun read => (.object read.1, read.2) := by
  have hskip : skipGap ('\x7b' :: (gap ++ t)) = '\x7b' :: (gap ++ t) := rfl
  have hinside : skipGap (gap ++ t) = t := by
    rw [skipGap_append hgap, skipGap_of_head fun c hc => (h c hc).1]
  simp only [readValue?, hskip, hinside]
  split
  next => exact absurd rfl (h '\x7d' rfl).2
  next => cases readMembers? fuel t <;> rfl

/-! ## Elements and members -/

variable {v : Value} {key : List Piece} {left : Text}

theorem readElements?_last (hgap : ∀ c ∈ gap, isGap c)
    (h : readValue? fuel t = some (v, gap ++ ']' :: left)) :
    readElements? (fuel + 1) t = some ([v], left) := by
  have hskip : skipGap (gap ++ ']' :: left) = ']' :: left := skipGap_append hgap
  simp [readElements?, h, hskip]

theorem readElements?_more (h : readValue? fuel t = some (v, ',' :: left)) :
    readElements? (fuel + 1) t = (readElements? fuel left).map fun read => (v :: read.1, read.2) := by
  have hskip : skipGap (',' :: left) = ',' :: left := rfl
  rw [readElements?, h]
  cases hrest : readElements? fuel left <;> simp [hskip, hrest]

section Member

variable (hkey : ∀ p ∈ key, p.WellFormed) (style : Style)
include hkey

/-- A member's name is read up to the colon, and the value begins behind the blank after it. -/
theorem readName?_quote : ∃ blank, (∀ c ∈ blank, isGap c) ∧
    skipGap (style.colon ++ t) = ':' :: (blank ++ t) ∧
      skipGap (Piece.quote key ++ (style.colon ++ t)) =
        '"' :: (key.flatMap Piece.render ++ '"' :: (style.colon ++ t)) ∧
      Piece.readString? (key.flatMap Piece.render ++ '"' :: (style.colon ++ t)) =
        some (key, style.colon ++ t) := by
  have hquote : skipGap (Piece.quote key ++ (style.colon ++ t)) =
      '"' :: (key.flatMap Piece.render ++ '"' :: (style.colon ++ t)) := by
    rw [Piece.quote, List.cons_append, List.append_assoc]
    rfl
  have hstring := Piece.readString?_quote hkey (style.colon ++ t)
  cases style with
  | compact => exact ⟨[], by simp, rfl, hquote, hstring⟩
  | indented => exact ⟨[' '], by simp [isGap], rfl, hquote, hstring⟩

theorem readMembers?_last (hgap : ∀ c ∈ gap, isGap c)
    (h : readValue? fuel t = some (v, gap ++ '\x7d' :: left)) :
    readMembers? (fuel + 1) (Piece.quote key ++ (style.colon ++ t)) = some ([(key, v)], left) := by
  obtain ⟨blank, hblank, hcolon, hquote, hstring⟩ := readName?_quote (t := t) hkey style
  have hskip : skipGap (gap ++ '\x7d' :: left) = '\x7d' :: left := skipGap_append hgap
  simp [readMembers?, hquote, hstring, hcolon, readValue?_gap hblank, h, hskip]

theorem readMembers?_more (h : readValue? fuel t = some (v, ',' :: left)) :
    readMembers? (fuel + 1) (Piece.quote key ++ (style.colon ++ t)) =
      (readMembers? fuel left).map fun read => ((key, v) :: read.1, read.2) := by
  obtain ⟨blank, hblank, hcolon, hquote, hstring⟩ := readName?_quote (t := t) hkey style
  have hskip : skipGap (',' :: left) = ',' :: left := rfl
  cases hrest : readMembers? fuel left <;>
    simp [readMembers?, hquote, hstring, hcolon, readValue?_gap hblank, h, hskip, hrest]

end Member

/-! ## Values -/

/-- A value begins with something that is no gap and closes no array. -/
theorem head_write (v : Value) : ∀ c ∈ (v.write style depth ++ rest).head?, isGap c = false ∧ c ≠ ']' := by
  intro c hc
  match v with
  | .number n =>
    rw [write] at hc
    rcases Numeral.head_render n c hc with hdigit | rfl
    · refine ⟨isGap_of_isDigit hdigit, ?_⟩
      rintro rfl
      exact absurd hdigit (by decide)
    · decide
  | .null | .bool true | .bool false | .string _ | .array [] | .array (_ :: _) | .object [] |
    .object (_ :: _) =>
    cases hc
    decide

theorem head_quote (key : List Piece) :
    ∀ c ∈ (Piece.quote key ++ rest).head?, isGap c = false ∧ c ≠ '\x7d' := by
  intro c hc
  cases hc
  decide

theorem length_write_pos (v : Value) : 0 < (v.write style depth).length := by
  apply List.length_pos_of_ne_nil
  intro hnil
  have hhead : ∀ c ∈ (v.write style depth ++ [']']).head?, isGap c = false ∧ c ≠ ']' := head_write v
  rw [hnil] at hhead
  exact (hhead ']' rfl).2 rfl

theorem ends_writeElements (values : List Value) : Ends (writeElements style depth values ++ rest) := by
  cases values with
  | nil =>
    rw [writeElements, List.append_assoc]
    exact ends_newline_append (by decide)
  | cons v values =>
    intro c hc
    cases hc
    decide

theorem ends_writeMembers (members : List (List Piece × Value)) :
    Ends (writeMembers style depth members ++ rest) := by
  cases members with
  | nil =>
    rw [writeMembers, List.append_assoc]
    exact ends_newline_append (by decide)
  | cons m members =>
    intro c hc
    cases hc
    decide

/-! ## Reading back -/

/-- Whether a value is read from what it is written as, in front of anything that does not go on a numeral. Two
calls of the reader for each character are enough. -/
def ReadsBack (style : Style) (v : Value) : Prop := ∀ depth fuel rest, Ends rest →
  2 * (v.write style depth).length ≤ fuel → readValue? fuel (v.write style depth ++ rest) = some (v, rest)

theorem exists_fuel_succ {v : Value} (h : 2 * (v.write style depth).length ≤ fuel) : ∃ k, fuel = k + 1 := by
  have hpos : 0 < (v.write style depth).length := length_write_pos v
  exact Nat.exists_eq_add_one.mpr (by omega)

theorem readsBack_number {n : Numeral} (h : ∀ c ∈ n.fraction, c.isDigit) : ReadsBack style (.number n) := by
  intro depth fuel rest hends hfuel
  obtain ⟨fuel, rfl⟩ := exists_fuel_succ hfuel
  rw [write, readValue?_numeral n.head_render, Numeral.read?_render h hends]
  rfl

theorem readsBack_string {pieces : List Piece} (h : ∀ p ∈ pieces, p.WellFormed) :
    ReadsBack style (.string pieces) := by
  intro depth fuel rest _ hfuel
  obtain ⟨fuel, rfl⟩ := exists_fuel_succ hfuel
  rw [write, Piece.quote, List.cons_append, List.append_assoc, readValue?_quote, List.singleton_append,
    Piece.readString?_quote h]
  rfl

/-- Elements are read behind the bracket of an array. Each leaves what the next one needs. -/
theorem readElements?_write {v : Value} {values : List Value} (rest : Text) (hv : ReadsBack style v)
    (hvalues : ∀ w ∈ values, ReadsBack style w)
    (hfuel : 2 * ((v.write style (depth + 1)).length + (writeElements style depth values).length) ≤ fuel) :
    readElements? fuel (v.write style (depth + 1) ++ (writeElements style depth values ++ rest)) =
      some (v :: values, rest) := by
  induction values generalizing v fuel with
  | nil =>
    simp only [writeElements, List.length_append, List.length_singleton] at hfuel
    obtain ⟨fuel, rfl⟩ : ∃ k, fuel = k + 1 := Nat.exists_eq_add_one.mpr (by omega)
    have hread := hv (depth + 1) fuel (writeElements style depth [] ++ rest) (ends_writeElements []) (by omega)
    rw [writeElements, List.append_assoc] at hread ⊢
    exact readElements?_last isGap_of_mem_newline hread
  | cons w values ih =>
    simp only [writeElements, List.length_cons, List.length_append] at hfuel
    obtain ⟨fuel, rfl⟩ : ∃ k, fuel = k + 1 := Nat.exists_eq_add_one.mpr (by omega)
    have hread := hv (depth + 1) fuel (writeElements style depth (w :: values) ++ rest)
      (ends_writeElements _) (by omega)
    have hleft : 2 * ((w.write style (depth + 1)).length + (writeElements style depth values).length) ≤ fuel := by
      omega
    have hrest := ih (hvalues w List.mem_cons_self) (fun u hu => hvalues u (List.mem_cons_of_mem _ hu)) hleft
    simp only [writeElements, List.cons_append, List.append_assoc] at hread ⊢
    rw [readElements?_more hread, readElements?_gap isGap_of_mem_newline, hrest]
    rfl

/-- Members are read behind the brace of an object in the same way. -/
theorem readMembers?_write {key : List Piece} {v : Value} {members : List (List Piece × Value)} (rest : Text)
    (hkey : ∀ p ∈ key, p.WellFormed) (hv : ReadsBack style v)
    (hmembers : ∀ m ∈ members, (∀ p ∈ m.1, p.WellFormed) ∧ ReadsBack style m.2)
    (hfuel : 2 * ((v.write style (depth + 1)).length + (writeMembers style depth members).length) ≤ fuel) :
    readMembers? fuel (Piece.quote key ++
        (style.colon ++ (v.write style (depth + 1) ++ (writeMembers style depth members ++ rest)))) =
      some ((key, v) :: members, rest) := by
  induction members generalizing key v fuel with
  | nil =>
    simp only [writeMembers, List.length_append, List.length_singleton] at hfuel
    obtain ⟨fuel, rfl⟩ : ∃ k, fuel = k + 1 := Nat.exists_eq_add_one.mpr (by omega)
    have hread := hv (depth + 1) fuel (writeMembers style depth [] ++ rest) (ends_writeMembers []) (by omega)
    rw [writeMembers, List.append_assoc] at hread ⊢
    exact readMembers?_last hkey style isGap_of_mem_newline hread
  | cons m members ih =>
    obtain ⟨key', w⟩ := m
    simp only [writeMembers, List.length_cons, List.length_append] at hfuel
    obtain ⟨fuel, rfl⟩ : ∃ k, fuel = k + 1 := Nat.exists_eq_add_one.mpr (by omega)
    have hread := hv (depth + 1) fuel (writeMembers style depth ((key', w) :: members) ++ rest)
      (ends_writeMembers _) (by omega)
    obtain ⟨hkey', hw⟩ := hmembers (key', w) List.mem_cons_self
    have hleft : 2 * ((w.write style (depth + 1)).length + (writeMembers style depth members).length) ≤ fuel := by
      omega
    have hrest := ih hkey' hw (fun n hn => hmembers n (List.mem_cons_of_mem _ hn)) hleft
    simp only [writeMembers, List.cons_append, List.append_assoc] at hread ⊢
    rw [readMembers?_more hkey style hread, readMembers?_gap isGap_of_mem_newline, hrest]
    rfl

theorem readsBack_array {values : List Value} (h : ∀ v ∈ values, ReadsBack style v) :
    ReadsBack style (.array values) := by
  intro depth fuel rest _ hfuel
  obtain ⟨fuel, rfl⟩ := exists_fuel_succ hfuel
  cases values with
  | nil => rfl
  | cons v values =>
    simp only [write, List.length_cons, List.length_append] at hfuel
    have helements : 2 * ((v.write style (depth + 1)).length + (writeElements style depth values).length) ≤ fuel := by
      omega
    have hread := readElements?_write rest (h v List.mem_cons_self)
      (fun w hw => h w (List.mem_cons_of_mem _ hw)) helements
    rw [write, List.cons_append, List.append_assoc, List.append_assoc,
      readValue?_array isGap_of_mem_newline (head_write v), hread]
    rfl

theorem readsBack_object {members : List (List Piece × Value)}
    (h : ∀ m ∈ members, (∀ p ∈ m.1, p.WellFormed) ∧ ReadsBack style m.2) :
    ReadsBack style (.object members) := by
  intro depth fuel rest _ hfuel
  obtain ⟨fuel, rfl⟩ := exists_fuel_succ hfuel
  cases members with
  | nil => rfl
  | cons m members =>
    obtain ⟨key, v⟩ := m
    obtain ⟨hkey, hv⟩ : (∀ p ∈ key, p.WellFormed) ∧ ReadsBack style v := h (key, v) List.mem_cons_self
    simp only [write, List.length_cons, List.length_append] at hfuel
    have hmembers : 2 * ((v.write style (depth + 1)).length + (writeMembers style depth members).length) ≤ fuel := by
      omega
    have hread := readMembers?_write rest hkey hv (fun n hn => h n (List.mem_cons_of_mem _ hn)) hmembers
    simp only [write, List.cons_append, List.append_assoc]
    rw [readValue?_object isGap_of_mem_newline (head_quote key), hread]
    rfl

mutual

/-- **A writable value is read from what it is written as.** -/
theorem readsBack : ∀ {v : Value}, v.Writable → ReadsBack style v
  | .array _, h => readsBack_array (allReadBack h)
  | .object _, h => readsBack_object (membersReadBack h)
  | .number _, h => readsBack_number h
  | .string _, h => readsBack_string h
  | .null, _ | .bool true, _ | .bool false, _ => by
    intro depth fuel rest _ hfuel
    obtain ⟨fuel, rfl⟩ := exists_fuel_succ hfuel
    rfl

theorem allReadBack : ∀ {values : List Value}, AllWritable values → ∀ v ∈ values, ReadsBack style v
  | [], _ => nofun
  | _ :: _, h => List.forall_mem_cons.mpr ⟨readsBack h.1, allReadBack h.2⟩

theorem membersReadBack : ∀ {members : List (List Piece × Value)}, MembersWritable members →
    ∀ m ∈ members, (∀ p ∈ m.1, p.WellFormed) ∧ ReadsBack style m.2
  | [], _ => nofun
  | (_, _) :: _, h => List.forall_mem_cons.mpr ⟨⟨h.1, readsBack h.2.1⟩, membersReadBack h.2.2⟩

end

/-- **A writable value is read from its document**, in either layout and with blanks after it. -/
theorem read?_write {v : Value} (style : Style) (h : v.Writable) (gap : Text) (hgap : ∀ c ∈ gap, isGap c) :
    read? (v.write style 0 ++ gap) = some v := by
  have hends : Ends gap := by
    intro c hc
    have hblank := hgap c (List.mem_of_mem_head? hc)
    simp only [isGap, Bool.or_eq_true, beq_iff_eq] at hblank
    obtain ((rfl | rfl) | rfl) | rfl := hblank <;> decide
  have hfuel : 2 * (v.write style 0).length ≤ 2 * (v.write style 0 ++ gap).length + 2 := by
    rw [List.length_append]
    omega
  have hread := readsBack h 0 _ gap hends hfuel
  have hrest : skipGap gap = [] := List.dropWhile_eq_nil_iff.mpr hgap
  rw [read?, hread]
  exact if_pos hrest

end BarcodeField.Json.Value
