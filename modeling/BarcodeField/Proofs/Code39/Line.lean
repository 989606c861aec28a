import BarcodeField.Content
import BarcodeField.Proofs.Text.Strip

/-!
# The printed line of a Code 39 field

Data may bring the asterisks of its symbol along, any number of them at either end. What they stand around is the
core of the data, and asterisks inside the core stay where they are.

**The law** (`line_canonical`): the line is the core between two asterisks. Asterisks that are put around the data,
or taken off its ends, leave the line alone; and a line that is read as data is printed as it stands. The encoder
gets the data untouched.

Data of asterisks alone has an empty core, whichever end they are counted to.
-/

namespace BarcodeField.Code39

open Text (Stripped)

theorem stripped_iff {t : Text} :
    Stripped (· == delimiter) t ↔ t.head? ≠ some delimiter ∧ t.getLast? ≠ some delimiter := by
  have hend (o : Option Char) : (∀ c ∈ o, (c == delimiter) = false) ↔ o ≠ some delimiter := by
    cases o <;> simp
  rw [← hend, ← hend]
  exact ⟨fun h => ⟨h.head, h.last⟩, fun ⟨hhead, hlast⟩ => ⟨hhead, hlast⟩⟩

theorem beq_delimiter_of_mem_replicate {n : Nat} : ∀ c ∈ List.replicate n delimiter, (c == delimiter) = true := by
  intro c hc
  rw [List.eq_of_mem_replicate hc, beq_self_eq_true]

theorem eq_replicate_of_beq_delimiter {t : Text} (h : ∀ c ∈ t, (c == delimiter) = true) :
    t = List.replicate t.length delimiter :=
  List.eq_replicate_iff.mpr ⟨rfl, fun c hc => eq_of_beq (h c hc)⟩

/-- Data is asterisks around a core that has none at its ends. -/
theorem exists_core (data : Text) :
    ∃ m n, data = List.replicate m delimiter ++ data.strip (· == delimiter) ++ List.replicate n delimiter := by
  obtain ⟨before, after, hbefore, hafter, hdata⟩ := Text.exists_append_strip (· == delimiter) data
  refine ⟨before.length, after.length, ?_⟩
  rw [← eq_replicate_of_beq_delimiter hbefore, ← eq_replicate_of_beq_delimiter hafter]
  exact hdata

/-- Asterisks around the data are not seen on the line. -/
theorem line_replicate_append (m n : Nat) (data : Text) :
    (content (List.replicate m delimiter ++ data ++ List.replicate n delimiter)).line = (content data).line := by
  rw [content, Text.strip_append beq_delimiter_of_mem_replicate data beq_delimiter_of_mem_replicate, content]

/-- A core is printed between two asterisks, so each core has a line of its own. -/
theorem line_of_stripped {core : Text} (h : Stripped (· == delimiter) core) :
    (content core).line = delimiter :: (core ++ [delimiter]) := by
  rw [content, Text.strip_of_stripped h]

/-- **The line is the core of the data between two asterisks**, and nothing else of the data's ends. -/
theorem line_canonical (data : Text) :
    (∃ core, core.head? ≠ some '*' ∧ core.getLast? ≠ some '*' ∧
        (∃ m n, data = List.replicate m '*' ++ core ++ List.replicate n '*') ∧
        (content data).line = '*' :: (core ++ ['*'])) ∧
      (content data).payload = data ∧
      (∀ m n, (content (List.replicate m '*' ++ data ++ List.replicate n '*')).line = (content data).line) ∧
      (content (content data).line).line = (content data).line := by
  have hcore : Stripped (· == delimiter) (data.strip (· == delimiter)) := Text.stripped_strip _ data
  obtain ⟨hhead, hlast⟩ := stripped_iff.mp hcore
  refine ⟨⟨data.strip (· == delimiter), hhead, hlast, exists_core data, rfl⟩, rfl, ?_, ?_⟩
  · intro m n
    exact line_replicate_append m n data
  · -- a line is its core with one asterisk on either side
    have hline : (content data).line =
        List.replicate 1 delimiter ++ data.strip (· == delimiter) ++ List.replicate 1 delimiter := rfl
    rw [hline, line_replicate_append, line_of_stripped hcore]
    rfl

/-- Asterisks inside stay, and data that is nothing but asterisks is printed as two of them. -/
example : (content ['*', '*', 'A', '*', 'B', '*']).line = ['*', 'A', '*', 'B', '*'] ∧
    (content ['*', '*', '*']).line = ['*', '*'] := by decide

end BarcodeField.Code39
