import BarcodeField.Text
import Mathlib.Data.List.DropRight

/-!
# Stripped texts

`Text.strip` takes the characters with a property off both ends of a text, first those in front and then those
behind. What is left is told from the text alone, and not from the order in which the ends are taken.

**The laws.** A text is what was taken in front, what is left, and what was taken behind (`exists_append_strip`),
and what is left has such a character at neither end (`stripped_strip`). A text without one at either end is left
as it is (`strip_of_stripped`), and characters that are put around a text are taken off with its own
(`strip_append`).

A text of such characters alone is used up from the front. Nothing is then left to take from behind, which is the
case apart in `strip_append`.
-/

namespace BarcodeField.Text

variable {p : Char → Bool} {t before after : Text}

/-- Neither end of the text has the property. -/
structure Stripped (p : Char → Bool) (t : Text) : Prop where
  head : ∀ c ∈ t.head?, p c = false
  last : ∀ c ∈ t.getLast?, p c = false

/-! ## The end alone -/

theorem dropEndWhile_eq_rdropWhile (t : Text) : dropEndWhile p t = t.rdropWhile p := rfl

theorem dropEndWhile_append (t : Text) (h : ∀ c ∈ after, p c = true) :
    dropEndWhile p (t ++ after) = dropEndWhile p t := by
  have hreverse : ∀ c ∈ after.reverse, p c = true := fun c hc => h c (List.mem_reverse.mp hc)
  rw [dropEndWhile, List.reverse_append, List.dropWhile_append_of_pos hreverse, ← dropEndWhile]

theorem dropEndWhile_of_last (h : ∀ c ∈ t.getLast?, p c = false) : dropEndWhile p t = t := by
  rw [dropEndWhile_eq_rdropWhile, List.rdropWhile_eq_self_iff]
  intro hne hlast
  rw [h _ (List.getLast?_eq_getLast_of_ne_nil hne)] at hlast
  cases hlast

/-! ## Both ends -/

theorem stripped_strip (p : Char → Bool) (t : Text) : Stripped p (strip p t) where
  head c hc := by
    -- what is left begins as the text does once its front is taken
    have hfront : (strip p t).head? = some c := hc
    obtain ⟨taken, htaken⟩ := List.rdropWhile_prefix p (t.dropWhile p)
    have hhead : (t.dropWhile p).head? = some c := by
      rw [← htaken, List.head?_append, ← dropEndWhile_eq_rdropWhile, ← strip, hfront]
      rfl
    have hnot := List.head?_dropWhile_not p t
    rw [hhead] at hnot
    exact hnot
  last c hc := by
    have hne : strip p t ≠ [] := by
      intro hnil
      rw [hnil] at hc
      cases hc
    have hlast : (strip p t).getLast hne = c := by
      rw [List.getLast?_eq_some_getLast hne] at hc
      exact Option.some.inj hc
    have hnot := List.rdropWhile_last_not p (t.dropWhile p) hne
    rw [← hlast]
    exact Bool.eq_false_iff.mpr hnot

theorem exists_append_strip (p : Char → Bool) (t : Text) :
    ∃ before after, (∀ c ∈ before, p c = true) ∧ (∀ c ∈ after, p c = true) ∧
      t = before ++ strip p t ++ after := by
  refine ⟨t.takeWhile p, (t.dropWhile p).rtakeWhile p, ?_, ?_, ?_⟩
  · intro c hc
    exact List.mem_takeWhile_imp hc
  · intro c hc
    exact List.mem_rtakeWhile_imp hc
  · rw [List.append_assoc, strip, dropEndWhile_eq_rdropWhile, List.rdropWhile_append_rtakeWhile,
      List.takeWhile_append_dropWhile]

theorem strip_of_stripped (h : Stripped p t) : strip p t = t := by
  have hfront : t.dropWhile p = t := by
    cases t with
    | nil => rfl
    | cons c t => simp [h.head c rfl]
  rw [strip, hfront, dropEndWhile_of_last h.last]

theorem strip_strip (p : Char → Bool) (t : Text) : strip p (strip p t) = strip p t :=
  strip_of_stripped (stripped_strip p t)

/-- Characters around a text are taken off with its own. -/
theorem strip_append (hbefore : ∀ c ∈ before, p c = true) (t : Text) (hafter : ∀ c ∈ after, p c = true) :
    strip p (before ++ t ++ after) = strip p t := by
  rw [List.append_assoc, strip, List.dropWhile_append_of_pos hbefore, List.dropWhile_append]
  split
  next hnone =>
    -- the text has nothing to stop at, and what stands behind it is taken from the front
    rw [List.dropWhile_eq_nil_iff.mpr hafter, strip, List.isEmpty_iff.mp hnone]
  next => rw [dropEndWhile_append _ hafter, ← strip]

end BarcodeField.Text
