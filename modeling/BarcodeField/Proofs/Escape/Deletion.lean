import BarcodeField.Proofs.Escape.Reduction
import Mathlib.Logic.Relation
import Mathlib.Order.WellFounded

/-!
# Single deletions

One start code is deleted at a time, at an index of one's choice (`Deletion`); a stray one stands behind the
first character (`StrayDeletion`).

**The law** (`stripStray_normalForm`): in whatever order stray start codes are deleted, nothing is left to
choose in the end. Deletions always run out, and the text they end in is the one that `stripStray` answers,
which is itself reached by such deletions.

Order does not matter because a deletion leaves the reduced text as it was (`Deletion.reduce_eq`), whether
or not it joins the characters around it into another start code; so all texts that a data text can be
brought to have one reduced text in common, and a text without stray start codes is its own.
-/

namespace BarcodeField.Escape

open Relation (ReflTransGen)

/-- One start code deleted from a text. -/
def Deletion (s t : Text) : Prop := ∃ i, StartCodeAt s i ∧ t = s.take i ++ s.drop (i + 2)

/-- One start code behind the first character deleted from a text. -/
def StrayDeletion (s t : Text) : Prop := ∃ i, 0 < i ∧ StartCodeAt s i ∧ t = s.take i ++ s.drop (i + 2)

/-! ## Deletions anywhere -/

theorem deletion_of_closes {b : Char} (hb : closes b = true) (before after : Text) :
    Deletion (before ++ '>' :: b :: after) (before ++ after) := by
  have hafter : (before ++ '>' :: b :: after).drop (before.length + 2) = after :=
    List.drop_length_add_append 2
  refine ⟨before.length, startCodeAt_iff_drop.mpr ⟨b, hb, ?_⟩, ?_⟩
  · rw [hafter, List.drop_left]
  · rw [hafter, List.take_left]

theorem Deletion.reduce_eq {s t : Text} (h : Deletion s t) : reduce s = reduce t := by
  obtain ⟨i, hi, rfl⟩ := h
  obtain ⟨b, hb, hdrop⟩ := startCodeAt_iff_drop.mp hi
  have hs : s = s.take i ++ '>' :: b :: s.drop (i + 2) := by rw [← hdrop, List.take_append_drop]
  conv_lhs => rw [hs]
  rw [reduce, reduce, List.foldl_append, List.foldl_append, foldl_push_startCode hb]

/-- FNC1 is no part of a start code, so what is deleted from a text is deleted from its other characters. -/
theorem Deletion.filter {s t : Text} (h : Deletion s t) :
    Deletion (s.filter (· != fnc1)) (t.filter (· != fnc1)) := by
  obtain ⟨i, hi, rfl⟩ := h
  obtain ⟨b, hb, hdrop⟩ := startCodeAt_iff_drop.mp hi
  have hkeep : b ≠ fnc1 := by
    rintro rfl
    exact Bool.noConfusion hb
  have hs : s.filter (· != fnc1) =
      (s.take i).filter (· != fnc1) ++ '>' :: b :: (s.drop (i + 2)).filter (· != fnc1) := by
    conv_lhs => rw [← List.take_append_drop i s, hdrop]
    rw [List.filter_append, List.filter_cons, if_pos (by decide), List.filter_cons,
      if_pos (bne_iff_ne.mpr hkeep)]
  rw [hs, List.filter_append]
  exact deletion_of_closes hb _ _

/-- Scrubbing forgets which start codes a line had. -/
theorem Deletion.scrub_eq {s t : Text} (h : Deletion s t) : scrub s = scrub t := by
  rw [scrub_eq_reduce, scrub_eq_reduce, h.filter.reduce_eq]

theorem scrub_startCode_append {symbology : Symbology} {code : Text} (hcode : startCode? symbology = some code)
    (rest : Text) : scrub (code ++ rest) = scrub rest := by
  have hdeletion (b : Char) (hb : closes b = true) : Deletion ('>' :: b :: rest) rest :=
    deletion_of_closes hb [] rest
  cases symbology <;> cases hcode <;> exact (hdeletion _ rfl).scrub_eq

/-- Each character that the run takes back is deleted together with the one that forms a start code with
it. -/
theorem deletions_foldl_push (t kept : Text) :
    ReflTransGen Deletion (kept.reverse ++ t) (t.foldl push kept).reverse := by
  induction t generalizing kept with
  | nil => rw [List.append_nil]; exact .refl
  | cons c t ih =>
    have keep : (c :: kept).reverse ++ t = kept.reverse ++ c :: t := by
      rw [List.reverse_cons, List.append_assoc]
      rfl
    cases kept with
    | nil => exact ih [c]
    | cons k rest =>
      by_cases hkc : Apart k c
      · have hpush := ih (push (k :: rest) c)
        rw [push_of_apart rest hkc, keep] at hpush
        rw [List.foldl_cons, push_of_apart rest hkc]
        exact hpush
      · obtain ⟨rfl, hc⟩ := mem_startCodes.mp (not_not.mp hkc)
        have hdelete := deletion_of_closes hc rest.reverse t
        rw [List.foldl_cons, push, if_pos (not_not.mp hkc), List.reverse_cons, List.append_assoc]
        exact .head hdelete (ih rest)

theorem deletions_reduce (t : Text) : ReflTransGen Deletion t (reduce t) := deletions_foldl_push t []

/-! ## Stray deletions -/

theorem strayDeletion_cons_iff {c : Char} {s t : Text} :
    StrayDeletion (c :: s) t ↔ ∃ u, Deletion s u ∧ t = c :: u := by
  constructor
  · rintro ⟨_ | i, hi, hcode, rfl⟩
    · exact absurd hi (Nat.lt_irrefl 0)
    · exact ⟨_, ⟨i, hcode, rfl⟩, rfl⟩
  · rintro ⟨_, ⟨i, hcode, rfl⟩, rfl⟩
    exact ⟨i + 1, i.succ_pos, hcode, rfl⟩

theorem not_strayDeletion_nil (t : Text) : ¬ StrayDeletion [] t := fun ⟨i, hi, hcode, _⟩ =>
  strayFree_iff.mp .nil i hi hcode

/-- Nothing can be deleted just from the texts without stray start codes. -/
theorem forall_not_strayDeletion_iff {t : Text} : (∀ u, ¬ StrayDeletion t u) ↔ StrayFree t := by
  rw [strayFree_iff]
  exact ⟨fun h i hi hcode => h _ ⟨i, hi, hcode, rfl⟩, fun h u ⟨i, hi, hcode, _⟩ => h i hi hcode⟩

theorem StrayDeletion.stripStray_eq {s t : Text} (h : StrayDeletion s t) : stripStray s = stripStray t := by
  cases s with
  | nil => exact absurd h (not_strayDeletion_nil t)
  | cons c s =>
    obtain ⟨u, hu, rfl⟩ := strayDeletion_cons_iff.mp h
    rw [stripStray_cons, stripStray_cons, hu.reduce_eq]

/-- What one stray deletion does not change, no run of them changes. -/
theorem eq_of_strayDeletions {α : Type} {f : Text → α} (hf : ∀ {s t : Text}, StrayDeletion s t → f s = f t)
    {s t : Text} (h : ReflTransGen StrayDeletion s t) : f s = f t := by
  induction h with
  | refl => rfl
  | tail _ step ih => exact ih.trans (hf step)

theorem stripStray_eq_of_strayDeletions {s t : Text} (h : ReflTransGen StrayDeletion s t) :
    stripStray s = stripStray t := eq_of_strayDeletions StrayDeletion.stripStray_eq h

theorem strayDeletions_stripStray (data : Text) : ReflTransGen StrayDeletion data (stripStray data) := by
  cases data with
  | nil => rw [stripStray_nil]
  | cons c s =>
    rw [stripStray_cons]
    exact (deletions_reduce s).lift (c :: ·) fun _ u hu => strayDeletion_cons_iff.mpr ⟨u, hu, rfl⟩

theorem StrayDeletion.deletion {s t : Text} (h : StrayDeletion s t) : Deletion s t := by
  obtain ⟨i, _, hcode, ht⟩ := h
  exact ⟨i, hcode, ht⟩

/-- A line need not be rid of its stray start codes before it is scrubbed. -/
theorem scrub_stripStray (data : Text) : scrub (stripStray data) = scrub data :=
  (eq_of_strayDeletions (fun h => h.deletion.scrub_eq) (strayDeletions_stripStray data)).symm

theorem StrayDeletion.length_lt {s t : Text} (h : StrayDeletion s t) : t.length < s.length := by
  obtain ⟨i, _, hcode, rfl⟩ := h
  obtain ⟨b, _, hdrop⟩ := startCodeAt_iff_drop.mp hcode
  have hlength := congrArg List.length hdrop
  simp only [List.length_cons, List.length_drop, List.length_append, List.length_take] at hlength ⊢
  omega

/-- Deletions run out. -/
theorem not_exists_forall_strayDeletion (data : Text) :
    ¬ ∃ run : Nat → Text, run 0 = data ∧ ∀ n, StrayDeletion (run n) (run (n + 1)) := by
  rintro ⟨run, _, hrun⟩
  obtain ⟨n, hn⟩ := WellFounded.not_rel_apply_succ (r := (· < ·)) fun n => (run n).length
  exact hn (hrun n).length_lt

/-! ## The normal form -/

/-- **`stripStray` answers the one normal form of deleting stray start codes**: it is reached by single
deletions, it has no stray start code and is therefore left alone by a second run, every text that
deletions reach admits no further one just when it is this one, and no deletions go on for ever. -/
theorem stripStray_normalForm (data : Text) :
    ReflTransGen StrayDeletion data (stripStray data) ∧
      (∀ i, 0 < i → ¬ StartCodeAt (stripStray data) i) ∧
      stripStray (stripStray data) = stripStray data ∧
      (∀ t, ReflTransGen StrayDeletion data t →
        ((∀ u, ¬ StrayDeletion t u) ↔ t = stripStray data)) ∧
      ¬ ∃ run : Nat → Text, run 0 = data ∧ ∀ n, StrayDeletion (run n) (run (n + 1)) := by
  refine ⟨strayDeletions_stripStray data, strayFree_iff.mp (strayFree_stripStray data),
    stripStray_of_strayFree (strayFree_stripStray data), fun t ht => ?_,
    not_exists_forall_strayDeletion data⟩
  rw [forall_not_strayDeletion_iff, stripStray_eq_of_strayDeletions ht]
  constructor
  · intro hfree
    exact (stripStray_of_strayFree hfree).symm
  · intro heq
    rw [heq]
    exact strayFree_stripStray t

end BarcodeField.Escape
