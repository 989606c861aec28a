import BarcodeField.Escape
import Mathlib.Data.List.Chain

/-!
# Where start codes stand

A start code **stands at** an index of a text when its two characters are the ones from that index on
(`StartCodeAt`). The same is said without indices by neighbours: a text is free of start codes when no two
neighbours form one (`StartCodeFree`), and free of stray ones when that holds behind its first character
(`StrayFree`). `startCodeFree_iff` and `strayFree_iff` say that the two ways agree; statements speak of
indices, proofs of neighbours.

The start codes are listed here once more, as texts. `mem_startCodes` ties the list to the table of subsets that
a sweep reads, and `ofStartCode?_eq_some_iff` ties that table to its inverse.
-/

namespace BarcodeField.Escape

/-! ## The three start codes -/

/-- The start codes of subsets A, B and C. -/
def startCodes : List Text := [['>', '9'], ['>', ':'], ['>', ';']]

/-- A start code stands at an index of the text. -/
def StartCodeAt (t : Text) (i : Nat) : Prop := ∃ code ∈ startCodes, code <+: t.drop i

instance (t : Text) (i : Nat) : Decidable (StartCodeAt t i) :=
  inferInstanceAs (Decidable (∃ code ∈ startCodes, code <+: t.drop i))

/-- Two characters that form no start code side by side. -/
def Apart (a b : Char) : Prop := [a, b] ∉ startCodes

/-- No start code stands anywhere. -/
abbrev StartCodeFree (t : Text) : Prop := t.IsChain Apart

/-- No start code stands behind the first character. -/
abbrev StrayFree (t : Text) : Prop := StartCodeFree t.tail

theorem mem_startCodes {a b : Char} : [a, b] ∈ startCodes ↔ a = '>' ∧ closes b = true := by
  have hsubset : closes b = true ↔ b = '9' ∨ b = ':' ∨ b = ';' := by
    unfold closes subset?
    split <;> simp_all
  simp only [startCodes, List.mem_cons, List.cons.injEq, and_true, List.not_mem_nil, or_false, hsubset]
  tauto

theorem apart_iff {a b : Char} : Apart a b ↔ ¬ (a = '>' ∧ closes b = true) := by
  rw [Apart, mem_startCodes]

theorem apart_of_ne_open {a : Char} (b : Char) (h : a ≠ '>') : Apart a b :=
  apart_iff.mpr fun hab => h hab.1

theorem apart_open (a : Char) : Apart a '>' := apart_iff.mpr fun hab => Bool.noConfusion hab.2

theorem apart_of_not_closes (a : Char) {b : Char} (h : closes b = false) : Apart a b :=
  apart_iff.mpr fun hab => by rw [h] at hab; exact Bool.noConfusion hab.2

/-! ## Indices and neighbours -/

theorem startCodeAt_iff_drop {t : Text} {i : Nat} :
    StartCodeAt t i ↔ ∃ b, closes b = true ∧ t.drop i = '>' :: b :: t.drop (i + 2) := by
  constructor
  · rintro ⟨code, hcode, rest, hrest⟩
    obtain ⟨b, rfl⟩ : ∃ b, code = ['>', b] := by
      simp only [startCodes, List.mem_cons, List.not_mem_nil, or_false] at hcode
      rcases hcode with rfl | rfl | rfl <;> exact ⟨_, rfl⟩
    refine ⟨b, (mem_startCodes.mp hcode).2, ?_⟩
    rw [← List.drop_drop, ← hrest]
    rfl
  · rintro ⟨b, hb, hdrop⟩
    exact ⟨['>', b], mem_startCodes.mpr ⟨rfl, hb⟩, t.drop (i + 2), hdrop.symm⟩

/-- A start code stands where two neighbours form one. -/
theorem startCodeAt_iff {t : Text} {i : Nat} :
    StartCodeAt t i ↔ ∃ b, closes b = true ∧ t[i]? = some '>' ∧ t[i + 1]? = some b := by
  rw [startCodeAt_iff_drop]
  refine exists_congr fun b => and_congr_right fun _ => ⟨fun hdrop => ?_, fun ⟨h0, h1⟩ => ?_⟩
  · have hget (k : Nat) : t[i + k]? = ('>' :: b :: t.drop (i + 2))[k]? := by
      rw [← hdrop, List.getElem?_drop]
    exact ⟨hget 0, hget 1⟩
  · obtain ⟨hi, hti⟩ := List.getElem?_eq_some_iff.mp h0
    obtain ⟨hj, htj⟩ := List.getElem?_eq_some_iff.mp h1
    rw [List.drop_eq_getElem_cons hi, List.drop_eq_getElem_cons hj, hti, htj]

@[simp] theorem startCodeAt_cons_succ {c : Char} {t : Text} {i : Nat} :
    StartCodeAt (c :: t) (i + 1) ↔ StartCodeAt t i := Iff.rfl

theorem StartCodeAt.lt_length {t : Text} {i : Nat} (h : StartCodeAt t i) : i + 1 < t.length := by
  obtain ⟨_, _, _, h1⟩ := startCodeAt_iff.mp h
  exact (List.getElem?_eq_some_iff.mp h1).1

/-- Whether a start code stands at an index hangs on the two characters there. -/
theorem startCodeAt_congr {t u : Text} {i j : Nat} (h0 : t[i]? = u[j]?) (h1 : t[i + 1]? = u[j + 1]?) :
    StartCodeAt t i ↔ StartCodeAt u j := by
  rw [startCodeAt_iff, startCodeAt_iff, h0, h1]

theorem startCodeAt_take {t : Text} {n i : Nat} :
    StartCodeAt (t.take n) i ↔ i + 1 < n ∧ StartCodeAt t i := by
  have hsame (hi : i + 1 < n) : StartCodeAt (t.take n) i ↔ StartCodeAt t i :=
    startCodeAt_congr (List.getElem?_take_of_lt (by omega)) (List.getElem?_take_of_lt hi)
  constructor
  · intro h
    have hlt := h.lt_length
    rw [List.length_take] at hlt
    have hi : i + 1 < n := by omega
    exact ⟨hi, (hsame hi).mp h⟩
  · rintro ⟨hi, h⟩
    exact (hsame hi).mpr h

theorem startCodeAt_append_left {t u : Text} {i : Nat} (hi : i + 1 < t.length) :
    StartCodeAt (t ++ u) i ↔ StartCodeAt t i :=
  startCodeAt_congr (List.getElem?_append_left (by omega)) (List.getElem?_append_left hi)

/-- A text behind characters that open no start code. -/
theorem startCodeAt_replicate_append {c : Char} (hc : c ≠ '>') {n i : Nat} {t : Text} :
    StartCodeAt (List.replicate n c ++ t) i ↔ n ≤ i ∧ StartCodeAt t (i - n) := by
  induction n generalizing i with
  | zero => exact ⟨fun h => ⟨i.zero_le, h⟩, fun h => h.2⟩
  | succ n ih =>
    rw [List.replicate_succ, List.cons_append]
    cases i with
    | zero =>
      refine ⟨fun h => ?_, fun h => absurd h.1 (Nat.not_succ_le_zero n)⟩
      obtain ⟨_, _, h0, _⟩ := startCodeAt_iff.mp h
      exact absurd (Option.some.inj h0) hc
    | succ i => rw [startCodeAt_cons_succ, ih, Nat.succ_le_succ_iff, Nat.succ_sub_succ]

/-- A character put behind a text forms a start code with the last character, or none. -/
theorem startCodeAt_append_singleton {t : Text} {c : Char} {i : Nat} :
    StartCodeAt (t ++ [c]) i ↔
      StartCodeAt t i ∨ i + 1 = t.length ∧ t.getLast? = some '>' ∧ closes c = true := by
  -- at the seam the first of the two characters is the last of the text
  have hseam (hlast : i + 1 = t.length) :
      StartCodeAt (t ++ [c]) i ↔ t.getLast? = some '>' ∧ closes c = true := by
    have h0 : (t ++ [c])[i]? = t.getLast? := by
      rw [List.getElem?_append_left (by omega), List.getLast?_eq_getElem?, ← hlast, Nat.add_sub_cancel]
    have h1 : (t ++ [c])[i + 1]? = some c := by rw [hlast, List.getElem?_concat_length]
    rw [startCodeAt_iff, h0, h1]
    constructor
    · rintro ⟨b, hb, hopen, hbc⟩
      exact ⟨hopen, Option.some.inj hbc ▸ hb⟩
    · rintro ⟨hopen, hc⟩
      exact ⟨c, hc, hopen, rfl⟩
  constructor
  · intro h
    have hlt := h.lt_length
    rw [List.length_append, List.length_singleton] at hlt
    rcases Nat.lt_or_ge (i + 1) t.length with hi | hi
    · exact .inl ((startCodeAt_append_left hi).mp h)
    · have hlast : i + 1 = t.length := by omega
      exact .inr ⟨hlast, (hseam hlast).mp h⟩
  · rintro (h | ⟨hlast, h⟩)
    · exact (startCodeAt_append_left h.lt_length).mpr h
    · exact (hseam hlast).mpr h

/-- What no two neighbours form stands at no index. -/
theorem isChain_not_mem_iff {pairs : List Text} (hpairs : ∀ pair ∈ pairs, pair.length = 2) {t : Text} :
    t.IsChain (fun a b => [a, b] ∉ pairs) ↔ ∀ i, ¬ ∃ pair ∈ pairs, pair <+: t.drop i := by
  rw [List.isChain_iff_forall_rel_of_append_cons_cons]
  constructor
  · rintro h i ⟨pair, hpair, rest, hrest⟩
    obtain ⟨a, b, rfl⟩ := List.length_eq_two.mp (hpairs pair hpair)
    have ht : t = t.take i ++ a :: b :: rest := by
      calc t = t.take i ++ t.drop i := (List.take_append_drop i t).symm
        _ = t.take i ++ a :: b :: rest := congrArg (t.take i ++ ·) hrest.symm
    exact h ht hpair
  · rintro h a b before after rfl hpair
    refine h before.length ⟨[a, b], hpair, after, ?_⟩
    rw [List.drop_left]
    rfl

theorem startCodeFree_iff {t : Text} : StartCodeFree t ↔ ∀ i, ¬ StartCodeAt t i :=
  isChain_not_mem_iff (by decide)

theorem startCodeFree_of_not_mem {t : Text} (h : '>' ∉ t) : StartCodeFree t := by
  refine startCodeFree_iff.mpr fun i hi => ?_
  obtain ⟨_, _, h0, _⟩ := startCodeAt_iff.mp hi
  exact h (List.mem_of_getElem? h0)

theorem strayFree_iff {t : Text} : StrayFree t ↔ ∀ i, 0 < i → ¬ StartCodeAt t i := by
  cases t with
  | nil => exact ⟨fun _ i _ => startCodeFree_iff.mp .nil i, fun _ => .nil⟩
  | cons c t =>
    rw [StrayFree, List.tail_cons, startCodeFree_iff]
    constructor
    · rintro h (_ | i) hi
      · exact absurd hi (Nat.lt_irrefl 0)
      · exact h i
    · intro h i
      exact h (i + 1) i.succ_pos

theorem StartCodeFree.strayFree {t : Text} (h : StartCodeFree t) : StrayFree t := h.tail

/-! ## Leading start codes -/

/-- The start code that selects a subset. -/
def startCode? : Symbology → Option Text
  | .code128A => some ['>', '9']
  | .code128B => some ['>', ':']
  | .code128C => some ['>', ';']
  | .code128Auto | .code39Extended => none

/-- The two tables of start codes are inverse to each other. -/
theorem ofStartCode?_eq_some_iff {code : Text} {s : Symbology} :
    ofStartCode? code = some s ↔ startCode? s = some code := by
  constructor
  · intro h
    unfold ofStartCode? at h
    split at h
    · unfold subset? at h
      split at h <;> cases h <;> rfl
    · cases h
  · intro h
    cases s <;> cases h <;> rfl

theorem splitStart?_eq_some_iff {t rest : Text} {s : Symbology} :
    splitStart? t = some (s, rest) ↔ ∃ code, startCode? s = some code ∧ t = code ++ rest := by
  constructor
  · intro h
    unfold splitStart? at h
    split at h
    · next c rest' =>
      obtain ⟨_, hc, heq⟩ := Option.map_eq_some_iff.mp h
      obtain ⟨rfl, rfl⟩ := Prod.mk.inj heq
      exact ⟨['>', c], ofStartCode?_eq_some_iff.mp hc, rfl⟩
    · cases h
  · rintro ⟨code, hcode, rfl⟩
    cases s <;> cases hcode <;> rfl

theorem splitStart?_isSome_iff {t : Text} : (splitStart? t).isSome = true ↔ StartCodeAt t 0 := by
  rw [startCodeAt_iff_drop, List.drop_zero]
  constructor
  · intro h
    unfold splitStart? at h
    split at h
    · next c rest =>
      rw [Option.isSome_map] at h
      exact ⟨c, h, rfl⟩
    · exact Bool.noConfusion h
  · rintro ⟨b, hb, ht⟩
    rw [ht, splitStart?, Option.isSome_map]
    exact hb

/-- Without stray start codes and without a leading one, there is none. -/
theorem StrayFree.startCodeFree {t : Text} (h : StrayFree t) (hlead : ¬ StartCodeAt t 0) :
    StartCodeFree t := by
  refine startCodeFree_iff.mpr fun i hi => ?_
  rcases Nat.eq_zero_or_pos i with rfl | hpos
  · exact hlead hi
  · exact strayFree_iff.mp h i hpos hi

/-- Behind a leading start code, data without stray start codes has none. -/
theorem StrayFree.startCodeFree_of_append {code rest : Text} {s : Symbology}
    (h : StrayFree (code ++ rest)) (hcode : startCode? s = some code) : StartCodeFree rest := by
  cases s <;> cases hcode <;> exact h.tail

end BarcodeField.Escape
