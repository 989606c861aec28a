import BarcodeField.Proofs.Escape.StartCode

/-!
# The reduced text

A text is **reduced** in one run from left to right that keeps its characters on a stack: a character that
forms a start code with the last one kept takes that one back, and is not kept itself (`reduce`).

**The law** (`scrub_eq_reduce`, `stripStray_cons`): what the repeated sweeps leave is the reduced text. A
line is scrubbed to the reduction of its characters other than FNC1; field data keeps its first character,
and what stands behind it is reduced. Sweeps over nested start codes may be many, and the run is one.

Two facts carry the law. A start code may be cut out of a text anywhere without changing what the text
reduces to (`foldl_push_startCode`), so no sweep changes it; and a sweep that finds nothing met a text free
of start codes, which reduces to itself (`reduce_of_startCodeFree`).
-/

namespace BarcodeField.Escape

/-! ## The run over a stack -/

/-- Keeps one more character, unless it forms a start code with the last one kept, which then goes too. -/
def push (kept : Text) (c : Char) : Text :=
  match kept with
  | k :: rest => if [k, c] ∈ startCodes then rest else c :: k :: rest
  | [] => [c]

/-- The reduced text. The run holds the last character kept in front. -/
def reduce (t : Text) : Text := (t.foldl push []).reverse

theorem push_of_apart {k c : Char} (rest : Text) (h : Apart k c) : push (k :: rest) c = c :: k :: rest :=
  if_neg h

theorem push_open (kept : Text) : push kept '>' = '>' :: kept := by
  cases kept with
  | nil => rfl
  | cons k rest => exact push_of_apart rest (apart_open k)

/-- A start code leaves the stack as it was. -/
theorem foldl_push_startCode {b : Char} (hb : closes b = true) (kept rest : Text) :
    ('>' :: b :: rest).foldl push kept = rest.foldl push kept := by
  rw [List.foldl_cons, List.foldl_cons, push_open, push, if_pos (mem_startCodes.mpr ⟨rfl, hb⟩)]

/-- The stack stays free of start codes; read from its top, the neighbours are the other way round. -/
theorem isChain_push {kept : Text} (c : Char) (h : kept.IsChain fun a b => Apart b a) :
    (push kept c).IsChain fun a b => Apart b a := by
  cases kept with
  | nil => exact List.isChain_singleton c
  | cons k rest =>
    by_cases hkc : Apart k c
    · rw [push_of_apart rest hkc]
      exact List.isChain_cons_cons.mpr ⟨hkc, h⟩
    · rw [push, if_pos (not_not.mp hkc)]
      exact h.tail

theorem isChain_foldl_push (t : Text) {kept : Text} (h : kept.IsChain fun a b => Apart b a) :
    (t.foldl push kept).IsChain fun a b => Apart b a := by
  induction t generalizing kept with
  | nil => exact h
  | cons c t ih => exact ih (isChain_push c h)

theorem startCodeFree_reduce (t : Text) : StartCodeFree (reduce t) :=
  List.isChain_reverse.mpr (isChain_foldl_push t .nil)

/-- A text that extends the stack without a start code is kept whole. -/
theorem foldl_push_of_startCodeFree (t : Text) {kept : Text} (h : StartCodeFree (kept.reverse ++ t)) :
    t.foldl push kept = t.reverse ++ kept := by
  induction t generalizing kept with
  | nil => rfl
  | cons c t ih =>
    have hpush : push kept c = c :: kept := by
      cases kept with
      | nil => rfl
      | cons k rest =>
        rw [List.reverse_cons, List.append_assoc] at h
        exact push_of_apart rest (List.isChain_cons_cons.mp h.right_of_append).1
    rw [List.foldl_cons, hpush, ih (by rwa [List.reverse_cons, List.append_assoc]), List.reverse_cons,
      List.append_assoc]
    rfl

theorem reduce_of_startCodeFree {t : Text} (h : StartCodeFree t) : reduce t = t := by
  have hkept : t.foldl push [] = t.reverse ++ [] := foldl_push_of_startCodeFree t h
  rw [reduce, hkept, List.append_nil, List.reverse_reverse]

theorem foldl_push_sublist (t kept : Text) : (t.foldl push kept).reverse.Sublist (kept.reverse ++ t) := by
  induction t generalizing kept with
  | nil => rw [List.append_nil]; exact List.Sublist.refl _
  | cons c t ih =>
    have hpush : (push kept c).reverse.Sublist (kept.reverse ++ [c]) := by
      rw [← List.reverse_cons]
      refine List.Sublist.reverse ?_
      unfold push
      split
      · split
        · exact (List.sublist_cons_self _ _).trans (List.sublist_cons_self _ _)
        · exact List.Sublist.refl _
      · exact List.Sublist.refl _
    have hrest : ((push kept c).reverse ++ t).Sublist (kept.reverse ++ [c] ++ t) := hpush.append_right t
    rw [List.append_assoc] at hrest
    exact (ih (push kept c)).trans hrest

/-- Reduction only leaves characters out. -/
theorem reduce_sublist (t : Text) : (reduce t).Sublist t := foldl_push_sublist t []

/-- The run's last step, told of the text kept so far and not of the stack. -/
theorem reduce_concat (t : Text) (c : Char) :
    reduce (t ++ [c]) =
      if (reduce t).getLast? = some '>' ∧ closes c = true then (reduce t).dropLast
      else reduce t ++ [c] := by
  have hpush : reduce (t ++ [c]) = (push (reduce t).reverse c).reverse := by
    rw [reduce, List.foldl_append, reduce, List.reverse_reverse]
    rfl
  rw [hpush]
  rcases List.eq_nil_or_concat' (reduce t) with hnil | ⟨before, k, hlast⟩
  · rw [hnil]
    rfl
  · simp only [hlast, List.reverse_concat, push, List.getLast?_concat, List.dropLast_concat, mem_startCodes,
      Option.some.injEq]
    split
    · rw [List.reverse_reverse]
    · rw [List.reverse_cons, List.reverse_cons, List.reverse_reverse]

/-- Characters that are no part of a start code all stay, in their order. -/
theorem filter_reduce {p : Char → Bool} (hopen : p '>' = false)
    (hclose : ∀ c, closes c = true → p c = false) (t : Text) : (reduce t).filter p = t.filter p := by
  induction t using List.reverseRecOn with
  | nil => rfl
  | append_singleton t c ih =>
    rw [reduce_concat, List.filter_append, ← ih]
    split
    next htaken =>
      obtain ⟨hlast, hc⟩ := htaken
      obtain ⟨before, hbefore⟩ := List.getLast?_eq_some_iff.mp hlast
      simp [hbefore, hopen, hclose c hc]
    next => rw [List.filter_append]

/-- FNC1 is no part of a start code. -/
theorem count_fnc1_reduce (t : Text) : (reduce t).count fnc1 = t.count fnc1 := by
  have hclose : ∀ c, closes c = true → (c == fnc1) = false := by
    intro c hc
    refine beq_eq_false_iff_ne.mpr ?_
    rintro rfl
    exact Bool.noConfusion hc
  rw [List.count_eq_length_filter, filter_reduce rfl hclose, ← List.count_eq_length_filter]

theorem fnc1_mem_reduce_iff {t : Text} : fnc1 ∈ reduce t ↔ fnc1 ∈ t := by
  rw [← List.count_pos_iff, count_fnc1_reduce, List.count_pos_iff]

/-! ## Sweeps -/

/-- A sweep does not change what a text reduces to, whatever stands before it. -/
theorem foldl_push_sweep (t kept : Text) : (sweep t).foldl push kept = t.foldl push kept := by
  fun_induction sweep t generalizing kept with
  | case1 c rest hc ih => rw [ih, foldl_push_startCode hc]
  | case2 c rest _ ih => exact ih (push kept '>')
  | case3 c rest _ ih => exact ih (push kept c)
  | case4 => rfl

theorem reduce_sweep (t : Text) : reduce (sweep t) = reduce t := by
  rw [reduce, foldl_push_sweep, reduce]

theorem length_sweep_le (t : Text) : (sweep t).length ≤ t.length := by
  fun_induction sweep t with
  | case1 c rest _ ih => exact ih.trans (by simp only [List.length_cons]; omega)
  | case2 c rest _ ih => exact Nat.succ_le_succ ih
  | case3 c rest _ ih => exact Nat.succ_le_succ ih
  | case4 => exact Nat.le_refl _

/-- A sweep that makes a text no shorter met no start code. -/
theorem startCodeFree_of_length_sweep {t : Text} (h : ¬ (sweep t).length < t.length) : StartCodeFree t := by
  fun_induction sweep t with
  | case1 c rest _ ih =>
    have hle := length_sweep_le rest
    simp only [List.length_cons] at h
    omega
  | case2 c rest hc ih =>
    have hrest := ih fun hlt => h (Nat.succ_lt_succ hlt)
    exact List.isChain_cons_cons.mpr ⟨apart_of_not_closes _ (Bool.not_eq_true _ ▸ hc), hrest⟩
  | case3 c rest hopen ih =>
    have hrest := ih fun hlt => h (Nat.succ_lt_succ hlt)
    cases rest with
    | nil => exact List.isChain_singleton c
    | cons b rest =>
      refine List.isChain_cons_cons.mpr ⟨apart_of_ne_open b fun hc => ?_, hrest⟩
      exact hopen b rest hc rfl
  | case4 => exact .nil

/-! ## Repeated sweeps -/

section UntilStable

variable {pass : Text → Text}

theorem untilStable_induction {P : Text → Prop} (step : ∀ t, P t → P (pass t)) {t : Text} (h : P t) :
    P (untilStable pass t) := by
  fun_induction untilStable pass t with
  | case1 t _ ih => exact ih (step t h)
  | case2 t _ => exact h

/-- The pass finds nothing more to shorten. -/
theorem not_length_pass_untilStable_lt (t : Text) :
    ¬ (pass (untilStable pass t)).length < (untilStable pass t).length := by
  fun_induction untilStable pass t with
  | case1 _ _ ih => exact ih
  | case2 _ h => exact h

end UntilStable

theorem untilStable_sweep (t : Text) : untilStable sweep t = reduce t := by
  have hsame : reduce (untilStable sweep t) = reduce t :=
    untilStable_induction (P := fun s => reduce s = reduce t) (fun s hs => (reduce_sweep s).trans hs) rfl
  have hfree : StartCodeFree (untilStable sweep t) :=
    startCodeFree_of_length_sweep (not_length_pass_untilStable_lt t)
  rw [← hsame, reduce_of_startCodeFree hfree]

/-- The first character stays, so sweeping behind it is sweeping the rest. -/
theorem untilStable_sweepAfterFirst (c : Char) (t : Text) :
    untilStable sweepAfterFirst (c :: t) = c :: untilStable sweep t := by
  have hlength (t : Text) : (c :: sweep t).length < (c :: t).length ↔ (sweep t).length < t.length :=
    Nat.succ_lt_succ_iff
  fun_induction untilStable sweep t with
  | case1 t h ih =>
    rw [untilStable, sweepAfterFirst, if_pos ((hlength t).mpr h)]
    exact ih
  | case2 t h => rw [untilStable, sweepAfterFirst, if_neg ((hlength t).not.mpr h)]

theorem scrub_eq_reduce (line : Text) : scrub line = reduce (line.filter (· != fnc1)) :=
  untilStable_sweep _

theorem startCodeFree_scrub (line : Text) : StartCodeFree (scrub line) := by
  rw [scrub_eq_reduce]
  exact startCodeFree_reduce _

theorem scrub_eq_reduce_of_not_mem {line : Text} (h : fnc1 ∉ line) : scrub line = reduce line := by
  have hfilter : line.filter (· != fnc1) = line :=
    List.filter_eq_self.mpr fun _ hc => bne_iff_ne.mpr (ne_of_mem_of_not_mem hc h)
  rw [scrub_eq_reduce, hfilter]

theorem scrub_of_not_mem {line : Text} (hopen : '>' ∉ line) (hfnc1 : fnc1 ∉ line) : scrub line = line := by
  rw [scrub_eq_reduce_of_not_mem hfnc1, reduce_of_startCodeFree (startCodeFree_of_not_mem hopen)]

/-- A character put behind a line that is scrubbed: it stays, or it takes back the `>` with which the scrubbed
line ends. -/
theorem scrub_concat (line : Text) {c : Char} (hc : c ≠ fnc1) :
    scrub (line ++ [c]) =
      if (scrub line).getLast? = some '>' ∧ closes c = true then (scrub line).dropLast
      else scrub line ++ [c] := by
  have hfilter : (line ++ [c]).filter (· != fnc1) = line.filter (· != fnc1) ++ [c] := by
    rw [List.filter_append, List.filter_singleton, bne_iff_ne.mpr hc, cond_true]
  rw [scrub_eq_reduce, scrub_eq_reduce, hfilter, reduce_concat]

/-- What scrubbing keeps was in the line and is not FNC1. -/
theorem fnc1_not_mem_scrub (line : Text) : fnc1 ∉ scrub line := by
  rw [scrub_eq_reduce]
  intro h
  have hkept := (List.mem_filter.mp ((reduce_sublist _).subset h)).2
  exact absurd hkept (by decide)

theorem stripStray_cons (c : Char) (t : Text) : stripStray (c :: t) = c :: reduce t := by
  rw [stripStray, untilStable_sweepAfterFirst, untilStable_sweep]

/-- A deletion behind the first character can join it into a leading start code, which stays. -/
example : stripStray ['>', '>', '9', '9'] = ['>', '9'] := by cbv

theorem stripStray_nil : stripStray [] = [] := by
  rw [stripStray, untilStable]
  rfl

theorem strayFree_stripStray (data : Text) : StrayFree (stripStray data) := by
  cases data with
  | nil => rw [stripStray_nil]; exact .nil
  | cons c t => rw [stripStray_cons]; exact startCodeFree_reduce t

/-- Deleting stray start codes only leaves characters out. -/
theorem stripStray_sublist (data : Text) : (stripStray data).Sublist data := by
  cases data with
  | nil => rw [stripStray_nil]
  | cons c t =>
    rw [stripStray_cons]
    exact (reduce_sublist t).cons_cons c

theorem count_fnc1_stripStray (data : Text) : (stripStray data).count fnc1 = data.count fnc1 := by
  cases data with
  | nil => rw [stripStray_nil]
  | cons c t => rw [stripStray_cons, List.count_cons, count_fnc1_reduce, List.count_cons]

theorem stripStray_of_strayFree {data : Text} (h : StrayFree data) : stripStray data = data := by
  cases data with
  | nil => exact stripStray_nil
  | cons c t =>
    have ht : StartCodeFree t := h
    rw [stripStray_cons, reduce_of_startCodeFree ht]

/-- **Repeated sweeps leave what one run over a stack leaves.** A line is reduced without its FNC1, field data
behind its first character; so behind that character the two leave the same just where there is no FNC1. -/
theorem repeated_sweeps_eq_reduce (c : Char) (t : Text) :
    scrub t = reduce (t.filter (· != fnc1)) ∧ stripStray (c :: t) = c :: reduce t ∧
      (stripStray (c :: t) = c :: scrub t ↔ fnc1 ∉ t) := by
  refine ⟨scrub_eq_reduce t, stripStray_cons c t, ?_⟩
  rw [stripStray_cons, List.cons_inj_right]
  constructor
  · intro hsame hfnc1
    rw [← fnc1_mem_reduce_iff, hsame] at hfnc1
    exact fnc1_not_mem_scrub t hfnc1
  · intro hfnc1
    exact (scrub_eq_reduce_of_not_mem hfnc1).symm

end BarcodeField.Escape
