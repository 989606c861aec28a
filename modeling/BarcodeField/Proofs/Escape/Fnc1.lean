import BarcodeField.Proofs.Escape.Reduction

/-!
# FNC1 and its escape

Data writes FNC1 as `>8`, an encoder takes it as one character. Encoding replaces each escape
(`encodeFnc1`); `escapeFnc1` goes back and writes each FNC1 as its escape.

**The law** (`encodeFnc1_escapeFnc1`): on a text that holds no escape, encoding undoes escaping, whatever
stands beside an FNC1. Every encoded text is such a text (`escapeFree_encodeFnc1`). Neither direction can
form a start code: what is written in place of the other neither ends one nor begins one.

A scrubbed line does not show which of the two ways it was made from the data (`scrub_dropFnc1`): leaving
the escapes out and replacing them differ in FNC1 only, and FNC1 is scrubbed.

Two escapes cannot overlap, so an encoded text has one FNC1 for each place where an escape begins, beside those
that stood in the data (`count_encodeFnc1`).
-/

namespace BarcodeField.Escape

/-- The escape that stands for FNC1. -/
def fnc1Escape : Text := ['>', '8']

/-- No two neighbours form the escape of FNC1. -/
abbrev EscapeFree (t : Text) : Prop := t.IsChain fun a b => [a, b] ≠ fnc1Escape

/-- Writes each FNC1 as its escape. -/
def escapeFnc1 (payload : Text) : Text :=
  payload.flatMap fun c => if c = fnc1 then fnc1Escape else [c]

/-- The number of places at which the escape of FNC1 begins. -/
def escapeCount (t : Text) : Nat := t.tails.countP (fnc1Escape <+: ·)

theorem escapeFree_iff {t : Text} : EscapeFree t ↔ ∀ i, ¬ fnc1Escape <+: t.drop i := by
  have hpairs : t.IsChain (fun a b => [a, b] ∉ [fnc1Escape]) ↔
      ∀ i, ¬ ∃ pair ∈ [fnc1Escape], pair <+: t.drop i := isChain_not_mem_iff (by decide)
  simpa only [List.mem_singleton, exists_eq_left] using hpairs

theorem apart_fnc1_left (b : Char) : Apart fnc1 b := apart_of_ne_open b (by decide)

theorem apart_fnc1_right (a : Char) : Apart a fnc1 := apart_of_not_closes a rfl

/-! ## Replacing escapes -/

theorem substitute_fnc1Escape (replacement rest : Text) :
    substitute replacement (fnc1Escape ++ rest) = replacement ++ substitute replacement rest := by
  rw [fnc1Escape, List.cons_append, List.singleton_append, substitute]

theorem substitute_cons (replacement : Text) {c : Char} {rest : Text}
    (h : ∀ b ∈ rest.head?, [c, b] ≠ fnc1Escape) :
    substitute replacement (c :: rest) = c :: substitute replacement rest := by
  rw [substitute]
  rintro rest' rfl hrest
  rw [hrest] at h
  exact h '8' rfl rfl

theorem encodeFnc1_cons_of_closes {b : Char} (hb : closes b = true) (rest : Text) :
    encodeFnc1 (b :: rest) = b :: encodeFnc1 rest := by
  refine substitute_cons _ fun _ _ heq => ?_
  rw [(List.cons.inj heq).1] at hb
  exact absurd hb (by decide)

theorem encodeFnc1_startCode {b : Char} (hb : closes b = true) (rest : Text) :
    encodeFnc1 ('>' :: b :: rest) = '>' :: encodeFnc1 (b :: rest) := by
  refine substitute_cons _ fun _ h8 heq => ?_
  obtain rfl := Option.some.inj h8
  rw [(List.cons.inj (List.cons.inj heq).2).1] at hb
  exact absurd hb (by decide)

/-- Escapes are replaced behind a start code as they are without it. -/
theorem encodeFnc1_startCode_append {symbology : Symbology} {code : Text}
    (hcode : startCode? symbology = some code) (rest : Text) :
    encodeFnc1 (code ++ rest) = code ++ encodeFnc1 rest := by
  have hreplace (b : Char) (hb : closes b = true) :
      encodeFnc1 ('>' :: b :: rest) = '>' :: b :: encodeFnc1 rest := by
    rw [encodeFnc1_startCode hb, encodeFnc1_cons_of_closes hb]
  cases symbology <;> cases hcode <;> exact hreplace _ rfl

/-- Encoding keeps whatever holds between neighbours, if FNC1 is no obstacle to it on either side. -/
theorem isChain_encodeFnc1 {R : Char → Char → Prop} (before : ∀ a, R a fnc1) (after : ∀ b, R fnc1 b)
    {data : Text} (h : data.IsChain R) : (encodeFnc1 data).IsChain R := by
  unfold encodeFnc1
  fun_induction substitute [fnc1] data with
  | case1 rest ih => exact List.isChain_cons.mpr ⟨fun b _ => after b, ih h.tail.tail⟩
  | case2 c rest _ ih =>
    obtain ⟨hc, hrest⟩ := List.isChain_cons.mp h
    refine List.isChain_cons.mpr ⟨fun b hb => ?_, ih hrest⟩
    rcases head?_encodeFnc1 rest b hb with rfl | hb
    · exact before c
    · exact hc b hb
  | case3 => exact .nil

theorem startCodeFree_encodeFnc1 {data : Text} (h : StartCodeFree data) :
    StartCodeFree (encodeFnc1 data) :=
  isChain_encodeFnc1 apart_fnc1_right apart_fnc1_left h

/-- Encoding leaves no escape, nor does it join characters into one. -/
theorem escapeFree_encodeFnc1 (data : Text) : EscapeFree (encodeFnc1 data) := by
  unfold encodeFnc1
  fun_induction substitute [fnc1] data with
  | case1 rest ih =>
    refine List.isChain_cons.mpr ⟨fun b _ hb => ?_, ih⟩
    exact absurd (List.cons.inj hb).1 (by decide)
  | case2 c rest hc ih =>
    refine List.isChain_cons.mpr ⟨fun b hb hcb => ?_, ih⟩
    obtain ⟨rfl, hb8⟩ := List.cons.inj hcb
    obtain ⟨rfl, -⟩ := List.cons.inj hb8
    rcases head?_encodeFnc1 rest _ hb with h8 | h8
    · exact absurd h8 (by decide)
    · obtain ⟨rest', rfl⟩ := List.head?_eq_some_iff.mp h8
      exact hc rest' rfl rfl
  | case3 => exact .nil

theorem scrub_dropFnc1 (data : Text) : scrub (dropFnc1 data) = scrub (encodeFnc1 data) := by
  rw [scrub_eq_reduce, scrub_eq_reduce, filter_encodeFnc1]

/-! ## Counting FNC1 -/

theorem not_fnc1Escape_isPrefix_cons {c : Char} {rest : Text} (h : ∀ rest', c = '>' → rest = '8' :: rest' → False) :
    ¬ fnc1Escape <+: c :: rest := by
  intro hescape
  obtain ⟨rest', heq⟩ := hescape
  obtain ⟨rfl, rfl⟩ := List.cons.inj heq
  exact h rest' rfl rfl

theorem escapeCount_fnc1Escape_append (rest : Text) :
    escapeCount (fnc1Escape ++ rest) = escapeCount rest + 1 := by
  simp [escapeCount, fnc1Escape]

theorem escapeCount_cons {c : Char} {rest : Text} (h : ¬ fnc1Escape <+: c :: rest) :
    escapeCount (c :: rest) = escapeCount rest := by
  simp [escapeCount, h]

/-- An encoded text begins with FNC1 just where the data does, in either way of writing it. -/
theorem head?_encodeFnc1_eq_iff {data : Text} :
    (encodeFnc1 data).head? = some fnc1 ↔ data.head? = some fnc1 ∨ fnc1Escape <+: data := by
  unfold encodeFnc1
  fun_cases substitute [fnc1] data with
  | case1 rest => exact iff_of_true rfl (.inr ⟨rest, rfl⟩)
  | case2 c rest hc =>
    rw [List.head?_cons, List.head?_cons, or_iff_left (not_fnc1Escape_isPrefix_cons hc)]
  | case3 => simp [fnc1Escape]

/-- An encoded text holds the FNC1 of the data, and one more for each escape. -/
theorem count_encodeFnc1 (data : Text) :
    (encodeFnc1 data).count fnc1 = data.count fnc1 + escapeCount data := by
  unfold encodeFnc1
  fun_induction substitute [fnc1] data with
  | case1 rest ih =>
    have hescapes : escapeCount ('>' :: '8' :: rest) = escapeCount rest + 1 :=
      escapeCount_fnc1Escape_append rest
    have hcount : ('>' :: '8' :: rest).count fnc1 = rest.count fnc1 := by
      rw [List.count_cons_of_ne (by decide), List.count_cons_of_ne (by decide)]
    rw [List.singleton_append, List.count_cons_self, ih, hescapes, hcount, Nat.add_assoc]
  | case2 c rest hc ih =>
    rw [List.count_cons, List.count_cons, ih, escapeCount_cons (not_fnc1Escape_isPrefix_cons hc)]
    omega
  | case3 => rfl

/-! ## Writing escapes -/

theorem escapeFnc1_cons_fnc1 (payload : Text) :
    escapeFnc1 (fnc1 :: payload) = fnc1Escape ++ escapeFnc1 payload := rfl

theorem escapeFnc1_cons {c : Char} (payload : Text) (h : c ≠ fnc1) :
    escapeFnc1 (c :: payload) = c :: escapeFnc1 payload := by
  rw [escapeFnc1, List.flatMap_cons, if_neg h]
  rfl

/-- An escaped text begins with the first character of an escape, or as the payload does. -/
theorem head?_escapeFnc1 (payload : Text) :
    ∀ c ∈ (escapeFnc1 payload).head?, c = '>' ∨ c ∈ payload.head? := by
  intro c hc
  cases payload with
  | nil => exact absurd hc (Option.not_mem_none c)
  | cons a payload =>
    by_cases ha : a = fnc1
    · subst ha
      exact .inl (Option.some.inj hc).symm
    · rw [escapeFnc1_cons payload ha] at hc
      exact .inr hc

theorem startCodeFree_escapeFnc1 {payload : Text} (h : StartCodeFree payload) :
    StartCodeFree (escapeFnc1 payload) := by
  induction payload with
  | nil => exact .nil
  | cons c payload ih =>
    obtain ⟨hc, hrest⟩ := List.isChain_cons.mp h
    by_cases hfnc1 : c = fnc1
    · subst hfnc1
      have h8 : StartCodeFree ('8' :: escapeFnc1 payload) :=
        List.isChain_cons.mpr ⟨fun b _ => apart_of_ne_open b (by decide), ih hrest⟩
      exact List.isChain_cons_cons.mpr ⟨apart_of_not_closes '>' rfl, h8⟩
    · rw [escapeFnc1_cons payload hfnc1]
      refine List.isChain_cons.mpr ⟨fun b hb => ?_, ih hrest⟩
      rcases head?_escapeFnc1 payload b hb with rfl | hb
      · exact apart_open c
      · exact hc b hb

/-- **Encoding undoes escaping**, on texts that hold no escape of their own. -/
theorem encodeFnc1_escapeFnc1 {payload : Text} (h : EscapeFree payload) :
    encodeFnc1 (escapeFnc1 payload) = payload := by
  induction payload with
  | nil => rfl
  | cons c payload ih =>
    obtain ⟨hc, hrest⟩ := List.isChain_cons.mp h
    by_cases hfnc1 : c = fnc1
    · subst hfnc1
      rw [escapeFnc1_cons_fnc1, encodeFnc1, substitute_fnc1Escape, ← encodeFnc1, ih hrest]
      rfl
    · rw [escapeFnc1_cons payload hfnc1, encodeFnc1, substitute_cons _ fun b hb => ?_, ← encodeFnc1,
        ih hrest]
      -- a `>` before an escape is not taken for its first character
      rcases head?_escapeFnc1 payload b hb with rfl | hb
      · exact fun heq => absurd (List.cons.inj (List.cons.inj heq).2).1 (by decide)
      · exact hc b hb

/-- Escaping undoes encoding, on data without FNC1: each FNC1 in the encoded text was an escape. -/
theorem escapeFnc1_encodeFnc1 {data : Text} (h : fnc1 ∉ data) : escapeFnc1 (encodeFnc1 data) = data := by
  unfold encodeFnc1
  fun_induction substitute [fnc1] data with
  | case1 rest ih =>
    have hrest : fnc1 ∉ rest := fun hmem => h (List.mem_cons_of_mem _ (List.mem_cons_of_mem _ hmem))
    rw [List.singleton_append, escapeFnc1_cons_fnc1, ih hrest]
    rfl
  | case2 c rest _ ih =>
    have hc : c ≠ fnc1 := (List.ne_of_not_mem_cons h).symm
    rw [escapeFnc1_cons _ hc, ih (List.not_mem_of_not_mem_cons h)]
  | case3 => rfl

end BarcodeField.Escape
