import BarcodeField.Proofs.Plan.Failure
import BarcodeField.Proofs.Profile.Validity

/-!
# The order of a font table

A table is read from the front in two places. A look-up takes the first entry with a key, and a check compares a
font with those before it. Where every font has a name of its own, neither shows the order: the first entry with a
key is then the only one (`find?_eq_some_iff`), and two fonts differ whichever comes first (`ValidTable.perm`).

**The law** (`fonts_order_irrelevant`): the fonts of a profile that passes its check may be put in any order. The
profile still passes, finds and measures the same, and plans every field alike by its own table.

Without the check this fails, since of two entries with one key the first one is taken.
-/

namespace BarcodeField

/-! ## Look-ups -/

namespace FontEntry

variable {table other : List FontEntry} {entry : FontEntry}

/-- Among fonts with names of their own, an entry is found by its key wherever it stands. -/
theorem find?_eq_some_iff (hdistinct : table.Pairwise fun a b => a.key ≠ b.key) {key : Text} :
    find? table key = some entry ↔ entry ∈ table ∧ entry.key = key := by
  induction table with
  | nil => simp [find?]
  | cons first rest ih =>
    obtain ⟨hfirst, hrest⟩ := List.pairwise_cons.mp hdistinct
    by_cases hkey : first.key = key
    · have hfound : find? (first :: rest) key = some first := by simp [find?, hkey]
      rw [hfound]
      constructor
      · intro h
        cases h
        exact ⟨List.mem_cons_self, hkey⟩
      · intro h
        obtain ⟨hmem, hentry⟩ := h
        cases hmem with
        | head => rfl
        | tail _ hlater => exact absurd (hkey.trans hentry.symm) (hfirst entry hlater)
    · have hpassed : find? (first :: rest) key = find? rest key := by simp [find?, hkey]
      rw [hpassed, ih hrest]
      refine and_congr_left fun hentry => ?_
      have hne : entry ≠ first := fun heq => hkey (heq ▸ hentry)
      simp [hne]

theorem find?_perm (hperm : other.Perm table) (hdistinct : table.Pairwise fun a b => a.key ≠ b.key) (key : Text) :
    find? other key = find? table key := by
  have hother : other.Pairwise fun a b => a.key ≠ b.key := (hperm.pairwise_iff Ne.symm).mpr hdistinct
  ext entry
  rw [find?_eq_some_iff hother, find?_eq_some_iff hdistinct, hperm.mem_iff]

/-- A font that is missing is missing from every order of the table, and the reason names only its key. -/
theorem measure_perm (hperm : other.Perm table) (hdistinct : table.Pairwise fun a b => a.key ≠ b.key) :
    measure other = measure table := by
  funext key size
  rw [measure, find?_perm hperm hdistinct, measure]

end FontEntry

/-! ## Plans -/

/-- Planning measures by the provider that it is given. The table of the profile is not looked at. -/
theorem Field.plan_with_fonts {m : Type → Type} [Monad m] (field : Field) (provider : FontProvider m) (p : Profile)
    (fonts : List FontEntry) :
    field.plan provider (some { p with fonts := fonts }) = field.plan provider (some p) := rfl

/-! ## Checks -/

namespace Profile

variable {p : Profile} {fonts table : List FontEntry}

theorem ValidTable.perm (h : ValidTable table) (hperm : fonts.Perm table) : ValidTable fonts where
  named font hfont := h.named font (hperm.subset hfont)
  distinct := (hperm.pairwise_iff Ne.symm).mpr h.distinct
  signed font hfont := h.signed font (hperm.subset hfont)

theorem Valid.perm (h : p.Valid) (hperm : fonts.Perm p.fonts) : Valid { p with fonts := fonts } where
  id := h.id
  schemaVersion := h.schemaVersion
  lineFont := h.lineFont
  scale := h.scale
  maxSize := h.maxSize
  fonts := h.fonts.perm hperm
  listed := by
    obtain ⟨font, hfont, hkey⟩ := h.listed
    exact ⟨font, hperm.symm.subset hfont, hkey⟩

/-- **The order of its fonts does not matter to a checked profile.** -/
theorem fonts_order_irrelevant (h : p.check = .ok ()) (hperm : fonts.Perm p.fonts) :
    let q := { p with fonts := fonts }
    q.check = .ok () ∧ (∀ key, q.font? key = p.font? key) ∧
      (∀ key size, q.measure key size = p.measure key size) ∧
      ∀ field : Field, Id.run (field.plan q.measure (some q)) = Id.run (field.plan p.measure (some p)) := by
  intro q
  have hvalid : p.Valid := check_eq_ok_iff_valid.mp h
  have hdistinct := hvalid.fonts.distinct
  have hmeasure : q.measure = p.measure := FontEntry.measure_perm hperm hdistinct
  refine ⟨check_eq_ok_iff_valid.mpr (hvalid.perm hperm), ?_, ?_, ?_⟩
  · intro key
    exact FontEntry.find?_perm hperm hdistinct key
  · intro key size
    rw [hmeasure]
  · intro field
    rw [hmeasure, Field.plan_with_fonts]

/-- The line font moves from the end of the table to its front, past a font whose metrics differ. -/
theorem fonts_order_irrelevant_rotated :
    let small : FontEntry := ⟨['A'], .ofInt (-1), .zero true⟩
    let large : FontEntry := ⟨['a'], .infinity true, .ofInt 3⟩
    let line : FontEntry := ⟨['Z'], .zero true, .ofInt 1⟩
    let p := { standard with lineFont := ⟨['Z'], .ofInt 7, .ofInt 72⟩, fonts := [small, large, line] }
    let q := { p with fonts := [line, small, large] }
    let field : Field := ⟨.code128 none, ['>', ';', '7'], .ofInt 2, 100, ⟨true, true⟩,
      ⟨.zero false, .zero true, true, .bottom⟩⟩
    p.check = .ok () ∧ List.Perm [line, small, large] p.fonts ∧ q.check = .ok () ∧ q.font? ['a'] = some large ∧
      q.measure ['B'] (.ofInt 7) = p.measure ['B'] (.ofInt 7) ∧
      Id.run (field.plan q.measure (some q)) = Id.run (field.plan p.measure (some p)) := by
  intro small large line p q field
  have hcheck : p.check = .ok () := rfl
  have hperm : List.Perm [line, small, large] p.fonts := by decide
  obtain ⟨hother, hfont, hmeasure, hplan⟩ := fonts_order_irrelevant hcheck hperm
  exact ⟨hcheck, hperm, hother, (hfont ['a']).trans rfl, hmeasure _ _, hplan field⟩

end Profile

end BarcodeField
