import BarcodeField.Proofs.Profile.FaultOrder
import Mathlib.Data.List.Lex

/-!
# Valid profiles

What a check is to find out is said here without it. A profile is valid when its names are not blank, its sizes are
positive and bounded, its fonts have distinct names and the right signs, and the font of the printed line is one of
them (`Valid`). A profile that is not breaks a rule, and each rule has the fault that says so (`Breaks`).

**The law** (`check_reports_first`): the check lets just the valid profiles pass, and of the others it reports the
broken rule that comes first in the order of rules. So a fault in one font says that the fonts before it are as they
should be.

A comparison with NaN is false, so NaN breaks every rule about a number; an infinity may be a scale, an ascent or a
descent.

The check looks at a font beside those before it only. That is enough for all pairs, because of two fonts with one
name the later one is found (`tableFaults_eq_nil_iff`). The first fault is the least because faults are listed in the
order of rules (`pairwise_faults`), and because every broken rule is listed (`mem_faults_iff`).
-/

namespace BarcodeField.Profile

open ProfileFault (require require_eq_nil_iff)

/-! ## Rules -/

/-- A table of named fonts, each name given once, with ascents that are not positive and descents that are not
negative. -/
structure ValidTable (table : List FontEntry) : Prop where
  named : ∀ font ∈ table, font.key.isBlank = false
  distinct : table.Pairwise fun a b => a.key ≠ b.key
  signed : ∀ font ∈ table, font.ascent ≤ .zero false ∧ .zero false ≤ font.descent

/-- A usable profile. -/
structure Valid (p : Profile) : Prop where
  id : p.id.isBlank = false
  schemaVersion : p.schemaVersion.isBlank = false
  lineFont : p.lineFont.key.isBlank = false
  scale : .zero false < p.lineFont.scale
  maxSize : .zero false < p.lineFont.maxSize ∧ p.lineFont.maxSize ≤ sizeLimit
  fonts : ValidTable p.fonts
  listed : ∃ font ∈ p.fonts, font.key = p.lineFont.key

/-- The profile breaks the rule of a fault, and in the way that the fault says. -/
def Breaks (p : Profile) : ProfileFault → Prop
  | .blankId => p.id.isBlank = true
  | .blankSchemaVersion => p.schemaVersion.isBlank = true
  | .blankLineFont => p.lineFont.key.isBlank = true
  | .scale value => ¬ .zero false < p.lineFont.scale ∧ value = p.lineFont.scale
  | .maxSize value => ¬ (.zero false < p.lineFont.maxSize ∧ p.lineFont.maxSize ≤ sizeLimit) ∧
      value = p.lineFont.maxSize
  | .blankFont index => ∃ font, p.fonts[index]? = some font ∧ font.key.isBlank = true
  | .repeatedFont index key => ∃ font, p.fonts[index]? = some font ∧
      (∃ earlier ∈ p.fonts.take index, earlier.key = font.key) ∧ key = font.key
  | .ascent index value => ∃ font, p.fonts[index]? = some font ∧ ¬ font.ascent ≤ .zero false ∧ value = font.ascent
  | .descent index value => ∃ font, p.fonts[index]? = some font ∧ ¬ .zero false ≤ font.descent ∧ value = font.descent
  | .missingFont key => (∀ font ∈ p.fonts, font.key ≠ p.lineFont.key) ∧ key = p.lineFont.key

/-! ## Profiles without faults -/

theorem validTable_cons {font : FontEntry} {rest : List FontEntry} :
    ValidTable (font :: rest) ↔
      (font.key.isBlank = false ∧ font.ascent ≤ .zero false ∧ .zero false ≤ font.descent) ∧
        (∀ other ∈ rest, other.key ≠ font.key) ∧ ValidTable rest := by
  constructor
  · rintro ⟨hnamed, hdistinct, hsigned⟩
    rw [List.forall_mem_cons] at hnamed hsigned
    rw [List.pairwise_cons] at hdistinct
    exact ⟨⟨hnamed.1, hsigned.1⟩, fun other hother => (hdistinct.1 other hother).symm,
      ⟨hnamed.2, hdistinct.2, hsigned.2⟩⟩
  · rintro ⟨⟨hblank, hmetrics⟩, hother, hnamed, hdistinct, hsigned⟩
    exact ⟨List.forall_mem_cons.mpr ⟨hblank, hnamed⟩,
      List.pairwise_cons.mpr ⟨fun other hmem => (hother other hmem).symm, hdistinct⟩,
      List.forall_mem_cons.mpr ⟨hmetrics, hsigned⟩⟩

theorem fontFaults_eq_nil_iff {index : Nat} {earlier : List Text} {font : FontEntry} :
    fontFaults index earlier font = [] ↔
      (font.key.isBlank = false ∧ font.ascent ≤ .zero false ∧ .zero false ≤ font.descent) ∧
        font.key ∉ earlier := by
  simp only [fontFaults, List.append_eq_nil_iff, require_eq_nil_iff, Bool.not_eq_true', decide_eq_true_eq,
    List.contains_eq_mem, decide_eq_false_iff_not]
  tauto

/-- A font is compared with those before it, and so with all others. -/
theorem tableFaults_eq_nil_iff {earlier : List Text} {table : List FontEntry} :
    tableFaults earlier table = [] ↔ ValidTable table ∧ ∀ font ∈ table, font.key ∉ earlier := by
  induction table generalizing earlier with
  | nil =>
    have hvalid : ValidTable [] := ⟨List.forall_mem_nil _, .nil, List.forall_mem_nil _⟩
    exact iff_of_true rfl ⟨hvalid, List.forall_mem_nil _⟩
  | cons font rest ih =>
    rw [tableFaults, List.append_eq_nil_iff, fontFaults_eq_nil_iff, ih, validTable_cons, List.forall_mem_cons]
    simp only [List.mem_append, List.mem_singleton, not_or, forall_and]
    tauto

theorem headFaults_eq_nil_iff {p : Profile} :
    p.headFaults = [] ↔ p.id.isBlank = false ∧ p.schemaVersion.isBlank = false ∧
      p.lineFont.key.isBlank = false ∧ .zero false < p.lineFont.scale ∧
      .zero false < p.lineFont.maxSize ∧ p.lineFont.maxSize ≤ sizeLimit := by
  simp only [headFaults, List.append_eq_nil_iff, require_eq_nil_iff, Bool.not_eq_true', decide_eq_true_eq,
    Bool.and_eq_true, and_assoc]

theorem isSome_font?_iff {p : Profile} {key : Text} :
    (p.font? key).isSome = true ↔ ∃ font ∈ p.fonts, font.key = key := by
  simp only [font?, FontEntry.find?, List.find?_isSome, beq_iff_eq]

/-- **A check lets just the valid profiles pass.** -/
theorem check_eq_ok_iff_valid {p : Profile} : p.check = .ok () ↔ p.Valid := by
  rw [check_eq_ok_iff, faults, List.append_eq_nil_iff, List.append_eq_nil_iff, headFaults_eq_nil_iff,
    tableFaults_eq_nil_iff, require_eq_nil_iff, isSome_font?_iff]
  constructor
  · rintro ⟨⟨⟨hid, hversion, hkey, hscale, hmax⟩, hfonts, _⟩, hlisted⟩
    exact ⟨hid, hversion, hkey, hscale, hmax, hfonts, hlisted⟩
  · rintro ⟨hid, hversion, hkey, hscale, hmax, hfonts, hlisted⟩
    exact ⟨⟨⟨hid, hversion, hkey, hscale, hmax⟩, hfonts, fun _ _ => List.not_mem_nil⟩, hlisted⟩

theorem scale_pos_of_check {p : Profile} (h : p.check = .ok ()) : .zero false < p.lineFont.scale :=
  (check_eq_ok_iff_valid.mp h).scale

theorem maxSize_of_check {p : Profile} (h : p.check = .ok ()) :
    .zero false < p.lineFont.maxSize ∧ p.lineFont.maxSize ≤ sizeLimit := (check_eq_ok_iff_valid.mp h).maxSize

/-! ## Broken rules are listed -/

theorem mem_require_iff {rule : Bool} {fault other : ProfileFault} :
    other ∈ require rule fault ↔ rule = false ∧ other = fault := by
  cases rule <;> simp [require]

theorem mem_tableFaults_iff {earlier : List Text} {table : List FontEntry} {fault : ProfileFault} :
    fault ∈ tableFaults earlier table ↔ ∃ i font, table[i]? = some font ∧
      fault ∈ fontFaults (earlier.length + i) (earlier ++ (table.take i).map FontEntry.key) font := by
  induction table generalizing earlier with
  | nil => simp [tableFaults]
  | cons first rest ih =>
    have hlength (i : Nat) : (earlier ++ [first.key]).length + i = earlier.length + (i + 1) := by
      simp only [List.length_append, List.length_singleton]
      omega
    rw [tableFaults, List.mem_append, ih]
    constructor
    · rintro (hfault | ⟨i, font, hfont, hfault⟩)
      · exact ⟨0, first, rfl, by simpa using hfault⟩
      · refine ⟨i + 1, font, hfont, ?_⟩
        rw [hlength] at hfault
        simpa using hfault
    · rintro ⟨_ | i, font, hfont, hfault⟩
      · cases hfont
        exact .inl (by simpa using hfault)
      · refine .inr ⟨i, font, hfont, ?_⟩
        rw [hlength]
        simpa using hfault

/-- The faults of a profile are those of the rules that it breaks. -/
theorem mem_faults_iff {p : Profile} {fault : ProfileFault} : fault ∈ p.faults ↔ p.Breaks fault := by
  have htable : fault ∈ tableFaults [] p.fonts ↔ ∃ i font, p.fonts[i]? = some font ∧
      fault ∈ fontFaults i ((p.fonts.take i).map FontEntry.key) font := by
    rw [mem_tableFaults_iff]
    simp only [List.length_nil, Nat.zero_add, List.nil_append]
  have hmissing : (p.font? p.lineFont.key).isSome = false ↔ ∀ font ∈ p.fonts, font.key ≠ p.lineFont.key := by
    rw [← Bool.not_eq_true, isSome_font?_iff]
    simp only [not_exists, not_and, ne_eq]
  rw [faults, List.mem_append, List.mem_append, htable]
  cases fault <;>
    simp [headFaults, fontFaults, mem_require_iff, hmissing, Breaks, -List.map_take, -Option.isSome_eq_false_iff]

/-! ## Faults are listed in the order of rules -/

theorem require_sublist (rule : Bool) (fault : ProfileFault) : (require rule fault).Sublist [fault] := by
  cases rule with
  | false => exact List.Sublist.refl _
  | true => exact List.nil_sublist _

theorem headFaults_sublist (p : Profile) :
    p.headFaults.Sublist [.blankId, .blankSchemaVersion, .blankLineFont, .scale p.lineFont.scale,
      .maxSize p.lineFont.maxSize] :=
  ((((require_sublist _ _).append (require_sublist _ _)).append (require_sublist _ _)).append
    (require_sublist _ _)).append (require_sublist _ _)

theorem fontFaults_sublist (index : Nat) (earlier : List Text) (font : FontEntry) :
    (fontFaults index earlier font).Sublist [.blankFont index, .repeatedFont index font.key,
      .ascent index font.ascent, .descent index font.descent] :=
  (((require_sublist _ _).append (require_sublist _ _)).append (require_sublist _ _)).append (require_sublist _ _)

theorem exists_rank_of_mem_headFaults {p : Profile} {fault : ProfileFault} (h : fault ∈ p.headFaults) :
    ∃ n, fault.rank = [0, n] := by
  have hmem := (headFaults_sublist p).mem h
  simp only [List.mem_cons, List.not_mem_nil, or_false] at hmem
  rcases hmem with rfl | rfl | rfl | rfl | rfl <;> exact ⟨_, rfl⟩

theorem exists_rank_of_mem_fontFaults {index : Nat} {earlier : List Text} {font : FontEntry} {fault : ProfileFault}
    (h : fault ∈ fontFaults index earlier font) : ∃ n, fault.rank = [1, index, n] := by
  have hmem := (fontFaults_sublist index earlier font).mem h
  simp only [List.mem_cons, List.not_mem_nil, or_false] at hmem
  rcases hmem with rfl | rfl | rfl | rfl <;> exact ⟨_, rfl⟩

theorem exists_rank_of_mem_tableFaults {earlier : List Text} {table : List FontEntry} {fault : ProfileFault}
    (h : fault ∈ tableFaults earlier table) : ∃ i n, fault.rank = [1, earlier.length + i, n] := by
  obtain ⟨i, _, _, hfault⟩ := mem_tableFaults_iff.mp h
  obtain ⟨n, hrank⟩ := exists_rank_of_mem_fontFaults hfault
  exact ⟨i, n, hrank⟩

theorem pairwise_tableFaults (earlier : List Text) (table : List FontEntry) :
    (tableFaults earlier table).Pairwise fun a b => a.rank < b.rank := by
  induction table generalizing earlier with
  | nil => exact .nil
  | cons font rest ih =>
    refine List.pairwise_append.mpr ⟨?_, ih _, fun a ha b hb => ?_⟩
    · refine List.Pairwise.sublist (fontFaults_sublist _ _ _) ?_
      simp [ProfileFault.rank, List.cons_lt_cons_iff]
    · obtain ⟨_, ha⟩ := exists_rank_of_mem_fontFaults ha
      obtain ⟨_, _, hb⟩ := exists_rank_of_mem_tableFaults hb
      have hlater (i : Nat) : earlier.length < earlier.length + 1 + i := by omega
      rw [ha, hb, List.length_append, List.length_singleton]
      simp [List.cons_lt_cons_iff, hlater]

/-- **A profile's faults are listed in the order of rules.** -/
theorem pairwise_faults (p : Profile) : p.faults.Pairwise fun a b => a.rank < b.rank := by
  refine List.pairwise_append.mpr ⟨List.pairwise_append.mpr ⟨?_, pairwise_tableFaults _ _, fun a ha b hb => ?_⟩,
    (List.pairwise_singleton _ _).sublist (require_sublist _ _), fun a ha b hb => ?_⟩
  · refine List.Pairwise.sublist (headFaults_sublist p) ?_
    simp [ProfileFault.rank, List.cons_lt_cons_iff]
  · obtain ⟨_, ha⟩ := exists_rank_of_mem_headFaults ha
    obtain ⟨_, _, hb⟩ := exists_rank_of_mem_tableFaults hb
    rw [ha, hb]
    simp [List.cons_lt_cons_iff]
  · obtain ⟨_, rfl⟩ := mem_require_iff.mp hb
    rcases List.mem_append.mp ha with ha | ha
    · obtain ⟨_, ha⟩ := exists_rank_of_mem_headFaults ha
      rw [ha]
      simp [ProfileFault.rank, List.cons_lt_cons_iff]
    · obtain ⟨_, _, ha⟩ := exists_rank_of_mem_tableFaults ha
      rw [ha]
      simp [ProfileFault.rank, List.cons_lt_cons_iff]

/-! ## The fault that is reported -/

theorem check_eq_error_iff_head {p : Profile} {fault : ProfileFault} :
    p.check = .error fault ↔ p.faults.head? = some fault := by
  unfold check
  cases p.faults <;> simp

/-- **A check reports the first broken rule.** -/
theorem check_eq_error_iff {p : Profile} {fault : ProfileFault} :
    p.check = .error fault ↔ p.Breaks fault ∧ ∀ other, p.Breaks other → fault.rank ≤ other.rank := by
  simp only [check_eq_error_iff_head, ← mem_faults_iff]
  have hsorted := pairwise_faults p
  cases hfaults : p.faults with
  | nil => simp
  | cons first rest =>
    rw [hfaults, List.pairwise_cons] at hsorted
    rw [List.head?_cons, Option.some.injEq, List.forall_mem_cons]
    constructor
    · rintro rfl
      exact ⟨List.mem_cons_self, le_refl _, fun other hother => (hsorted.1 other hother).le⟩
    · rintro ⟨hmem, hfirst, _⟩
      rcases List.mem_cons.mp hmem with rfl | hrest
      · rfl
      · exact absurd hfirst (hsorted.1 fault hrest).not_ge

/-- A fault in a font says that the fonts before it are as they should be: their faults would come first. -/
theorem validTable_take {p : Profile} {fault : ProfileFault} {i : Nat} (h : p.check = .error fault)
    (hi : fault.fontIndex? = some i) : ValidTable (p.fonts.take i) := by
  obtain ⟨_, hfirst⟩ := check_eq_error_iff.mp h
  have hnone : tableFaults [] (p.fonts.take i) = [] := by
    refine List.eq_nil_iff_forall_not_mem.mpr fun other hother => ?_
    obtain ⟨j, font, hfont, hother⟩ := mem_tableFaults_iff.mp hother
    have hj : j < i := by
      obtain ⟨hlt, _⟩ := List.getElem?_eq_some_iff.mp hfont
      rw [List.length_take] at hlt
      omega
    rw [List.getElem?_take_of_lt hj] at hfont
    rw [List.take_take, min_eq_left hj.le] at hother
    have hlisted : other ∈ p.faults :=
      List.mem_append_left _ (List.mem_append_right _ (mem_tableFaults_iff.mpr ⟨j, font, hfont, hother⟩))
    obtain ⟨_, hrank⟩ := exists_rank_of_mem_fontFaults hother
    have hbefore : other.rank < fault.rank := by
      rw [hrank]
      cases fault <;> cases hi <;> simp [ProfileFault.rank, List.cons_lt_cons_iff, hj]
    exact absurd (hfirst other (mem_faults_iff.mp hlisted)) hbefore.not_ge
  exact (tableFaults_eq_nil_iff.mp hnone).1

/-- **What a check finds out.** It lets just the valid profiles pass; of the others it reports the first broken rule. A
fault in a font says that the fonts before it are as they should be, and rules about one field have different
reasons. -/
theorem check_reports_first (p : Profile) :
    (p.check = .ok () ↔ p.Valid) ∧
      (∀ fault, p.check = .error fault ↔
        p.Breaks fault ∧ ∀ other, p.Breaks other → fault.rank ≤ other.rank) ∧
      (∀ fault i, p.check = .error fault → fault.fontIndex? = some i → ValidTable (p.fonts.take i)) ∧
      ∀ a b : ProfileFault, a.field = b.field → a.rank ≠ b.rank → a.reason ≠ b.reason :=
  ⟨check_eq_ok_iff_valid, fun _ => check_eq_error_iff, fun _ _ => validTable_take,
    fun _ _ hfield hrank hreason => hrank (ProfileFault.rank_eq_of_texts hfield hreason)⟩

/-- The third font repeats a key and has no ascent either, and the line font is missing; the repeated key comes first.
An infinite ascent and a descent of minus zero are no fault. -/
theorem check_reports_first_repeated :
    let p := { standard with
      lineFont := ⟨['Z'], .ofInt 7, .ofInt 72⟩
      fonts := [⟨['A'], .ofInt (-1), .ofInt 1⟩, ⟨['B'], .infinity true, .zero true⟩, ⟨['A'], .nan, .ofInt 1⟩] }
    p.check = .error (.repeatedFont 2 ['A']) ∧ ¬ p.Valid ∧ ValidTable (p.fonts.take 2) ∧
      p.Breaks (.ascent 2 .nan) ∧ [1, 2, 1] ≤ [1, 2, 2] ∧ p.Breaks (.missingFont ['Z']) ∧ [1, 2, 1] ≤ [2] ∧
      (ProfileFault.blankFont 2).reason ≠ (ProfileFault.repeatedFont 2 ['A']).reason := by
  intro p
  obtain ⟨hvalid, hfirst, hbefore, hreason⟩ := check_reports_first p
  have hcheck : p.check = .error (.repeatedFont 2 ['A']) := rfl
  have hascent : p.Breaks (.ascent 2 .nan) := ⟨_, rfl, by decide, rfl⟩
  have hmissing : p.Breaks (.missingFont ['Z']) := ⟨by decide, rfl⟩
  obtain ⟨_, hleast⟩ := (hfirst _).mp hcheck
  refine ⟨hcheck, fun h => ?_, hbefore _ 2 hcheck rfl, hascent, hleast _ hascent, hmissing, hleast _ hmissing,
    hreason _ _ rfl (by decide)⟩
  cases hcheck.symm.trans (hvalid.mpr h)

end BarcodeField.Profile
