import BarcodeField.Json.Record
import BarcodeField.Proofs.Json.Document

/-!
# Records come back

A record is written as an object with its fields in order, each under a name of its own, and its reader asks for
the values by name. The values themselves are texts, flags, integers, numbers and records again; what each of them
is read as is said here once, and so is that it can be written and held.

**The laws.** A reader that asks a record for fields gets the values that the record has under their names
(`fields?_record`). A number is read as itself, and as nothing where it is not finite (`single?_single`); a 32-bit
integer, a flag and a text are always read as themselves. All of them can be stored, and so can an array or a
record of what can be stored (`Storable`).
-/

namespace BarcodeField.Json.Value

variable {members : List (String × Value)} {name : String} {levels : Nat} {v : Value}

/-! ## Fields -/

theorem namedMembers?_record (members : List (String × Value)) :
    namedMembers? (members.map fun m => (Piece.ofText m.1.toList, m.2)) =
      some (members.map fun m => (m.1.toList, m.2)) := by
  induction members with
  | nil => rfl
  | cons m members ih =>
    rw [namedMembers?] at ih ⊢
    rw [List.map_cons, List.mapM_cons, ih, Piece.text?_ofText]
    rfl

theorem filter_name_eq_nil (h : name ∉ members.map Prod.fst) :
    (members.map fun m => (m.1.toList, m.2)).filter (fun m => m.1 == name.toList) = [] := by
  simp only [List.filter_eq_nil_iff, List.mem_map, beq_iff_eq]
  rintro _ ⟨m, hm, rfl⟩ hname
  exact h (List.mem_map.mpr ⟨m, hm, String.toList_inj.mp hname⟩)

/-- Where names do not repeat, a name gives the one value under it. -/
theorem member?_record (h : (members.map Prod.fst).Nodup) (name : String) :
    member? (members.map fun m => (m.1.toList, m.2)) name.toList = some (members.lookup name) := by
  have hfilter : (members.map fun m => (m.1.toList, m.2)).filter (fun m => m.1 == name.toList) =
      ((members.lookup name).map fun v => (name.toList, v)).toList := by
    induction members with
    | nil => rfl
    | cons m members ih =>
      obtain ⟨key, v⟩ := m
      rw [List.map_cons, List.nodup_cons] at h
      by_cases hkey : key = name
      · subst hkey
        simp [filter_name_eq_nil h.1]
      · have hother : (name == key) = false := by simpa using Ne.symm hkey
        simp [List.lookup_cons, String.toList_inj, hkey, hother, ih h.2]
  rw [member?, hfilter]
  cases members.lookup name <;> rfl

/-- **A record's fields are found under their names**, in the order in which they are asked for. -/
theorem fields?_record (h : (members.map Prod.fst).Nodup) (names : List String) :
    (record members).fields? names = some (names.map fun name => members.lookup name) := by
  rw [record, fields?, namedMembers?_record]
  show names.mapM _ = _
  simp only [member?_record h]
  exact List.mapM_pure

/-! ## Values of fields -/

@[simp] theorem text?_text (t : Text) : (text t).text? = some t := Piece.text?_ofText t

theorem integer?_ofInt (i : Int) : (Numeral.ofInt i).integer? = some i := by
  rcases lt_or_ge i 0 with hneg | hnonneg
  · simp [Numeral.integer?, Numeral.ofInt, hneg, hneg.ne, abs_of_neg hneg]
  · simp [Numeral.integer?, Numeral.ofInt, hnonneg.not_gt, abs_of_nonneg hnonneg]

@[simp] theorem int32?_integer (i : Int32) : (integer i.toInt).int32? = some i := by
  have hrange : Int32.minValue.toInt ≤ i.toInt ∧ i.toInt ≤ Int32.maxValue.toInt :=
    ⟨Int32.minValue_le_toInt i, Int32.toInt_le i⟩
  rw [integer, int32?, Numeral.int32?, integer?_ofInt]
  exact (if_pos hrange).trans (congrArg some (Int32.ofInt_toInt i))

/-- A finite number is written as a numeral that is read as the number; no other number is written at all. -/
theorem single_cases (x : Single) :
    (x.isFinite = true ∧ ∃ negative d, single x = .number (.ofDecimal negative d) ∧
      (Numeral.ofDecimal negative d).single? = some x) ∨ (x.isFinite = false ∧ single x = .null) := by
  cases x with
  | nan => exact .inr ⟨rfl, rfl⟩
  | infinity negative => exact .inr ⟨rfl, rfl⟩
  | finite negative g fits small =>
    obtain ⟨d, hwritten, hread⟩ := Numeral.exists_ofSingle? fits small negative
    refine .inl ⟨rfl, negative, d, ?_, hread⟩
    rw [single, hwritten]

theorem single?_single (x : Single) : (single x).single? = if x.isFinite then some x else none := by
  rcases single_cases x with ⟨hfinite, negative, d, hwritten, hread⟩ | ⟨hfinite, hwritten⟩
  · rw [hwritten, hfinite, if_pos rfl]
    exact hread
  · rw [hwritten, hfinite]
    rfl

/-! ## Values that can be stored -/

/-- Whether a value is kept by the writer, and can be held by a reader within so many levels. -/
structure Storable (levels : Nat) (v : Value) : Prop where
  writable : v.Writable
  holdable : v.isHoldable levels = true

@[simp] theorem storable_null : Storable levels .null := ⟨trivial, by rw [isHoldable]⟩

@[simp] theorem storable_bool (b : Bool) : Storable levels (.bool b) := ⟨trivial, by rw [isHoldable]⟩

@[simp] theorem storable_text (t : Text) : Storable levels (text t) where
  writable := Piece.wellFormed_ofText
  holdable := by simp [text, isHoldable]

/-- An integer of 32 bits is in the range of double precision. -/
@[simp] theorem storable_integer (i : Int32) : Storable levels (integer i.toInt) where
  writable := nofun
  holdable := by
    have habs : i.toInt.natAbs < 2 ^ 32 := by
      have hlow := i.le_toInt
      have hhigh := i.toInt_lt
      omega
    have hleading : (Numeral.ofInt i.toInt).leading = ⟨i.toInt.natAbs, 0⟩ :=
      Numeral.leading_mk rfl rfl (habs.trans (by decide))
    obtain ⟨units, hread⟩ := Double.exists_ofDecimal?_whole (habs.trans (by decide))
    rw [integer, isHoldable, Numeral.double?, hleading, hread]
    rfl

/-- A number is, also where it is not finite. -/
@[simp] theorem storable_single (x : Single) : Storable levels (single x) := by
  rcases single_cases x with ⟨_, negative, d, hwritten, hread⟩ | ⟨_, hwritten⟩
  · rw [hwritten]
    rw [Numeral.single?_ofDecimal] at hread
    obtain ⟨units, hunits, _⟩ := Option.map_eq_some_iff.mp hread
    refine ⟨fun c => Numeral.isDigit_of_mem_fraction, ?_⟩
    rw [isHoldable, Numeral.double?, hunits]
    rfl
  · rw [hwritten]
    exact storable_null

theorem storable_array {values : List Value} (hlevels : 0 < levels)
    (h : ∀ v ∈ values, Storable (levels - 1) v) : Storable levels (array values) := by
  have hvalues : AllWritable values ∧ areHoldable (levels - 1) values = true := by
    induction values with
    | nil => exact ⟨trivial, rfl⟩
    | cons v values ih =>
      rw [List.forall_mem_cons] at h
      simp [AllWritable, areHoldable, h.1.writable, h.1.holdable, ih h.2]
  exact ⟨hvalues.1, by simp [isHoldable, hlevels, hvalues.2]⟩

theorem storable_record (hlevels : 0 < levels) (h : ∀ m ∈ members, Storable (levels - 1) m.2) :
    Storable levels (record members) := by
  have hmembers : MembersWritable (members.map fun m => (Piece.ofText m.1.toList, m.2)) ∧
      membersHoldable (levels - 1) (members.map fun m => (Piece.ofText m.1.toList, m.2)) = true := by
    induction members with
    | nil => exact ⟨trivial, rfl⟩
    | cons m members ih =>
      rw [List.forall_mem_cons] at h
      have hkey : ∀ p ∈ Piece.ofText m.1.toList, p.WellFormed := Piece.wellFormed_ofText
      exact ⟨⟨hkey, h.1.writable, (ih h.2).1⟩, by simp [membersHoldable, h.1.holdable, (ih h.2).2]⟩
  exact ⟨hmembers.1, by simp [record, isHoldable, hlevels, hmembers.2]⟩

end BarcodeField.Json.Value
