import BarcodeField.CommandLine.Run
import BarcodeField.Proofs.Code128.CaseCode
import BarcodeField.Proofs.Json.Record

/-!
# Check digits on the command line

A check digit is computed on two ways. Mode `U` deletes stray start codes, pads what is left and puts the digit
behind it; the command `check-digit` pads its argument as it stands.

**The law** (`run_checkDigit_eq_uccCase`): mode `U` encodes FNC1, nineteen characters and the digit that is computed
over just these, so whoever reads the symbol can check it. Data without stray start codes is left as it is by mode
`U`, and then the command reports the characters and the digit that are encoded.

**Where it ends.** Unlike the data of a field, the data of `check-digit` is taken for an option where it begins with a
dash, and then nothing is reported (`run_checkDigit_of_dash`). Behind two dashes any data is taken.
-/

namespace BarcodeField.CommandLine

open Code128 CheckDigit Escape

/-! ## Options and the plain argument -/

theorem Shape.of_eq_plain {t : Text} (h : t.head? ≠ some '-' ∨ t = ['-']) : Shape.of t = .plain := by
  rcases h with hhead | rfl
  · unfold Shape.of
    split <;> simp_all
  · rfl

theorem Shape.of_ne_plain {t : Text} (hhead : t.head? = some '-') (hmore : t ≠ ['-']) : Shape.of t ≠ .plain := by
  obtain ⟨letters, rfl⟩ := List.head?_eq_some_iff.mp hhead
  unfold Shape.of
  split
  · exact Shape.noConfusion
  · split <;> exact Shape.noConfusion
  next heq => exact absurd heq hmore
  · exact Shape.noConfusion
  next hother => exact absurd rfl (hother letters)

namespace Walk

variable {w w' : Walk} {opt : Opt}

theorem data_assign {t : Text} (h : w.assign opt t = .ok w') : w'.data = w.data := by
  unfold assign at h
  split at h
  · cases h
    rfl
  · cases h

theorem data_settle (h : w.settle = .ok w') : w'.data = w.data := by
  unfold settle at h
  split at h
  · cases h
    rfl
  · cases h
  · exact (data_assign h).trans rfl

/-- An option that is settled first changes nothing about the plain argument. -/
theorem data_settle_bind {f : Walk → Except Stop Walk} (h : w.settle.bind f = .ok w')
    (hf : ∀ settled, f settled = .ok w' → w'.data = settled.data) : w'.data = w.data := by
  cases hsettle : w.settle with
  | error stop =>
    rw [hsettle] at h
    cases h
  | ok settled =>
    rw [hsettle] at h
    exact (hf settled h).trans (data_settle hsettle)

theorem data_switch (h : w.switch opt = .ok w') : w'.data = w.data := by
  refine data_settle_bind h fun settled hswitch => ?_
  cases opt
  case verbose => cases hswitch; rfl
  case origin =>
    dsimp only at hswitch
    split at hswitch
    · cases hswitch
    · cases hswitch
      rfl
  all_goals cases hswitch

theorem data_takeOption {joined : Option Text} (h : w.takeOption opt joined = .ok w') : w'.data = w.data := by
  unfold takeOption at h
  split at h
  · exact data_settle_bind h fun settled hassign => data_assign hassign
  · refine data_settle_bind h fun settled hwaiting => ?_
    cases hwaiting
    rfl
  · cases h
  · exact data_switch h

theorem data_takeLetters {level : Level} {letters : Text} (h : takeLetters level w letters = .ok w') :
    w'.data = w.data := by
  induction letters generalizing w with
  | nil =>
    cases h
    rfl
  | cons letter letters ih =>
    unfold takeLetters at h
    split at h
    · cases h
    next opt _ =>
      cases hswitch : w.switch opt with
      | error stop =>
        rw [hswitch] at h
        cases h
      | ok switched =>
        rw [hswitch] at h
        exact (ih h).trans (data_switch hswitch)

/-- An argument that looks like an option is none of the data of a command that takes no dashes. -/
theorem data_take_of_ne_plain {level : Level} {t : Text} (hdashes : level.takesDashes = false)
    (hopen : w.isClosed = false) (hshape : Shape.of t ≠ .plain) (h : w.take level t = .ok w') :
    w'.data = w.data := by
  have hnone : w.takesDashes level = false := by rw [takesDashes, hdashes, Bool.false_and]
  rw [take, hopen, if_neg Bool.false_ne_true] at h
  cases hof : Shape.of t with
  | separator =>
    rw [hof] at h
    cases h
    rfl
  | plain => exact absurd hof hshape
  | long name joined =>
    simp only [hof, hnone] at h
    split at h
    · exact data_takeOption h
    · cases h
  | short letters =>
    simp only [hof, hnone, Bool.false_and] at h
    exact data_takeLetters h

end Walk

/-! ## Asking for a check digit -/

section Run

variable {m : Type → Type} [Monad m] {args : List Text} {data : Text} (usual : Format)
  (read : Text → m (Except String Text))

/-- Data behind two dashes is taken whatever it begins with. -/
theorem parse_checkDigit (data : Text) :
    parse ["check-digit".toList, ['-', '-'], data] = .ok ⟨none, none, .checkDigit data⟩ := rfl

/-- Data that does not look like an option needs no dashes before it. -/
theorem parse_checkDigit_of_plain (h : Shape.of data = .plain) :
    parse ["check-digit".toList, data] = .ok ⟨none, none, .checkDigit data⟩ := by
  have htake : Walk.take .checkDigit {} data = .ok { data := some data } := by
    rw [Walk.take, h]
    rfl
  show parseCommand {} .checkDigit [data] = _
  rw [parseCommand, List.foldlM_cons, htake]
  rfl

/-- Data that looks like an option is not there when the arguments have been read. -/
theorem exists_parse_checkDigit_eq_error (h : Shape.of data ≠ .plain) :
    ∃ stop, parse ["check-digit".toList, data] = .error stop := by
  show ∃ stop, parseCommand {} .checkDigit [data] = .error stop
  rw [parseCommand, List.foldlM_cons]
  cases htake : Walk.take .checkDigit {} data with
  | error stop => exact ⟨stop, rfl⟩
  | ok w =>
    have hdata : w.data = none := Walk.data_take_of_ne_plain rfl rfl h htake
    show ∃ stop, w.settle.bind _ = .error stop
    cases hsettle : w.settle with
    | error stop => exact ⟨stop, rfl⟩
    | ok settled =>
      have hnone : settled.data = none := (Walk.data_settle hsettle).trans hdata
      have hcommand : settled.command .checkDigit = Walk.refuse := by simp [Walk.command, hnone]
      show ∃ stop, (settled.command .checkDigit).bind _ = .error stop
      rw [hcommand]
      exact ⟨_, rfl⟩

theorem run_checkDigit_of_parse (h : parse args = .ok ⟨none, none, .checkDigit data⟩) :
    run usual read args = pure (.success (checkDigitReport usual (pad data) (digit (pad data)))) := by
  rw [run, h]
  rfl

theorem run_checkDigit_of_dash (hhead : data.head? = some '-') (hmore : data ≠ ['-']) :
    ∃ stop, run usual read ["check-digit".toList, data] = pure (.stopped stop) := by
  obtain ⟨stop, hstop⟩ := exists_parse_checkDigit_eq_error (Shape.of_ne_plain hhead hmore)
  exact ⟨stop, by rw [run, hstop]⟩

end Run

/-! ## The report -/

/-- What is reported as a document can be read from it. -/
theorem read?_checkDigitReport (data : Text) (d : Fin 10) :
    Json.Value.read? (checkDigitReport .json data d) =
      some (.record [("check_digit", .integer d.val), ("data", .text data)]) := by
  have htext (t : Text) : ∀ p ∈ Json.Piece.ofText t, p.WellFormed := Json.Piece.wellFormed_ofText
  have hinteger : (Json.Value.integer d.val).Writable := List.forall_mem_nil _
  have hrecord : (Json.Value.record [("check_digit", .integer d.val), ("data", .text data)]).Writable :=
    ⟨htext _, hinteger, htext _, htext data, trivial⟩
  exact Json.Value.read?_write .indented hrecord ['\n'] (by simp [Json.isGap])

theorem isShown_digitChar (d : Fin 10) : Terminal.isShown (digitChar d) = true := by
  revert d
  decide

/-- What is reported for a person is a line that begins with the data. Its colour apart, the digit is the rest. -/
theorem plain_checkDigitReport (data : Text) (d : Fin 10) : ∃ rest,
    checkDigitReport .pretty data d = data ++ rest ∧ Terminal.plain rest = [digitChar d, '\n'] := by
  have hcode : ∀ c ∈ "32".toList, c.isDigit = true := List.all_eq_true.mp rfl
  have hdigit : ∀ c ∈ [digitChar d], Terminal.isShown c = true := List.forall_mem_singleton.mpr (isShown_digitChar d)
  have hend : Terminal.plain ['\n'] = ['\n'] := Terminal.plain_eq_self (List.all_eq_true.mp rfl)
  refine ⟨_, List.append_assoc _ _ _, ?_⟩
  rw [Terminal.plain_coloured hcode hdigit, hend]
  rfl

/-! ## Case codes -/

/-- Behind FNC1 the payload holds the padded data, and then its check digit. -/
theorem take_payload_uccCase (data : Text) :
    ((fnc1 :: (pad data ++ [digitChar (digit (pad data))])).drop 1).take 19 = pad data :=
  List.take_left' (length_pad data)

/-- **The command reports what mode `U` encodes**, for data without stray start codes; without two dashes before it,
just for data that does not look like an option. Mode `U` encodes FNC1, nineteen characters and their check digit for
any data. -/
theorem run_checkDigit_eq_uccCase (policy : UnknownModePolicy) (data : Text) :
    let padded := pad (stripStray data)
    let check := digit padded
    ∃ c, content policy .uccCase data = .ok c ∧
      c.payload = fnc1 :: (padded ++ [digitChar check]) ∧ c.payload.length = 21 ∧
      (∃ last, c.payload.getLast? = some last ∧ last.isDigit = true ∧
        last = digitChar (digit ((c.payload.drop 1).take 19))) ∧
      ((∀ i, 0 < i → ¬ StartCodeAt data i) → ∀ (m : Type → Type) [Monad m] (usual : Format)
        (read : Text → m (Except String Text)),
          let reported : m Outcome := pure (.success (checkDigitReport usual padded check))
          run usual read ["check-digit".toList, ['-', '-'], data] = reported ∧
            if data.head? ≠ some '-' ∨ data = ['-'] then run usual read ["check-digit".toList, data] = reported
            else ∃ stop, run usual read ["check-digit".toList, data] = pure (.stopped stop)) ∧
      Json.Value.read? (checkDigitReport .json padded check) =
        some (.record [("check_digit", .integer check.val), ("data", .text padded)]) ∧
      ∃ rest, checkDigitReport .pretty padded check = padded ++ rest ∧
        Terminal.plain rest = [digitChar check, '\n'] := by
  intro padded check
  refine ⟨_, content_uccCase policy data, rfl, ?_, ⟨digitChar check, ?_, isDigit_digitChar check, ?_⟩,
    fun hstray m _ usual read => ?_, read?_checkDigitReport padded check, plain_checkDigitReport padded check⟩
  · rw [List.length_cons, List.length_append, length_pad]
    rfl
  · rw [← List.cons_append, List.getLast?_concat]
    rfl
  · show _ = digitChar (digit (((fnc1 :: (padded ++ [digitChar check])).drop 1).take 19))
    rw [take_payload_uccCase]
  · have hstrip : stripStray data = data := stripStray_of_strayFree (strayFree_iff.mpr hstray)
    have hreported {args : List Text} (hparse : parse args = .ok ⟨none, none, .checkDigit data⟩) :
        run usual read args = pure (.success (checkDigitReport usual padded check)) := by
      simp only [run_checkDigit_of_parse usual read hparse, padded, check, hstrip]
    refine ⟨hreported (parse_checkDigit data), ?_⟩
    split
    next hplain => exact hreported (parse_checkDigit_of_plain (Shape.of_eq_plain hplain))
    next hoption =>
      obtain ⟨hhead, hmore⟩ := not_or.mp hoption
      exact run_checkDigit_of_dash usual read (not_not.mp hhead) hmore

/-- A leading start code is data like the rest, a character may be worth less than zero or more than nine, and no file
is read. -/
theorem run_checkDigit_eq_uccCase_leading :
    let data : Text := ['>', ';', 'é', '!', '5']
    let padded : Text := List.replicate 14 '0' ++ data
    (∀ i, 0 < i → ¬ StartCodeAt data i) ∧
      (∃ c, content .reject .uccCase data = .ok c ∧ c.payload = fnc1 :: (padded ++ ['2'])) ∧
      ∀ usual, run usual (fun _ => none) ["check-digit".toList, data] =
        some (.success (checkDigitReport usual padded 2)) := by
  intro data padded
  have hstrip : stripStray data = data := by cbv
  have hstray : ∀ i, 0 < i → ¬ StartCodeAt data i := by
    have hfree := strayFree_stripStray data
    rw [hstrip] at hfree
    exact strayFree_iff.mp hfree
  have hpadded : pad data = padded := by cbv
  have hcheck : digit padded = 2 := by cbv
  obtain ⟨c, hc, hpayload, _, _, hreported, _⟩ := run_checkDigit_eq_uccCase .reject data
  rw [hstrip, hpadded, hcheck] at hpayload
  refine ⟨hstray, ⟨c, hc, hpayload⟩, fun usual => ?_⟩
  have hrun := (hreported hstray Option usual fun _ => none).2
  rw [if_pos (.inl (by decide)), hstrip, hpadded, hcheck] at hrun
  exact hrun

/-- **Not all data is reported**: of `-5` the dash is taken for an option, although mode `U` encodes it. -/
theorem not_forall_run_checkDigit :
    ¬ ∀ (data : Text) (c : Content), (∀ i, 0 < i → ¬ StartCodeAt data i) →
      content .normal .uccCase data = .ok c → ∃ padded check,
        c.payload = fnc1 :: (padded ++ [digitChar check]) ∧
          run .json (fun _ => none) ["check-digit".toList, data] =
            some (.success (checkDigitReport .json padded check)) := by
  intro hall
  have hstrip : stripStray ['-', '5'] = ['-', '5'] := by cbv
  have hstray : ∀ i, 0 < i → ¬ StartCodeAt ['-', '5'] i := by
    have hfree := strayFree_stripStray ['-', '5']
    rw [hstrip] at hfree
    exact strayFree_iff.mp hfree
  obtain ⟨padded, check, _, hrun⟩ := hall ['-', '5'] _ hstray (content_uccCase .normal _)
  have hstopped : run (m := Option) .json (fun _ => none) ["check-digit".toList, ['-', '5']] =
      some (.stopped (.refused .usage)) := rfl
  rw [hstopped, Option.some.injEq] at hrun
  have hexit : 2 = 0 := congrArg Outcome.exit hrun
  exact absurd hexit (by decide)

end BarcodeField.CommandLine
