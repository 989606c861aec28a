import BarcodeField.Proofs.Draw.Noted

/-!
# Stages of drawing

The parties share a world of which nothing is known here: a font provider, an encoder and a canvas may each
answer by all that has happened before. `Drawing` names every way in which drawing one field can end, and
`Staged` collects what the parties notice of it.

**The law** (`traceAll_staged`): in a run over any fields, each field is staged. The font provider is asked
first, then the encoder, then the canvas, each at most once, and the result alone tells how far it came. A
field that fails disturbs none behind it, and the canvas has accepted as many draws as there are successes.

Calls are noted by `Parties.traced`, so the law says of the noted run and of the plain one, field by field,
that they are the same run.
-/

namespace BarcodeField

variable {σ : Type}

/-! ## Who is asked -/

/-- The outside parties of a drawing. -/
inductive Party where
  | fonts
  | encoder
  | canvas
deriving DecidableEq, Repr

/-- The party that a call is made on. -/
def Call.party : Call → Party
  | .measure .. => .fonts
  | .encode _ => .encoder
  | .draw _ => .canvas

/-- The parties that were asked before a field came to a result. -/
def asked : Except DrawFault Plan → List Party
  | .error (.plan (.moduleWidth _)) => []
  | .error (.plan (.font ..)) | .error (.plan (.unknownMode _)) => [.fonts]
  | .error (.encoding ..) | .error (.conversion _) => [.fonts, .encoder]
  | .error (.canvas _) | .ok _ => [.fonts, .encoder, .canvas]

/-- Of a failure the kind alone tells who was asked. -/
theorem asked_of_kind_eq {fault fault' : DrawFault} (h : fault.kind = fault'.kind) :
    asked (.error fault) = asked (.error fault') := by
  unfold DrawFault.kind at h
  split at h <;> split at h <;> first | rfl | exact absurd h (by decide)

theorem asked_isPrefix (result : Except DrawFault Plan) : asked result <+: [.fonts, .encoder, .canvas] := by
  unfold asked
  split <;> decide

/-! ## Plans in a world -/

section Plans

variable {field : Field} {profile : Option Profile} {fonts : FontProvider (StateM σ)} {w : σ}

theorem plan_run_of_refused {fault : Fault} (h : field.lookup profile = .error fault) :
    (field.plan fonts profile).run w = (.error fault, w) := by
  rw [Field.plan_of_refused h]
  rfl

theorem plan_run_of_lookup {key : Text} {size : Single} (h : field.lookup profile = .ok (key, size)) :
    (field.plan fonts profile).run w =
      (field.planFor profile key size ((fonts key size).run w).1, ((fonts key size).run w).2) := by
  rw [Field.plan_of_lookup h]
  rfl

/-- A provider whose answers hang on the font and the size alone may as well have no world. -/
theorem plan_run_of_answers {measure : Text → Single → Except String FontMetrics}
    (h : ∀ key size w, ((fonts key size).run w).1 = measure key size) :
    ((field.plan fonts profile).run w).1 = Id.run (field.plan measure profile) := by
  cases hlookup : field.lookup profile with
  | error fault =>
    rw [plan_run_of_refused hlookup, Field.plan_of_refused hlookup]
    rfl
  | ok found =>
    rw [plan_run_of_lookup hlookup, Field.plan_of_lookup hlookup, h]
    rfl

/-- What a provider leaves alone in the world, planning leaves alone. -/
theorem plan_run_keeps {κ : Type} {view : σ → κ}
    (h : ∀ key size w, view ((fonts key size).run w).2 = view w) :
    view ((field.plan fonts profile).run w).2 = view w := by
  cases hlookup : field.lookup profile with
  | error fault => rw [plan_run_of_refused hlookup]
  | ok found => rw [plan_run_of_lookup hlookup, h]

theorem lookups_party_of_ok {plan : Plan} (h : ((field.plan fonts profile).run w).1 = .ok plan) :
    (field.lookups profile).map Call.party = [.fonts] := by
  cases hlookup : field.lookup profile with
  | error fault =>
    rw [plan_run_of_refused hlookup] at h
    cases h
  | ok found =>
    rw [Field.lookups, Field.fontRequests_of_lookup hlookup]
    rfl

/-- A field is refused before it is looked up by its module width, and by nothing else. -/
theorem lookups_party_of_error {fault : Fault} (h : ((field.plan fonts profile).run w).1 = .error fault) :
    (field.lookups profile).map Call.party = asked (.error (.plan fault)) := by
  by_cases hpos : .zero false < field.moduleWidth
  · have hlookup : field.lookup profile = .ok (_, _) := Field.lookup_of_pos hpos
    rw [plan_run_of_lookup hlookup] at h
    rw [Field.lookups, Field.fontRequests_of_lookup hlookup]
    cases hanswer : ((fonts _ _).run w).1 with
    | error reason =>
      rw [hanswer] at h
      cases h
      rfl
    | ok metrics =>
      rw [hanswer] at h
      obtain ⟨_, _, _, _, rfl⟩ := (Field.planWith_eq_error_iff hpos).mp h
      rfl
  · have hlookup : field.lookup profile = .error _ := Field.lookup_of_not_pos hpos
    rw [plan_run_of_refused hlookup] at h
    rw [Field.lookups, Field.fontRequests_of_refused hlookup]
    cases h
    rfl

end Plans

/-! ## Drawing one field -/

/-- The ways in which drawing a field can end, with the calls made, the result and the world that is left. -/
inductive Drawing (parties : Parties (StateM σ)) (profile : Option Profile) (field : Field) (w : σ) :
    List Call → Except DrawFault Plan → σ → Prop where
  | unplanned {fault : Fault} {w₁ : σ}
      (hplan : (field.plan parties.fonts profile).run w = (.error fault, w₁)) :
      Drawing parties profile field w (field.lookups profile) (.error (.plan fault)) w₁
  | unencoded {plan : Plan} {reason : String} {w₁ w₂ : σ}
      (hplan : (field.plan parties.fonts profile).run w = (.ok plan, w₁))
      (hencode : (parties.encoder (field.encodeRequest plan)).run w₁ = (.error reason, w₂)) :
      Drawing parties profile field w (field.lookups profile ++ [.encode (field.encodeRequest plan)])
        (.error (.encoding plan.content.symbology reason)) w₂
  | unconverted {plan : Plan} {symbol : Symbol} {reason : String} {w₁ w₂ : σ}
      (hplan : (field.plan parties.fonts profile).run w = (.ok plan, w₁))
      (hencode : (parties.encoder (field.encodeRequest plan)).run w₁ = (.ok symbol, w₂))
      (himage : symbol.image = .error reason) :
      Drawing parties profile field w (field.lookups profile ++ [.encode (field.encodeRequest plan)])
        (.error (.conversion reason)) w₂
  | undrawn {plan : Plan} {symbol : Symbol} {image : List UInt8} {reason : String} {w₁ w₂ w₃ : σ}
      (hplan : (field.plan parties.fonts profile).run w = (.ok plan, w₁))
      (hencode : (parties.encoder (field.encodeRequest plan)).run w₁ = (.ok symbol, w₂))
      (himage : symbol.image = .ok image)
      (hdraw : (parties.canvas (field.drawRequest plan symbol.width image)).run w₂ = (.error reason, w₃)) :
      Drawing parties profile field w
        (field.lookups profile ++
          [.encode (field.encodeRequest plan), .draw (field.drawRequest plan symbol.width image)])
        (.error (.canvas reason)) w₃
  | drawn {plan : Plan} {symbol : Symbol} {image : List UInt8} {w₁ w₂ w₃ : σ}
      (hplan : (field.plan parties.fonts profile).run w = (.ok plan, w₁))
      (hencode : (parties.encoder (field.encodeRequest plan)).run w₁ = (.ok symbol, w₂))
      (himage : symbol.image = .ok image)
      (hdraw : (parties.canvas (field.drawRequest plan symbol.width image)).run w₂ = (.ok (), w₃)) :
      Drawing parties profile field w
        (field.lookups profile ++
          [.encode (field.encodeRequest plan), .draw (field.drawRequest plan symbol.width image)])
        (.ok plan) w₃

/-- Drawing a field ends in one of these ways, whether its calls are noted or not. -/
theorem exists_drawing (parties : Parties (StateM σ)) (profile : Option Profile) (field : Field) (w : σ) :
    ∃ calls result w₁, Drawing parties profile field w calls result w₁ ∧
      Noted (drawField parties profile field) (drawField parties.traced profile field) w calls
        (if result.isOk then 1 else 0) result w₁ := by
  obtain ⟨planned, w₁, hnoted⟩ := noted_plan parties profile field w
  have hplan := hnoted.run_plain
  unfold drawField
  cases planned with
  | error fault => exact ⟨_, _, _, .unplanned hplan, hnoted.bind_pure rfl rfl⟩
  | ok plan =>
    cases hencode : (parties.encoder (field.encodeRequest plan)).run w₁ with
    | mk encoded w₂ =>
    have hencoder := noted_encoder hencode
    cases encoded with
    | error reason =>
      exact ⟨_, _, _, .unencoded hplan hencode, hnoted.bind (hencoder.bind_pure rfl rfl)⟩
    | ok symbol =>
      cases himage : symbol.image with
      | error reason =>
        refine ⟨_, _, _, .unconverted hplan hencode himage, hnoted.bind (hencoder.bind_pure ?_ ?_)⟩ <;>
          simp only [himage]
      | ok image =>
        cases hdraw : (parties.canvas (field.drawRequest plan symbol.width image)).run w₂ with
        | mk drawn w₃ =>
        have hcanvas := noted_canvas hdraw
        cases drawn with
        | error reason =>
          refine ⟨_, _, _, .undrawn hplan hencode himage hdraw, hnoted.bind (hencoder.bind ?_)⟩
          simp only [himage]
          exact hcanvas.bind_pure rfl rfl
        | ok accepted =>
          refine ⟨_, _, _, .drawn hplan hencode himage hdraw, hnoted.bind (hencoder.bind ?_)⟩
          simp only [himage]
          exact hcanvas.bind_pure rfl rfl

/-! ## What the parties notice -/

/-- What the parties notice of one field, drawn in a world `w` that becomes `w₁`. -/
structure Staged (parties : Parties (StateM σ)) (profile : Option Profile) (field : Field) (w : σ)
    (calls : List Call) (result : Except DrawFault Plan) (w₁ : σ) : Prop where
  /-- The result tells who was asked, each once and in order. -/
  party_calls : calls.map Call.party = asked result
  /-- The font provider is asked for the font and the size of the field's line. -/
  of_measure : ∀ key size, .measure key size ∈ calls → field.lookup profile = .ok (key, size)
  /-- The encoder is asked for what was planned. -/
  of_encode : ∀ request, .encode request ∈ calls →
    ∃ plan, ((field.plan parties.fonts profile).run w).1 = .ok plan ∧ request = field.encodeRequest plan
  /-- The canvas is asked for the image of what was planned, encoded and converted. -/
  of_draw : ∀ request, .draw request ∈ calls →
    ∃ plan w₀ symbol image, (field.plan parties.fonts profile).run w = (.ok plan, w₀) ∧
      ((parties.encoder (field.encodeRequest plan)).run w₀).1 = .ok symbol ∧ symbol.image = .ok image ∧
      request = field.drawRequest plan symbol.width image
  /-- Where the canvas is not asked, what the other parties leave alone stays as it was. -/
  keeps : .canvas ∉ asked result → ∀ {κ : Type} (view : σ → κ),
    (∀ key size w, view ((parties.fonts key size).run w).2 = view w) →
    (∀ request w, view ((parties.encoder request).run w).2 = view w) → view w₁ = view w
  /-- A success is the field's own plan in this world. -/
  plan_eq : ∀ plan, result = .ok plan → ((field.plan parties.fonts profile).run w).1 = .ok plan
  /-- A success is the field's plan in any world, if the answers about fonts hang on no world. -/
  plan_eq_alone : ∀ plan, result = .ok plan → ∀ measure : Text → Single → Except String FontMetrics,
    (∀ key size w, ((parties.fonts key size).run w).1 = measure key size) →
      Id.run (field.plan measure profile) = .ok plan

section Steps

variable {parties : Parties (StateM σ)} {profile : Option Profile} {field : Field} {w w₁ : σ}
  {calls : List Call} {result : Except DrawFault Plan}

theorem Drawing.party_calls (h : Drawing parties profile field w calls result w₁) :
    calls.map Call.party = asked result := by
  cases h with
  | unplanned hplan => exact lookups_party_of_error (congrArg Prod.fst hplan)
  | unencoded hplan | unconverted hplan | undrawn hplan | drawn hplan =>
    rw [List.map_append, lookups_party_of_ok (congrArg Prod.fst hplan)]
    rfl

theorem Drawing.of_measure (h : Drawing parties profile field w calls result w₁) {key : Text} {size : Single}
    (hcall : .measure key size ∈ calls) : field.lookup profile = .ok (key, size) := by
  have hlookups : .measure key size ∈ field.lookups profile := by
    cases h with
    | unplanned => exact hcall
    | unencoded | unconverted | undrawn | drawn => simpa using hcall
  obtain ⟨_, _, hlookup, ⟨⟩⟩ := Field.mem_lookups_iff.mp hlookups
  exact hlookup

theorem encode_not_mem_lookups (request : EncodeRequest) : .encode request ∉ field.lookups profile := by
  simp [Field.mem_lookups_iff]

theorem draw_not_mem_lookups (request : DrawRequest) : .draw request ∉ field.lookups profile := by
  simp [Field.mem_lookups_iff]

theorem Drawing.of_encode (h : Drawing parties profile field w calls result w₁) {request : EncodeRequest}
    (hcall : .encode request ∈ calls) :
    ∃ plan, ((field.plan parties.fonts profile).run w).1 = .ok plan ∧ request = field.encodeRequest plan := by
  cases h with
  | unplanned _ => exact absurd hcall (encode_not_mem_lookups request)
  | unencoded hplan | unconverted hplan | undrawn hplan | drawn hplan =>
    exact ⟨_, congrArg Prod.fst hplan, by simpa [encode_not_mem_lookups] using hcall⟩

theorem Drawing.of_draw (h : Drawing parties profile field w calls result w₁) {request : DrawRequest}
    (hcall : .draw request ∈ calls) :
    ∃ plan w₀ symbol image, (field.plan parties.fonts profile).run w = (.ok plan, w₀) ∧
      ((parties.encoder (field.encodeRequest plan)).run w₀).1 = .ok symbol ∧ symbol.image = .ok image ∧
      request = field.drawRequest plan symbol.width image := by
  cases h with
  | unplanned _ => exact absurd hcall (draw_not_mem_lookups request)
  | unencoded _ _ | unconverted _ _ _ => simp [draw_not_mem_lookups] at hcall
  | undrawn hplan hencode himage | drawn hplan hencode himage =>
    exact ⟨_, _, _, _, hplan, congrArg Prod.fst hencode, himage, by simpa [draw_not_mem_lookups] using hcall⟩

theorem Drawing.keeps (h : Drawing parties profile field w calls result w₁) (hcanvas : .canvas ∉ asked result)
    {κ : Type} {view : σ → κ} (hfonts : ∀ key size w, view ((parties.fonts key size).run w).2 = view w)
    (hencoder : ∀ request w, view ((parties.encoder request).run w).2 = view w) : view w₁ = view w := by
  have hplanned : view ((field.plan parties.fonts profile).run w).2 = view w := plan_run_keeps hfonts
  cases h with
  | unplanned hplan =>
    rw [hplan] at hplanned
    exact hplanned
  | unencoded hplan hencode | unconverted hplan hencode =>
    rw [hplan] at hplanned
    have hencoded := congrArg (fun out : _ × σ => view out.2) hencode
    exact hencoded.symm.trans ((hencoder _ _).trans hplanned)
  | undrawn | drawn => exact absurd (by simp [asked]) hcanvas

theorem Drawing.plan_eq {plan : Plan} (h : Drawing parties profile field w calls (.ok plan) w₁) :
    ((field.plan parties.fonts profile).run w).1 = .ok plan := by
  cases h with
  | drawn hplan => exact congrArg Prod.fst hplan

theorem Drawing.staged (h : Drawing parties profile field w calls result w₁) :
    Staged parties profile field w calls result w₁ where
  party_calls := h.party_calls
  of_measure _ _ := h.of_measure
  of_encode _ := h.of_encode
  of_draw _ := h.of_draw
  keeps hcanvas _ _ := h.keeps hcanvas
  plan_eq := by
    rintro plan rfl
    exact h.plan_eq
  plan_eq_alone := by
    rintro plan rfl measure hmeasure
    rw [← plan_run_of_answers hmeasure]
    exact h.plan_eq

end Steps

/-! ## Runs -/

section Runs

variable {parties : Parties (StateM σ)} {profile : Option Profile} {w w₁ : σ}

/-- What the first fields of a run come to, and the world they leave. -/
def drawnUpTo (parties : Parties (StateM σ)) (profile : Option Profile) (fields : List Field) (w : σ)
    (n : Nat) : List (Except DrawFault Plan) × σ :=
  (drawAll parties profile (fields.take n)).run w

theorem drawnUpTo_zero (fields : List Field) : drawnUpTo parties profile fields w 0 = ([], w) := rfl

theorem drawAll_cons_run {field : Field} {result : Except DrawFault Plan}
    (h : (drawField parties profile field).run w = (result, w₁)) (rest : List Field) :
    (drawAll parties profile (field :: rest)).run w =
      (result :: ((drawAll parties profile rest).run w₁).1, ((drawAll parties profile rest).run w₁).2) := by
  rw [drawAll, List.mapM_cons, run_bind_of_run h]
  rfl

theorem drawnUpTo_cons_succ {field : Field} {result : Except DrawFault Plan}
    (h : (drawField parties profile field).run w = (result, w₁)) (rest : List Field) (n : Nat) :
    drawnUpTo parties profile (field :: rest) w (n + 1) =
      (result :: (drawnUpTo parties profile rest w₁ n).1, (drawnUpTo parties profile rest w₁ n).2) :=
  drawAll_cons_run h (rest.take n)

/-- A run on a canvas that has accepted some draws before. -/
theorem traceFrom_staged (parties : Parties (StateM σ)) (profile : Option Profile) (before : Nat)
    (fields : List Field) (w : σ) :
    ∃ steps, (traceFrom parties profile before fields).run w =
        (steps, ((drawAll parties profile fields).run w).2) ∧
      steps.map Step.result = ((drawAll parties profile fields).run w).1 ∧
      ∀ i (hi : i < fields.length), ∃ step, steps[i]? = some step ∧
        Staged parties profile fields[i] (drawnUpTo parties profile fields w i).2 step.calls step.result
          (drawnUpTo parties profile fields w (i + 1)).2 ∧
        step.drawn = before + (drawnUpTo parties profile fields w (i + 1)).1.countP (·.isOk) := by
  induction fields generalizing before w with
  | nil => exact ⟨[], rfl, rfl, fun i hi => absurd hi (Nat.not_lt_zero i)⟩
  | cons field rest ih =>
    obtain ⟨calls, result, w₁, hdrawing, hnoted⟩ := exists_drawing parties profile field w
    have hplain := hnoted.run_plain
    obtain ⟨steps, hrun, hresults, hsteps⟩ := ih (before + if result.isOk then 1 else 0) w₁
    refine ⟨⟨calls, result, before + if result.isOk then 1 else 0⟩ :: steps, ?_, ?_, ?_⟩
    · rw [traceFrom, run_bind_of_run (hnoted.run_noted ⟨[], before⟩), drawAll_cons_run hplain]
      exact run_bind_of_run hrun
    · rw [drawAll_cons_run hplain, List.map_cons, hresults]
    · intro i hi
      cases i with
      | zero =>
        rw [drawnUpTo_cons_succ hplain, drawnUpTo_zero, drawnUpTo_zero]
        exact ⟨_, rfl, hdrawing.staged, by simp [List.countP_cons]⟩
      | succ i =>
        obtain ⟨step, hstep, hstaged, hdrawn⟩ := hsteps i (Nat.lt_of_succ_lt_succ hi)
        rw [drawnUpTo_cons_succ hplain, drawnUpTo_cons_succ hplain]
        refine ⟨step, hstep, hstaged, ?_⟩
        rw [hdrawn, List.countP_cons]
        omega

/-- **Every field of a run is staged.** The noted run is the plain one; in it each field finds the world that
the fields before it left, asks the parties in their order and as far as its result tells, and leaves the
canvas with as many accepted draws as there are successes so far. -/
theorem traceAll_staged (parties : Parties (StateM σ)) (profile : Option Profile) (fields : List Field)
    (w : σ) :
    ∃ steps, (traceAll parties profile fields).run w = (steps, ((drawAll parties profile fields).run w).2) ∧
      steps.map Step.result = ((drawAll parties profile fields).run w).1 ∧
      ∀ i (hi : i < fields.length), ∃ step, steps[i]? = some step ∧
        step.calls.map Call.party <+: [.fonts, .encoder, .canvas] ∧
        Staged parties profile fields[i] (drawnUpTo parties profile fields w i).2 step.calls step.result
          (drawnUpTo parties profile fields w (i + 1)).2 ∧
        step.drawn = (drawnUpTo parties profile fields w (i + 1)).1.countP (·.isOk) := by
  obtain ⟨steps, hrun, hresults, hsteps⟩ := traceFrom_staged parties profile 0 fields w
  refine ⟨steps, hrun, hresults, fun i hi => ?_⟩
  obtain ⟨step, hstep, hstaged, hdrawn⟩ := hsteps i hi
  refine ⟨step, hstep, ?_, hstaged, hdrawn.trans (Nat.zero_add _)⟩
  rw [hstaged.party_calls]
  exact asked_isPrefix step.result

end Runs

/-- Parties whose canvas jams at its second draw. The world counts what the canvas is asked for. -/
def jammingParties : Parties (StateM Nat) where
  fonts _ _ := return .ok ⟨.ofInt (-8), .ofInt 2⟩
  encoder request := return .ok ⟨request.payload.length.toUInt32, .ok [0]⟩
  canvas _ := modifyGet fun draws => (if draws = 1 then .error "jammed" else .ok (), draws + 1)

/-- The second field is refused and the third one jams. Both leave the count as it was, and the fourth is drawn. -/
theorem traceAll_staged_jammed :
    let field (width : Int) : Field := ⟨.code39, ['7'], .ofInt width, 100, ⟨true, false⟩,
      ⟨.zero false, .zero true, true, .bottom⟩⟩
    let fields := [field 2, field 0, field 2, field 2]
    2 < fields.length ∧ ∃ steps step, (traceAll jammingParties none fields).run 0 = (steps, 3) ∧
      (steps.map Step.result).map (·.isOk) = [true, false, false, true] ∧ steps[2]? = some step ∧
      step.calls.map Call.party = [.fonts, .encoder, .canvas] ∧ step.drawn = 1 := by
  intro field fields
  have hi : 2 < fields.length := by decide
  obtain ⟨steps, hrun, hresults, hsteps⟩ := traceAll_staged jammingParties none fields 0
  obtain ⟨step, hstep, _, hstaged, hdrawn⟩ := hsteps 2 hi
  have hresult : some step.result = some (.error (.canvas "jammed")) :=
    calc some step.result = (steps.map Step.result)[2]? := by rw [List.getElem?_map, hstep]; rfl
      _ = ((drawAll jammingParties none fields).run 0).1[2]? := by rw [hresults]
      _ = some (.error (.canvas "jammed")) := rfl
  refine ⟨hi, steps, step, hrun, ?_, hstep, ?_, hdrawn⟩
  · rw [hresults]
    rfl
  · rw [hstaged.party_calls, Option.some.inj hresult]
    rfl

end BarcodeField
