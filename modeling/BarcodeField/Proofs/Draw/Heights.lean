import BarcodeField.Proofs.Draw.Staging
import BarcodeField.Proofs.Plan.Heights

/-!
# Heights in requests

A plan's heights go to two parties. The encoder is asked for the height that is left for the symbol, and the canvas
for the height that the field requests, with the offset of a line above the symbol. Neither party gets the height of
the line itself, which is what the two heights differ by.

**The law** (`heights_conserved`): the heights of every plan account for the requested one, and drawing passes them
on as they are. So the canvas's height less the encoder's is the height of the line for Code 128, and less than
nothing by as much for Code 39.

The metrics behind a plan are whatever the font provider has answered (`exists_planWith_of_plan_run`), and a plan
balances for any metrics. So nothing has to be known of the provider.
-/

namespace BarcodeField

variable {σ : Type} {parties : Parties (StateM σ)} {profile : Option Profile} {field : Field} {w w₁ : σ}
  {plan : Plan}

/-! ## Plans and calls -/

/-- A plan is one for metrics that the provider has answered. -/
theorem exists_planWith_of_plan_run {fonts : FontProvider (StateM σ)}
    (h : ((field.plan fonts profile).run w).1 = .ok plan) :
    ∃ metrics, field.planWith metrics profile = .ok plan := by
  cases hlookup : field.lookup profile with
  | error fault =>
    rw [plan_run_of_refused hlookup] at h
    cases h
  | ok found =>
    rw [plan_run_of_lookup hlookup] at h
    cases hanswer : ((fonts found.1 found.2).run w).1 with
    | error reason =>
      rw [hanswer] at h
      cases h
    | ok metrics =>
      rw [hanswer] at h
      exact ⟨metrics, h⟩

/-- A field that has a plan is encoded by it. The canvas is asked once for the same plan, or its turn does not come. -/
theorem Drawing.calls_of_plan {calls : List Call} {result : Except DrawFault Plan}
    (h : Drawing parties profile field w calls result w₁)
    (hplan : ((field.plan parties.fonts profile).run w).1 = .ok plan) :
    (calls = field.lookups profile ++ [.encode (field.encodeRequest plan)] ∧ .canvas ∉ asked result) ∨
      ∃ width image, calls = field.lookups profile ++
        [.encode (field.encodeRequest plan), .draw (field.drawRequest plan width image)] := by
  have hsame {other : Plan} {w' : σ} (hother : (field.plan parties.fonts profile).run w = (.ok other, w')) :
      other = plan := by
    rw [hother] at hplan
    exact Except.ok.inj hplan
  cases h with
  | unplanned hnone =>
    rw [hnone] at hplan
    cases hplan
  | unencoded hother =>
    obtain rfl := hsame hother
    exact .inl ⟨rfl, by simp [asked]⟩
  | unconverted hother =>
    obtain rfl := hsame hother
    exact .inl ⟨rfl, by simp [asked]⟩
  | undrawn hother | drawn hother =>
    obtain rfl := hsame hother
    exact .inr ⟨_, _, rfl⟩

/-! ## Heights that are passed on -/

/-- The two parties' heights differ by the height of the line. -/
theorem Field.Balanced.height_sub (h : field.Balanced plan) :
    field.height.toInt - plan.symbolHeight.toInt =
      if field.kind.isCode128 then plan.line.height.toInt else -plan.line.height.toInt := by
  cases hkind : field.kind with
  | code128 mode =>
    have hsum := h.code128 mode hkind
    simp only [FieldKind.isCode128, if_true]
    omega
  | code39 =>
    have hdifference := h.code39 hkind
    simp only [FieldKind.isCode128, Bool.false_eq_true, if_false]
    omega

/-- **Heights are conserved from planning to drawing**, whatever a line font measures and however the parties
answer, if the symbol's height can be held at all. -/
theorem heights_conserved (field : Field) (profile : Option Profile) :
    (∀ metrics plan, field.planWith metrics profile = .ok plan →
      IsHeight (field.exactSymbolHeight plan.line.height) → field.Balanced plan) ∧
    ∀ (σ : Type) (parties : Parties (StateM σ)) (w : σ) (plan : Plan),
      ((field.plan parties.fonts profile).run w).1 = .ok plan →
      IsHeight (field.exactSymbolHeight plan.line.height) →
      field.Balanced plan ∧
      ∃ result trace w₁ encoded rest,
        ((drawField parties.traced profile field).run ⟨[], 0⟩).run w = ((result, trace), w₁) ∧
        trace.calls = field.lookups profile ++ .encode encoded :: rest ∧ encoded.height = plan.symbolHeight ∧
        (rest = [] ∧ .canvas ∉ asked result ∨
          ∃ request, rest = [.draw request] ∧ request.height = field.height ∧
            request.lineOffset = plan.line.offset ∧
            request.height.toInt - encoded.height.toInt =
              if field.kind.isCode128 then plan.line.height.toInt else -plan.line.height.toInt) := by
  constructor
  · intro metrics plan hplan hheight
    exact Field.balanced_of_planWith hplan hheight
  · intro σ parties w plan hplan hheight
    obtain ⟨metrics, hmetrics⟩ := exists_planWith_of_plan_run hplan
    have hbalanced : field.Balanced plan := Field.balanced_of_planWith hmetrics hheight
    obtain ⟨calls, result, w₁, hdrawing, hnoted⟩ := exists_drawing parties profile field w
    have hrun := hnoted.run_noted ⟨[], 0⟩
    rcases hdrawing.calls_of_plan hplan with ⟨rfl, hcanvas⟩ | ⟨width, image, rfl⟩
    · exact ⟨hbalanced, result, _, w₁, _, [], hrun, rfl, rfl, .inl ⟨rfl, hcanvas⟩⟩
    · exact ⟨hbalanced, result, _, w₁, _, _, hrun, rfl, rfl, .inr ⟨_, rfl, rfl, rfl, hbalanced.height_sub⟩⟩

/-- Letters that reach up without end take all the dots that a height can hold, and leave a Code 128 symbol less than
nothing. Metrics of the wrong sign give the line of a Code 39 field a height, which goes to the encoder alone. -/
theorem heights_conserved_extremes :
    let field (kind : FieldKind) : Field :=
      ⟨kind, ['7'], .ofInt 2, 100, ⟨true, true⟩, ⟨.zero false, .zero true, true, .bottom⟩⟩
    let endless := field (.code128 (some ['A']))
    let upright := field .code39
    let parties : Parties (StateM Nat) :=
      { fonts := fun _ _ => return .ok ⟨.ofInt 10, .ofInt 3⟩
        encoder := fun _ => return .ok ⟨240, .ok [0]⟩
        canvas := fun _ => modifyGet fun draws => (.ok (), draws + 1) }
    (∃ plan, endless.planWith ⟨.infinity true, .ofInt 3⟩ none = .ok plan ∧
      IsHeight (endless.exactSymbolHeight plan.line.height) ∧ plan.line.height = 2147483647 ∧
      plan.symbolHeight = -2147483547 ∧ endless.Balanced plan) ∧
    ∃ plan, ((upright.plan parties.fonts none).run 0).1 = .ok plan ∧
      IsHeight (upright.exactSymbolHeight plan.line.height) ∧ plan.line.height = 13 ∧ upright.Balanced plan ∧
      ∃ result trace w₁ encoded request,
        ((drawField parties.traced none upright).run ⟨[], 0⟩).run 0 = ((result, trace), w₁) ∧
        trace.calls = upright.lookups none ++ [.encode encoded, .draw request] ∧
        request.height.toInt - encoded.height.toInt = -13 := by
  intro field endless upright parties
  constructor
  · have hpos : .zero false < endless.moduleWidth := Single.isPositive_iff.mp rfl
    have hcontent : endless.content none = .ok ⟨.code128Auto, ['7'], ['7']⟩ := by
      show Code128.content .normal (.ofFlag (some ['A'])) ['7'] = _
      cbv
    have hplan := Field.planWith_of_content hpos hcontent ⟨.infinity true, .ofInt 3⟩
    obtain ⟨hbalanced, _⟩ := heights_conserved endless none
    exact ⟨_, hplan, by decide, by decide, by decide, hbalanced _ _ hplan (by decide)⟩
  · obtain ⟨_, hpassed⟩ := heights_conserved upright none
    obtain ⟨hbalanced, result, trace, w₁, encoded, rest, hrun, hcalls, _, hrest⟩ :=
      hpassed _ parties 0 _ rfl (by decide)
    refine ⟨_, rfl, by decide, by decide, hbalanced, result, trace, w₁, encoded, ?_⟩
    -- nothing fails here, so the canvas has its turn
    have hok : result.isOk = true := congrArg (fun out => out.1.1.isOk) hrun.symm
    rcases hrest with ⟨_, hcanvas⟩ | ⟨request, hrequest, _, _, hdifference⟩
    · cases result with
      | error fault => cases hok
      | ok plan => exact absurd (by simp [asked]) hcanvas
    · rw [hrequest] at hcalls
      exact ⟨request, hrun, hcalls, hdifference⟩

end BarcodeField
