import BarcodeField.Proofs.Plan.Failure

/-!
# The one look-up of a plan

A plan asks its font provider for metrics, or refuses the field before it asks. The provider may answer in any
monad, so how often it is asked cannot be read off the answer: `FontProvider.listing` writes down each request
before it passes it on, and what it has written is part of the run. To note requests in any other way, as traces of
drawing do, is no different (`plan_noting_run`).

**The law** (`plan_listing_guarded`): a module width that is not above zero is refused and nobody is asked.
Else the provider is asked once, for the profile's line font at the size that follows from the width; a failure
to measure is the fault, whatever else is wrong with the field, and metrics lead to the plan with given metrics.
-/

namespace BarcodeField

variable {m : Type → Type} [Monad m]

/-- A provider that lists what it is asked for, and then answers as it would. -/
def FontProvider.listing (fonts : FontProvider m) : FontProvider (StateT (List (Text × Single)) m) :=
  fonts.noting fun requests request => requests ++ [request]

namespace Field

variable {field : Field} {profile : Option Profile} {fonts : FontProvider m}

/-- What a field asks of font providers: one font at one size, or nothing where its module width is refused. -/
def fontRequests (field : Field) (profile : Option Profile) : List (Text × Single) :=
  match field.lookup profile with
  | .ok request => [request]
  | .error _ => []

theorem fontRequests_of_lookup {request : Text × Single} (h : field.lookup profile = .ok request) :
    field.fontRequests profile = [request] := by
  rw [fontRequests, h]

theorem fontRequests_of_refused {fault : Fault} (h : field.lookup profile = .error fault) :
    field.fontRequests profile = [] := by
  rw [fontRequests, h]

theorem mem_fontRequests_iff_lookup {request : Text × Single} :
    request ∈ field.fontRequests profile ↔ field.lookup profile = .ok request := by
  cases hlookup : field.lookup profile with
  | error fault => simp [fontRequests_of_refused hlookup]
  | ok found => simp [fontRequests_of_lookup hlookup, eq_comm]

theorem mem_fontRequests_iff {key : Text} {size : Single} :
    (key, size) ∈ field.fontRequests profile ↔ .zero false < field.moduleWidth ∧
      key = (profile.getD .standard).lineFont.key ∧
      size = (profile.getD .standard).lineFont.size field.moduleWidth := by
  rw [mem_fontRequests_iff_lookup]
  by_cases hpos : .zero false < field.moduleWidth
  · simp [lookup_of_pos hpos, hpos, eq_comm]
  · simp [lookup_of_not_pos hpos, hpos]

/-- Notes do not interfere, and they are of the field's requests whatever the provider answers. -/
theorem plan_noting_run [LawfulMonad m] {τ : Type} (note : τ → Text × Single → τ) (fonts : FontProvider m)
    (before : τ) :
    (field.plan (fonts.noting note) profile).run before =
      (fun result => (result, (field.fontRequests profile).foldl note before)) <$> field.plan fonts profile := by
  cases hlookup : field.lookup profile with
  | error fault => simp [plan_of_refused hlookup, fontRequests_of_refused hlookup]
  | ok request =>
    obtain ⟨key, size⟩ := request
    rw [plan_of_lookup hlookup, plan_of_lookup hlookup, fontRequests_of_lookup hlookup]
    simp [FontProvider.noting]

/-- The list does not interfere, and it holds the field's requests whatever the provider answers. -/
theorem plan_listing_run [LawfulMonad m] (fonts : FontProvider m) (before : List (Text × Single)) :
    (field.plan fonts.listing profile).run before =
      (fun result => (result, before ++ field.fontRequests profile)) <$> field.plan fonts profile := by
  have happend (requests : List (Text × Single)) :
      requests.foldl (fun requests request => requests ++ [request]) before = before ++ requests := by
    rw [List.foldl_append_eq_append, ← List.flatMap_def, List.flatMap_singleton']
  simp only [FontProvider.listing, plan_noting_run, happend]

/-! ## Answers -/

theorem font_of_planFor {key : Text} {size : Single} {answer : Except String FontMetrics} {plan : Plan}
    (h : field.planFor profile key size answer = .ok plan) :
    plan.font = (profile.getD .standard).lineFont.key ∧
      plan.fontSize = (profile.getD .standard).lineFont.size field.moduleWidth := by
  cases answer with
  | error reason => cases h
  | ok metrics =>
    obtain ⟨_, _, _, rfl⟩ := planWith_eq_ok_iff.mp h
    exact ⟨rfl, rfl⟩

/-- **A plan is one guarded look-up and then a plan with given metrics.** `outcome` is what it comes to, by the
provider's answer. No profile is the standard one, in both steps. -/
theorem plan_listing_guarded [LawfulMonad m] (field : Field) (fonts : FontProvider m)
    (profile : Option Profile) :
    let font := (profile.getD .standard).lineFont
    let size := font.size field.moduleWidth
    field.plan fonts profile = Prod.fst <$> (field.plan fonts.listing profile).run [] ∧
    (¬ .zero false < field.moduleWidth →
      (field.plan fonts.listing profile).run [] = pure (.error (.moduleWidth field.moduleWidth), [])) ∧
    (.zero false < field.moduleWidth →
      ∃ outcome : Except String FontMetrics → Except Fault Plan,
        (field.plan fonts.listing profile).run [] =
          (fun answer => (outcome answer, [(font.key, size)])) <$> fonts font.key size ∧
        (∀ reason, outcome (.error reason) = .error (.font font.key size reason)) ∧
        (∀ metrics, outcome (.ok metrics) = field.planWith metrics profile) ∧
        (∀ metrics fault, outcome (.ok metrics) = .error fault → ∃ flag, fault = .unknownMode flag) ∧
        ∀ answer plan, outcome answer = .ok plan → plan.font = font.key ∧ plan.fontSize = size) ∧
    field.plan fonts none = field.plan fonts (some .standard) ∧
    ∀ metrics, field.planWith metrics none = field.planWith metrics (some .standard) := by
  intro font size
  refine ⟨?_, fun hpos => ?_, fun hpos => ?_, rfl, fun _ => rfl⟩
  · rw [plan_listing_run]
    simp
  · have hrefused : field.lookup profile = .error _ := lookup_of_not_pos hpos
    rw [plan_listing_run, plan_of_refused hrefused, fontRequests_of_refused hrefused]
    simp
  · have hlookup : field.lookup profile = .ok _ := lookup_of_pos hpos
    refine ⟨field.planFor profile font.key size, ?_, fun _ => rfl, fun _ => rfl, ?_, ?_⟩
    · rw [plan_listing_run, plan_of_lookup hlookup, fontRequests_of_lookup hlookup]
      simp [font, size]
    · intro metrics fault hfault
      obtain ⟨_, mode, _, _, hmode⟩ := (planWith_eq_error_iff hpos).mp hfault
      exact ⟨_, hmode⟩
    · intro answer plan hplan
      exact font_of_planFor hplan

/-- A font that cannot be measured is the fault also of a field whose flag is refused once it can be. -/
theorem plan_listing_guarded_unmeasured :
    let p := { Profile.standard with unknownMode := .reject }
    let field : Field := ⟨.code128 (some ['Q']), ['7'], .ofInt 2, 100, ⟨true, false⟩,
      ⟨.zero false, .zero true, true, .bottom⟩⟩
    let fonts : FontProvider (StateM Nat) := fun _ _ => do
      modify (· + 1)
      return .error "no such face"
    let size := p.lineFont.size (.ofInt 2)
    .zero false < field.moduleWidth ∧
      ((field.plan fonts.listing (some p)).run []).run 0 =
        ((.error (.font ['A'] size "no such face"), [(['A'], size)]), 1) ∧
      field.planWith ⟨.ofInt (-8), .ofInt 2⟩ (some p) = .error (.unknownMode ['Q']) := by
  intro p field fonts size
  have hpos : .zero false < field.moduleWidth := Single.isPositive_iff.mp rfl
  obtain ⟨_, _, hasked, _⟩ := plan_listing_guarded field fonts (some p)
  obtain ⟨outcome, hrun, hfault, _⟩ := hasked hpos
  refine ⟨hpos, ?_, ?_⟩
  · rw [hrun]
    exact congrArg (fun result => ((result, [(['A'], size)]), 1)) (hfault "no such face")
  · rw [planWith_eq_error_iff hpos]
    exact ⟨rfl, some ['Q'], rfl, by decide, rfl⟩

end Field

end BarcodeField
