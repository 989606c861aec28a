import BarcodeField.Draw.Trace
import BarcodeField.Proofs.Plan.Lookup

/-!
# Noted calls

`Parties.traced` puts a note before each call and counts the draws that a canvas accepts. What is said of a
noted run must hold of the plain one, which keeps no notes.

**The law** (`Noted.bind`): a noted action and the plain one that it stands for, brought together by `Noted`,
stay together along a program. They answer alike and leave the same world, and the notes tell the calls that
both have made. The parties share that world and may answer by all that has happened in it.
-/

namespace BarcodeField

variable {σ α β : Type} {parties : Parties (StateM σ)} {profile : Option Profile} {field : Field} {w w₁ : σ}

/-- In a world, an action and its noted counterpart answer alike and leave the same world, and the notes are
of these calls and of so many accepted draws. -/
structure Noted (plain : StateM σ α) (noted : StateT Trace (StateM σ) α) (w : σ) (calls : List Call)
    (drawn : Nat) (a : α) (w₁ : σ) : Prop where
  run_plain : plain.run w = (a, w₁)
  run_noted : ∀ t : Trace, (noted.run t).run w = ((a, ⟨t.calls ++ calls, t.drawn + drawn⟩), w₁)

theorem run_bind_of_run {x : StateM σ α} {f : α → StateM σ β} {a : α} (h : x.run w = (a, w₁)) :
    (x >>= f).run w = (f a).run w₁ :=
  congrArg (fun out : α × σ => (f out.1).run out.2) h

/-- Calls come one after the other; draws are accepted at the end. -/
theorem Noted.bind {x : StateM σ α} {y : StateT Trace (StateM σ) α} {f : α → StateM σ β}
    {g : α → StateT Trace (StateM σ) β} {calls₁ calls₂ : List Call} {drawn : Nat} {a : α} {b : β} {w₂ : σ}
    (h : Noted x y w calls₁ 0 a w₁) (hrest : Noted (f a) (g a) w₁ calls₂ drawn b w₂) :
    Noted (x >>= f) (y >>= g) w (calls₁ ++ calls₂) drawn b w₂ where
  run_plain := by rw [run_bind_of_run h.run_plain, hrest.run_plain]
  run_noted t := by
    rw [StateT.run_bind, run_bind_of_run (h.run_noted t), hrest.run_noted, List.append_assoc]
    rfl

theorem Noted.bind_pure {x : StateM σ α} {y : StateT Trace (StateM σ) α} {f : α → StateM σ β}
    {g : α → StateT Trace (StateM σ) β} {calls : List Call} {drawn : Nat} {a : α} {b : β}
    (h : Noted x y w calls drawn a w₁) (hf : f a = pure b) (hg : g a = pure b) :
    Noted (x >>= f) (y >>= g) w calls drawn b w₁ where
  run_plain := by
    rw [run_bind_of_run h.run_plain, hf]
    rfl
  run_noted t := by
    rw [StateT.run_bind, run_bind_of_run (h.run_noted t), hg]
    rfl

/-! ## The parties -/

theorem noted_encoder {request : EncodeRequest} {answer : Except String Symbol}
    (h : (parties.encoder request).run w = (answer, w₁)) :
    Noted (parties.encoder request) (parties.traced.encoder request) w [.encode request] 0 answer w₁ :=
  ⟨h, fun t => congrArg (fun out : _ × σ => ((out.1, t.note (.encode request)), out.2)) h⟩

theorem noted_canvas {request : DrawRequest} {answer : Except String Unit}
    (h : (parties.canvas request).run w = (answer, w₁)) :
    Noted (parties.canvas request) (parties.traced.canvas request) w [.draw request]
      (if answer.isOk then 1 else 0) answer w₁ := by
  refine ⟨h, fun t => ?_⟩
  have hnote : ((parties.traced.canvas request).run t).run w =
      ((answer, (t.note (.draw request)).count answer), w₁) :=
    congrArg (fun out : _ × σ => ((out.1, (t.note (.draw request)).count out.1), out.2)) h
  rw [hnote]
  cases answer <;> rfl

/-- The font lookups of a field, as calls. -/
def Field.lookups (field : Field) (profile : Option Profile) : List Call :=
  (field.fontRequests profile).map fun request => .measure request.1 request.2

theorem Field.mem_lookups_iff {call : Call} :
    call ∈ field.lookups profile ↔
      ∃ key size, field.lookup profile = .ok (key, size) ∧ call = .measure key size := by
  simp [lookups, mem_fontRequests_iff_lookup, eq_comm]

theorem foldl_note (requests : List (Text × Single)) (t : Trace) :
    requests.foldl (fun trace request => trace.note (.measure request.1 request.2)) t =
      ⟨t.calls ++ requests.map fun request => .measure request.1 request.2, t.drawn⟩ := by
  induction requests generalizing t with
  | nil => simp
  | cons request requests ih =>
    rw [List.foldl_cons, ih, Trace.note, List.map_cons, List.append_assoc]
    rfl

theorem noted_plan (parties : Parties (StateM σ)) (profile : Option Profile) (field : Field) (w : σ) :
    ∃ result w₁, Noted (field.plan parties.fonts profile) (field.plan parties.traced.fonts profile) w
      (field.lookups profile) 0 result w₁ := by
  refine ⟨((field.plan parties.fonts profile).run w).1, ((field.plan parties.fonts profile).run w).2, rfl,
    fun t => ?_⟩
  have hnotes : (field.plan parties.traced.fonts profile).run t =
      (fun result => (result, ⟨t.calls ++ field.lookups profile, t.drawn⟩)) <$> field.plan parties.fonts profile := by
    rw [Field.lookups, ← foldl_note]
    exact Field.plan_noting_run (fun trace request => trace.note (.measure request.1 request.2)) parties.fonts t
  rw [hnotes]
  rfl

end BarcodeField
