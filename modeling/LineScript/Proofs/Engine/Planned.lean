import LineScript.Proofs.Engine.Worked

/-!
# Arguments that could be expanded

The arguments of a line are planned one after the other, each with the slots that the ones before it made
(`Expansion.planAll_cons_eq_ok`). Where that goes well and there is room, what is planned is written (`Engine.expand_eq_ok`).
-/

namespace LineScript

namespace Expansion

/-- The text that the parts of a name make up. -/
def assembled (view : View) (vars : Variables) (parts : List NamePart) : String :=
  parts.foldl (fun name part => name ++ partText view vars part) ""

/-- A name that is put together is what its parts make up, if that is a name. -/
theorem dynamicName_eq (view : View) (vars : Variables) (parts : List NamePart) :
    dynamicName view vars parts = (Name.validate (assembled view vars parts)).map fun _ => assembled view vars parts :=
  rfl

variable {view : View} {vars vars' : Variables}

/-- The first argument is planned before the others. -/
theorem planAll_cons_eq_ok {arg : Arg} {rest : List Arg} {planned : List (Arg × Planned)} :
    planAll view vars (arg :: rest) = (vars', .ok planned) ↔
      ∃ first others later, plan view vars arg = .ok (later, first) ∧ planAll view later rest = (vars', .ok others) ∧
        planned = (arg, first) :: others := by
  rw [planAll]
  cases hplan : plan view vars arg with
  | error e => exact iff_of_false nofun (by rintro ⟨_, _, _, ⟨⟩, -⟩)
  | ok result =>
    obtain ⟨later, first⟩ := result
    dsimp only
    constructor
    · intro h
      split at h
      · cases h
      · rename_i hrest
        cases h
        exact ⟨first, _, later, rfl, hrest, rfl⟩
    · rintro ⟨_, others, _, ⟨⟩, hrest, rfl⟩
      rw [hrest]

/-- A named output is planned as the slot of its name. -/
theorem plan_output_eq_ok {arg : Arg} {target : Target} {planned : Planned} (hkind : arg.kind = .output)
    (hvar : arg.var? = some target) :
    plan view vars arg = .ok (vars', planned) ↔ ∃ id, slot view vars target = .ok (vars', id) ∧ planned = .output (some id) := by
  rw [plan, hkind]
  simp only [hvar]
  cases slot view vars target with
  | error e => exact iff_of_false nofun (by rintro ⟨_, ⟨⟩, -⟩)
  | ok result =>
    constructor
    · rintro ⟨⟩
      exact ⟨_, rfl, rfl⟩
    · rintro ⟨_, ⟨⟩, rfl⟩
      rfl

end Expansion

/-- Arguments that could be expanded were planned, got their room, and were written. -/
theorem Engine.expand_eq_ok {engine after : Engine} {line : Line} {args : ExpandedArgs} :
    engine.expand line = (after, .ok args) ↔
      ∃ vars planned scratch, Expansion.planAll engine.view engine.vars line.args = (vars, .ok planned) ∧
        engine.scratch.reserve (Expansion.totalSize planned) = .ok scratch ∧ args = planned.map Expansion.write ∧
        after = { engine with vars, scratch := Expansion.hold scratch args } := by
  unfold expand Expansion.expand
  cases Expansion.planAll engine.view engine.vars line.args with
  | mk vars planned =>
    cases planned with
    | error e => exact iff_of_false nofun (by rintro ⟨_, _, _, ⟨⟩, -⟩)
    | ok planned =>
      dsimp only
      cases hreserve : engine.scratch.reserve (Expansion.totalSize planned) with
      | error e =>
        refine iff_of_false nofun ?_
        rintro ⟨_, _, _, ⟨⟩, hscratch, -⟩
        cases hreserve.symm.trans hscratch
      | ok scratch =>
        constructor
        · rintro ⟨⟩
          exact ⟨vars, planned, scratch, rfl, hreserve, rfl, rfl⟩
        · rintro ⟨_, _, _, ⟨⟩, hscratch, rfl, rfl⟩
          cases hreserve.symm.trans hscratch
          rfl

end LineScript
