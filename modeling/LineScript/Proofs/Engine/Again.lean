import Mathlib.Data.List.Basic
import Mathlib.Logic.Function.Iterate
import LineScript.Command.Standard
import LineScript.Proofs.Engine.Failing
import LineScript.Proofs.Engine.Planned
import LineScript.Proofs.Engine.Seen
import LineScript.Proofs.Expr.Naming
import LineScript.Proofs.Load.Arguments

/-!
# Expanding again

Expanding the arguments of a line may name variables for the first time. Nothing that the line reads changes by that: a new slot is
as empty as a name without a slot, and no slot is made after an expression has looked for names (`Builder.pairwise_buildArgs`). So a
line that is expanded again, once what it wrote was given back, comes to the same arguments, makes no more slots and needs no more
room (`Program.expands_again`). Only the clock goes on in between, which shows in lines that ask for it (`Line.Asks`).
-/

namespace LineScript

open Expansion

/-! ## What a line asks for -/

/-- A part of a name asks for what an engine variable holds. -/
def NamePart.Asks (vars : Variables) (b : Builtin) : NamePart → Prop
  | .literal _ => False
  | .var id => vars.builtin? id = some b

/-- A reference asks for what an engine variable holds: it is to it, or its name is put together from it or comes to it. -/
def Target.Asks (view : View) (vars : Variables) (b : Builtin) : Target → Prop
  | .static id => vars.builtin? id = some b
  | .dynamic parts => (∃ part ∈ parts, part.Asks vars b) ∨ Builtin.ofName? (assembled view vars parts) = some b ∨
      (vars.find? (assembled view vars parts)).bind vars.builtin? = some b

/-- A line asks for what an engine variable holds. -/
def Line.Asks (engine : Engine) (b : Builtin) (line : Line) : Prop :=
  ∃ arg ∈ line.args, ∃ deref ∈ arg.derefs, deref.target.Asks engine.view engine.vars b

instance (vars : Variables) (b : Builtin) : (part : NamePart) → Decidable (part.Asks vars b)
  | .literal _ => isFalse id
  | .var id => inferInstanceAs (Decidable (vars.builtin? id = some b))

instance (view : View) (vars : Variables) (b : Builtin) : (target : Target) → Decidable (target.Asks view vars b)
  | .static id => inferInstanceAs (Decidable (vars.builtin? id = some b))
  | .dynamic parts => inferInstanceAs (Decidable ((∃ part ∈ parts, part.Asks vars b) ∨
      Builtin.ofName? (assembled view vars parts) = some b ∨
      (vars.find? (assembled view vars parts)).bind vars.builtin? = some b))

instance (engine : Engine) (b : Builtin) (line : Line) : Decidable (line.Asks engine b) :=
  inferInstanceAs (Decidable (∃ arg ∈ line.args, ∃ deref ∈ arg.derefs, deref.target.Asks engine.view engine.vars b))

/-! ## Looking up again -/

namespace Expansion

section

variable {view view' : View} {vars vars' : Variables} (hpads : vars.Pads vars')
include hpads

/-- A slot reads as before where empty ones are added. -/
theorem read_again {id : VarId} (hlt : id < vars.size) (hview : ∀ b, vars'.builtin? id = some b → view' b = view b) :
    read view' vars' id = read view vars id := by
  have hslot : vars.slots[id]? = some vars.slots[id] := Array.getElem?_eq_getElem hlt
  have hslot' := hpads.keeps id _ (fun h => h) hslot
  simp only [Variables.builtin?, hslot'] at hview
  simp only [read, Variables.builtin?, Variables.get, hslot, hslot']
  cases hbuiltin : vars.slots[id].builtin with
  | none => simp [hbuiltin]
  | some b => simpa [hbuiltin] using hview b (by simp [hbuiltin])

/-- A name that is put together from slots of a table is the same where empty slots are added and the engine variables it asks for
read as before. -/
theorem assembled_again {parts : List NamePart} (hwithin : (Target.dynamic parts).Within vars.size)
    (hview : ∀ b, (∃ part ∈ parts, part.Asks vars' b) → view' b = view b) :
    assembled view' vars' parts = assembled view vars parts := by
  refine List.foldl_ext _ _ _ fun name part hpart => ?_
  cases part with
  | literal s => rfl
  | var id => rw [partText, partText, read_again hpads (hwithin id hpart) fun b hb => hview b ⟨_, hpart, hb⟩]

/-- Free text that names its variables outright reads as before. -/
theorem operands_again {derefs : List Deref} (hstatic : ∀ deref ∈ derefs, ∃ id, deref.target = .static id)
    (hwithin : ∀ deref ∈ derefs, deref.target.Within vars.size)
    (hview : ∀ b, (∃ deref ∈ derefs, deref.target.Asks view vars' b) → view' b = view b) :
    operands view' vars' derefs = operands view vars derefs := by
  induction derefs with
  | nil => rfl
  | cons deref rest ih =>
    obtain ⟨id, hid⟩ := hstatic deref List.mem_cons_self
    have hlt : id < vars.size := by
      have hfirst := hwithin deref List.mem_cons_self
      rwa [hid] at hfirst
    have hread : read view' vars' id = read view vars id :=
      read_again hpads hlt fun b hb => hview b ⟨deref, List.mem_cons_self, by rw [hid]; exact hb⟩
    have hrest := ih (fun d hd => hstatic d (List.mem_cons_of_mem _ hd)) (fun d hd => hwithin d (List.mem_cons_of_mem _ hd))
      fun b ⟨d, hd, hb⟩ => hview b ⟨d, List.mem_cons_of_mem _ hd, hb⟩
    simp only [operands, hid, operand, hread, hrest]

end

section

variable {view view' : View} {vars vars₁ vars' : Variables} {target : Target} (hwithin : target.Within vars.size)
include hwithin

/-- A reference reads as before in the same table. -/
theorem operand_again (hview : ∀ b, target.Asks view vars b → view' b = view b) :
    operand view' vars target = operand view vars target := by
  cases target with
  | static id => rw [operand, operand, read_again (.refl vars) hwithin hview]
  | dynamic parts =>
    have hname : assembled view' vars parts = assembled view vars parts :=
      assembled_again (.refl vars) hwithin fun b hb => hview b (.inl hb)
    simp only [operand, dynamicName_eq, hname]
    cases Name.validate (assembled view vars parts) with
    | error e => rfl
    | ok _ =>
      cases hbuiltin : Builtin.ofName? (assembled view vars parts) with
      | some b => simp only [Except.map, hbuiltin, hview b (.inr (.inl hbuiltin))]
      | none =>
        cases hfind : vars.find? (assembled view vars parts) with
        | none => simp only [Except.map, hbuiltin, hfind, Option.map_none]
        | some id =>
          have hread : read view' vars id = read view vars id := by
            refine read_again (.refl vars) (Reference.lt_of_findKey? hfind) fun b hb => hview b (.inr (.inr ?_))
            rw [hfind]
            exact hb
          simp only [Except.map, hbuiltin, hfind, Option.map_some, hread]

/-- The slot that a reference was given is found again, and reads as it did when it was given. -/
theorem slot_again {id : VarId} (h : slot view vars target = .ok (vars₁, id)) (hpads : vars₁.Pads vars')
    (hview : ∀ b, target.Asks view vars' b → view' b = view b) :
    slot view' vars' target = .ok (vars', id) ∧ read view' vars' id = read view vars₁ id := by
  have hfirst : vars.Pads vars₁ := Variables.pads_of_resolves (resolves_slot h)
  cases target with
  | static id =>
    cases h
    exact ⟨rfl, read_again hpads hwithin hview⟩
  | dynamic parts =>
    have hname : assembled view' vars' parts = assembled view vars parts :=
      assembled_again (hfirst.trans hpads) hwithin fun b hb => hview b (.inl hb)
    have hname' : assembled view vars' parts = assembled view vars parts :=
      assembled_again (hfirst.trans hpads) hwithin fun _ _ => rfl
    simp only [slot, dynamicName_eq] at h
    cases hvalid : Name.validate (assembled view vars parts) with
    | error e =>
      rw [hvalid] at h
      cases h
    | ok _ =>
      cases hresolve : vars.resolve (assembled view vars parts) with
      | error e =>
        simp only [hvalid, Except.map, hresolve] at h
        cases h
      | ok result =>
        simp only [hvalid, Except.map, hresolve] at h
        cases h
        have hfind := hpads.extends.find? (Variables.find?_of_resolve hresolve)
        refine ⟨?_, read_again hpads (Reference.lt_of_resolve hresolve) fun b hb => hview b (.inr (.inr ?_))⟩
        · simp only [slot, dynamicName_eq, hname, hvalid, Except.map, Variables.resolve_of_find? hfind]
        · rw [hname', hfind]
          exact hb

end

/-- Texts name nothing for the first time. -/
theorem vars_of_texts {view : View} {vars vars' : Variables} {args : List Arg} {planned : List (Arg × Planned)}
    (hargs : ∀ arg ∈ args, arg.kind = .text) (h : planAll view vars args = (vars', .ok planned)) : vars' = vars := by
  induction args generalizing vars planned with
  | nil =>
    cases h
    rfl
  | cons arg rest ih =>
    obtain ⟨first, others, later, hplan, hrest, rfl⟩ := planAll_cons_eq_ok.mp h
    rw [ih (fun arg harg => hargs arg (List.mem_cons_of_mem _ harg)) hrest]
    rw [plan, hargs arg List.mem_cons_self] at hplan
    dsimp only at hplan
    split at hplan
    all_goals
      obtain ⟨_, -, hplan⟩ := map_eq_ok hplan
      cases hplan
      rfl

section

variable {view view' : View} {vars vars' : Variables}

/-- An argument is planned as before. Where it is an expression no slot was made since. -/
theorem plan_again {vars₁ : Variables} {arg : Arg} {planned : Planned}
    (hwithin : ∀ deref ∈ arg.derefs, deref.target.Within vars.size)
    (hdirect : arg.kind = .text → arg.isExpr = false → arg.Direct)
    (hview : ∀ b, (∃ deref ∈ arg.derefs, deref.target.Asks view vars' b) → view' b = view b)
    (h : plan view vars arg = .ok (vars₁, planned)) (hpads : vars₁.Pads vars') (hexpr : arg.isExpr = true → vars' = vars₁) :
    plan view' vars' arg = .ok (vars', planned) := by
  have htarget {target : Target} (hvar : arg.var? = some target) : ∃ deref ∈ arg.derefs, deref.target = target := by
    unfold Arg.var? at hvar
    split at hvar
    · cases hvar
    all_goals
      obtain ⟨deref, hhead, rfl⟩ := Option.map_eq_some_iff.mp hvar
      exact ⟨deref, List.mem_of_head? hhead, rfl⟩
  have hslots {target : Target} {id : VarId} {later : Variables} (hvar : arg.var? = some target)
      (hslot : slot view vars target = .ok (later, id)) (hpads : later.Pads vars') :
      slot view' vars' target = .ok (vars', id) ∧ read view' vars' id = read view later id := by
    obtain ⟨deref, hderef, rfl⟩ := htarget hvar
    exact slot_again (hwithin deref hderef) hslot hpads fun b hb => hview b ⟨deref, hderef, hb⟩
  unfold plan at h ⊢
  split at h <;> rename_i hkind
  · cases hvar : arg.var? with
    | none =>
      rw [hvar] at h
      cases h
      rfl
    | some target =>
      simp only [hvar] at h
      split at h
      · cases h
      · rename_i hslot
        cases h
        simp only [(hslots hvar hslot hpads).1]
  · cases hvar : arg.var? with
    | none =>
      rw [hvar] at h
      cases h
      rfl
    | some target =>
      simp only [hvar] at h
      split at h
      · cases h
      · rename_i hslot
        cases h
        obtain ⟨hagain, hread⟩ := hslots hvar hslot hpads
        simp only [hagain, hread]
  · split at h
    · rename_i hisExpr
      obtain ⟨v, hv, h⟩ := map_eq_ok h
      cases h
      obtain rfl := hexpr hisExpr
      have hlookup : ∀ deref ∈ arg.derefs, operand view' vars' deref.target = operand view vars' deref.target :=
        fun deref hderef => operand_again (hwithin deref hderef) fun b hb => hview b ⟨deref, hderef, hb⟩
      rw [if_pos hisExpr, Expr.evaluate_congr hlookup, hv]
      rfl
    · rename_i hplain
      obtain ⟨values, hvalues, h⟩ := map_eq_ok h
      cases h
      have hstatic := (hdirect hkind (Bool.eq_false_iff.mpr hplain)).static
      rw [if_neg hplain, operands_again hpads hstatic hwithin hview, hvalues]
      rfl

/-- All arguments are planned as before. -/
theorem planAll_again {args : List Arg} {planned : List (Arg × Planned)}
    (hwithin : ∀ arg ∈ args, ∀ deref ∈ arg.derefs, deref.target.Within vars.size)
    (hdirect : ∀ arg ∈ args, arg.kind = .text → arg.isExpr = false → arg.Direct)
    (hpairs : args.Pairwise fun arg later => arg.isExpr = true → later.kind = .text)
    (hview : ∀ b, (∃ arg ∈ args, ∃ deref ∈ arg.derefs, deref.target.Asks view vars' b) → view' b = view b)
    (h : planAll view vars args = (vars', .ok planned)) : planAll view' vars' args = (vars', .ok planned) := by
  induction args generalizing vars planned with
  | nil =>
    cases h
    rfl
  | cons arg rest ih =>
    obtain ⟨first, others, later, hplan, hrest, rfl⟩ := planAll_cons_eq_ok.mp h
    obtain ⟨htexts, hpairs⟩ := List.pairwise_cons.mp hpairs
    have hfirst := Variables.pads_of_resolves (resolves_plan hplan)
    have hlater := pads_planAll view later rest
    rw [hrest] at hlater
    have hagain := plan_again (hwithin arg List.mem_cons_self) (hdirect arg List.mem_cons_self)
      (fun b hb => hview b ⟨arg, List.mem_cons_self, hb⟩) hplan hlater
      fun hexpr => vars_of_texts (fun given hgiven => htexts given hgiven hexpr) hrest
    have hothers := ih
      (fun given hgiven deref hderef =>
        (hwithin given (List.mem_cons_of_mem _ hgiven) deref hderef).mono hfirst.extends.size_le)
      (fun given hgiven => hdirect given (List.mem_cons_of_mem _ hgiven)) hpairs
      (fun b ⟨given, hgiven, hb⟩ => hview b ⟨given, List.mem_cons_of_mem _ hgiven, hb⟩) hrest
    exact planAll_cons_eq_ok.mpr ⟨first, others, vars', hagain, hothers, rfl⟩

end

end Expansion

/-! ## Writing again -/

/-- What was written since a mark is given back by going to it. -/
theorem Scratch.pieces_release {s later : Scratch} (h : s.pieces <:+ later.pieces) :
    (later.release s.mark).pieces = s.pieces :=
  (List.suffix_iff_eq_drop.mp h).symm

/-- A buffer is known by its pieces, its room and its ceiling. -/
theorem Scratch.eq_of_parts {s s' : Scratch} (hpieces : s'.pieces = s.pieces) (hcapacity : s'.capacity = s.capacity)
    (hlimit : s'.limit = s.limit) : s' = s := by
  cases s
  cases s'
  cases hpieces
  cases hcapacity
  cases hlimit
  rfl

/-- Texts that were written fit where they were given back, and are written there as before. -/
theorem Scratch.hold_again (args : ExpandedArgs) {s grown : Scratch} (hpieces : grown.pieces = s.pieces)
    (hsize : grown.size ≤ grown.capacity) :
    let again := (hold grown args).release s.mark
    again.reserve (args.map heldSize).sum = .ok again ∧ hold again args = hold grown args := by
  intro again
  have hagain : again.pieces = grown.pieces := by
    rw [hpieces]
    exact pieces_release (hpieces ▸ suffix_hold grown args)
  have hfits : again.size + (args.map heldSize).sum ≤ again.capacity := by
    have hheld := (capacity_le_hold grown args).2 hsize
    rw [size_hold] at hheld
    rwa [size, hagain, ← size]
  refine ⟨?_, ?_⟩
  · rw [reserve]
    exact if_pos (Nat.le_trans (Nat.min_le_right _ _) hfits)
  · have hcapacity : (hold again args).capacity = (hold grown args).capacity := capacity_hold hfits
    have hlimit : (hold again args).limit = (hold grown args).limit := limit_hold again args
    exact eq_of_parts (pieces_hold_congr hagain args) hcapacity hlimit

/-- A state that lines may be expanded in: the slots of the program are there, and the buffer has room for what it holds. -/
structure Engine.Ready (vars : Variables) (now : Engine) : Prop where
  slots : vars.Extends now.vars
  room : now.scratch.size ≤ now.scratch.capacity

namespace Program

open Machine

/-- Expanding a line of a loaded program twice is the same as once. In every state that a run comes to, and in every other one that
has the slots of the program and room for the texts it holds, a line whose arguments could be expanded can be expanded again after
what it wrote was given back. It then gets the same arguments, and the variables and the buffer are as they were after the first
time. The clock may have gone on in between, unless the line asks for it. -/
theorem expands_again {commands : CommandSet} {items : List Item} {program : Program}
    (hload : load commands items = .ok program) (config : Config) (perform : Performer) (world : World) :
    let setup := (Engine.start program config perform world).1
    let engine := (Engine.start program config perform world).2
    (∀ machine, Reachable setup engine machine → machine.engine.Ready program.vars) ∧
    ∀ (now after : Engine) (id : LineId) (args : ExpandedArgs), now.Ready program.vars →
      now.expand (program.script.line id) = (after, .ok args) →
      ∀ time, ((program.script.line id).Asks after .tickCount → time = now.world.now) →
        let again := { after with
          scratch := after.scratch.release now.scratch.mark, world := { after.world with now := time } }
        again.expand (program.script.line id) = ({ again with scratch := after.scratch }, .ok args) := by
  intro setup engine
  have hrefers : ∀ id, ∀ arg ∈ (program.script.line id).args, arg.Refers program.vars.size := refers_of_load hload
  refine ⟨fun machine hreach => ⟨?_, (hreach.grows hrefers).size_le (Nat.le_refl _)⟩, ?_⟩
  · exact (Variables.extends_intern program.vars Engine.errorLevelName).trans hreach.extends
  · intro now after id args hready hexpand time htime again
    obtain ⟨vars, planned, grown, hplanned, hreserve, rfl, rfl⟩ := Engine.expand_eq_ok.mp hexpand
    have hread := readFor_of_load hload id
    obtain ⟨_, _, _, _, _, _, hbuilt, -⟩ := builtArgs_of_load hload id
    have hview : ∀ b, (∃ arg ∈ (program.script.line id).args, ∃ deref ∈ arg.derefs,
        deref.target.Asks now.view vars b) → again.view b = now.view b := by
      intro b hasks
      by_cases hclock : b = .tickCount
      · subst hclock
        simp only [again, Engine.view, htime hasks]
      · cases b <;> first | rfl | exact absurd rfl hclock
    have hagain := planAll_again
      (fun arg harg deref hderef => ((hread arg harg).within deref hderef).mono hready.slots.size_le)
      (fun arg harg => (hread arg harg).direct_of_text) (Builder.pairwise_buildArgs hbuilt) hview hplanned
    have htotal := totalSize_eq (fits_planAll (hrefers id) hplanned)
    rw [htotal] at hreserve
    have hpieces := Scratch.pieces_reserve hreserve
    have hsize : grown.size ≤ grown.capacity := by
      rw [Scratch.size, hpieces, ← Scratch.size]
      exact Nat.le_trans hready.room (Scratch.capacity_le_reserve hreserve)
    obtain ⟨hroom, hheld⟩ := Scratch.hold_again (planned.map write) hpieces hsize
    refine Engine.expand_eq_ok.mpr ⟨vars, planned, again.scratch, hagain, ?_, rfl, ?_⟩
    · rw [htotal]
      exact hroom
    · rw [← hheld]

/-- A program that reads a name while it is given its slot, and another name that has none. -/
def readWhileNamed : List Item :=
  let assign (name value : String) : Item := .statement { keyword := ":=", args := [.plain name, .plain value], lineNo := 1 } []
  [assign "n" "1", assign "item%n%" "Item%n% . n . other%n%"]

/-- After some steps of `readWhileNamed`, expanding its second line makes one variable more. -/
theorem readWhileNamed_expands :
    (match load Standard.commands readWhileNamed with
    | .ok program =>
      let (setup, engine) := Engine.start program {} Standard.perform default
      let machine := (step setup)^[5] (HostCall.autoExecute.start setup engine)
      match machine.engine.expand (program.script.line 1) with
      | (after, .ok args) => after.vars.size == machine.engine.vars.size + 1 && args.texts == ["", "1"] &&
          decide (¬ (program.script.line 1).Asks after .tickCount)
      | (_, .error _) => false
    | .error _ => false) = true := by
  decide +kernel

/-- Whenever that line is expanded again, it reads the same and names nothing more. -/
theorem expands_again_readWhileNamed :
    ∃ program, load Standard.commands readWhileNamed = .ok program ∧
      let setup := (Engine.start program {} Standard.perform default).1
      let engine := (Engine.start program {} Standard.perform default).2
      let machine := (step setup)^[5] (HostCall.autoExecute.start setup engine)
      ∃ after args, machine.engine.expand (program.script.line 1) = (after, .ok args) ∧
        after.vars.size = machine.engine.vars.size + 1 ∧ args.texts = ["", "1"] ∧
        ∀ time, let again := { after with
            scratch := after.scratch.release machine.engine.scratch.mark, world := { after.world with now := time } }
          again.expand (program.script.line 1) = ({ again with scratch := after.scratch }, .ok args) := by
  have hexpands := readWhileNamed_expands
  cases hload : load Standard.commands readWhileNamed with
  | error e => rw [hload] at hexpands; cases hexpands
  | ok program =>
    refine ⟨program, rfl, ?_⟩
    intro setup engine machine
    simp only [hload] at hexpands
    split at hexpands
    · rename_i after args hexpand
      simp only [Bool.and_eq_true, beq_iff_eq, decide_eq_true_eq] at hexpands
      obtain ⟨⟨hsize, htexts⟩, hclock⟩ := hexpands
      obtain ⟨hready, hagain⟩ := expands_again hload {} Standard.perform default
      have hreach : Reachable setup engine machine := reachable_iterate (.call .start .autoExecute) 5
      exact ⟨after, args, hexpand, hsize, htexts, fun time =>
        hagain machine.engine after 1 args (hready machine hreach) hexpand time fun hasks => absurd hasks hclock⟩
    · cases hexpands

end Program

end LineScript
