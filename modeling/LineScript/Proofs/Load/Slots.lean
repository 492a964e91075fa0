import LineScript.Engine.Basic
import LineScript.Proofs.Load.Building

/-!
# Slots that stay

A table of variables only grows: a slot keeps its number, its name and what kind of variable it is, and only its value may
change (`Variables.Extends`). Loading a program makes the slot of the error level first, so a program that runs has one, and
it is not an engine variable (`Engine.start_errorLevel`).
-/

namespace LineScript

namespace Variables

/-- Every slot of a table is in another one, up to its value. -/
def Extends (vars vars' : Variables) : Prop :=
  ∀ (i : VarId) (slot : Slot), vars.slots[i]? = some slot →
    ∃ value, vars'.slots[i]? = some { slot with value := value }

namespace Extends

theorem refl (vars : Variables) : vars.Extends vars :=
  fun _ slot h => ⟨slot.value, h⟩

theorem trans {a b c : Variables} (hab : a.Extends b) (hbc : b.Extends c) : a.Extends c := by
  intro i slot h
  obtain ⟨value, h⟩ := hab i slot h
  exact hbc i { slot with value := value } h

end Extends

/-- Giving a name its slot extends the table. -/
theorem extends_intern (vars : Variables) (name : String) : vars.Extends (vars.intern name).1 := by
  intro i slot h
  simp only [intern]
  split
  · exact ⟨slot.value, h⟩
  · refine ⟨slot.value, ?_⟩
    obtain ⟨hi, -⟩ := Array.getElem?_eq_some_iff.mp h
    simpa [Array.getElem?_push, Nat.ne_of_lt hi] using h

theorem extends_resolve {vars vars' : Variables} {name : String} {id : VarId}
    (h : vars.resolve name = .ok (vars', id)) : vars.Extends vars' := by
  unfold resolve at h
  split at h
  · cases h
    exact .refl vars
  · obtain ⟨_, -, h⟩ := bind_eq_ok_iff.mp h
    obtain rfl : (vars.intern name).1 = vars' := congrArg Prod.fst (Except.ok.inj h)
    exact extends_intern vars name

theorem extends_set {vars vars' : Variables} {id : VarId} {value : Value} (h : vars.set id value = .ok vars') :
    vars.Extends vars' := by
  unfold set at h
  split at h
  · cases h
    exact .refl vars
  · rename_i old hold
    split at h
    · cases h
    · cases h
      intro i slot hslot
      by_cases hi : i = id
      · subst hi
        obtain rfl : old = slot := Option.some.inj (hold.symm.trans hslot)
        obtain ⟨hlt, -⟩ := Array.getElem?_eq_some_iff.mp hslot
        exact ⟨value, by simp [hlt]⟩
      · exact ⟨slot.value, by simpa [Ne.symm hi] using hslot⟩

theorem extends_put (vars : Variables) (id : VarId) (value : Value) : vars.Extends (vars.put id value) := by
  unfold put
  split
  · rename_i h
    exact extends_set h
  · exact .refl vars

/-- A variable that belongs to the program, not to the engine. -/
def IsOwn (vars : Variables) (id : VarId) : Prop :=
  ∃ slot, vars.slots[id]? = some slot ∧ slot.builtin = none

/-- A variable of the program stays one when the table is extended. -/
theorem Extends.isOwn {vars vars' : Variables} {id : VarId} (hext : vars.Extends vars') (h : vars.IsOwn id) :
    vars'.IsOwn id := by
  obtain ⟨slot, hslot, hnone⟩ := h
  obtain ⟨value, h⟩ := hext id slot hslot
  exact ⟨_, h, hnone⟩

/-- What is put into a variable of the program is what it holds then. -/
theorem get_put {vars : Variables} {id : VarId} (h : vars.IsOwn id) (value : Value) :
    (vars.put id value).get id = value := by
  obtain ⟨slot, hslot, hnone⟩ := h
  obtain ⟨hlt, -⟩ := Array.getElem?_eq_some_iff.mp hslot
  have hset : vars.set id value = .ok { slots := vars.slots.setIfInBounds id { slot with value := value } } := by
    simp only [set, hslot, hnone]
  simp [put, hset, get, hlt]

end Variables

namespace Reference

open Variables

theorem extends_slot {vars vars' : Variables} {name : String} {id : VarId} (h : slot vars name = .ok (vars', id)) :
    vars.Extends vars' := by
  unfold slot at h
  split at h
  · rename_i hr
    cases h
    exact extends_resolve hr
  · cases h

/-- Reading the references of a free text extends the table. -/
theorem extends_inTextOnto {literal : Nat → Bool} {vars vars' : Variables} {done derefs : List Deref}
    {opened : Option (Nat × List Char)} {chars : List (Nat × Char)}
    (h : inTextOnto literal vars done opened chars = .ok (vars', derefs)) : vars.Extends vars' := by
  fun_induction inTextOnto literal vars done opened chars with
  | case1 vars =>
    cases h
    exact .refl _
  | case2 | case4 | case5 => cases h
  | case3 _ _ _ _ _ _ ih => exact ih h
  | case6 vars _ _ _ _ _ _ _ _ vars₁ _ hslot ih => exact (extends_slot hslot).trans (ih h)
  | case7 _ _ _ _ _ _ _ ih => exact ih h

theorem extends_partsOf {name : String} {vars vars' : Variables} {pieces : List (List Char)} {parts : List NamePart}
    (h : partsOf name vars pieces = .ok (vars', parts)) : vars.Extends vars' := by
  fun_induction partsOf name vars pieces generalizing vars' parts with
  | case1 vars =>
    cases h
    exact .refl _
  | case2 vars tail =>
    obtain ⟨_, -, h⟩ := bind_eq_ok_iff.mp h
    cases h
    exact .refl _
  | case3 vars piece inner rest ih =>
    obtain ⟨_, -, h⟩ := bind_eq_ok_iff.mp h
    split at h
    · cases h
    obtain ⟨⟨vars₁, id⟩, hslot, h⟩ := bind_eq_ok_iff.mp h
    obtain ⟨⟨vars₂, more⟩, hmore, h⟩ := bind_eq_ok_iff.mp h
    cases h
    exact (extends_slot hslot).trans (ih _ hmore)

/-- Reading a name between percent signs extends the table. -/
theorem extends_ofName {vars vars' : Variables} {name : List Char} {literal : Nat → Bool} {target : Target}
    (h : ofName vars name literal = .ok (vars', target)) : vars.Extends vars' := by
  unfold ofName at h
  simp only at h
  split at h
  · obtain ⟨⟨vars₁, id⟩, hslot, h⟩ := bind_eq_ok_iff.mp h
    cases h
    exact extends_slot hslot
  · split at h
    · cases h
    · obtain ⟨⟨vars₁, parts⟩, hparts, h⟩ := bind_eq_ok_iff.mp h
      cases h
      exact extends_partsOf hparts

theorem extends_ofTokens {vars vars' : Variables} {tokens : List Token} {derefs : List Deref}
    (h : ofTokens vars tokens = .ok (vars', derefs)) : vars.Extends vars' := by
  fun_induction ofTokens vars tokens generalizing vars' derefs with
  | case1 vars =>
    cases h
    exact .refl _
  | case2 vars token rest _ ih =>
    obtain ⟨⟨vars₁, target⟩, hname, h⟩ := bind_eq_ok_iff.mp h
    obtain ⟨⟨vars₂, more⟩, hmore, h⟩ := bind_eq_ok_iff.mp h
    cases h
    exact (extends_ofName hname).trans (ih _ hmore)
  | case3 vars token rest _ ih => exact ih h

theorem extends_inName {vars vars' : Variables} {output : Bool} {raw : RawArg} {text : String} {derefs : List Deref}
    (h : inName vars output raw = .ok (vars', text, derefs)) : vars.Extends vars' := by
  unfold inName at h
  simp only at h
  split at h
  · cases h
    exact .refl _
  · obtain ⟨⟨vars₁, target⟩, hname, h⟩ := bind_eq_ok_iff.mp h
    refine (extends_ofName hname).trans ?_
    cases target with
    | dynamic _ =>
      cases h
      exact .refl _
    | static _ =>
      simp only at h
      split at h
      · cases h
      · cases h
        exact .refl _

/-- What an argument that is built is: an expression, a free text, or a name. -/
theorem argument_eq_ok {vars vars' : Variables} {kind : ArgKind} {isExpr : Bool} {raw : RawArg} {arg : Arg}
    (h : argument vars kind isExpr raw = .ok (vars', arg)) :
    arg.kind = kind ∧ arg.isExpr = isExpr ∧
      ((kind = .text ∧ isExpr = true ∧ arg.text = raw.text ∧
          ∃ tokens, Token.scan raw.text = .ok tokens ∧ ofTokens vars tokens = .ok (vars', arg.derefs)) ∨
        (kind = .text ∧ isExpr = false ∧ arg.text = raw.text ∧ inText vars raw = .ok (vars', arg.derefs)) ∨
        ∃ output, kind ≠ .text ∧ inName vars output raw = .ok (vars', arg.text, arg.derefs)) := by
  unfold argument at h
  simp only at h
  split at h
  any_goals split at h
  all_goals
    obtain ⟨⟨vars₁, text, derefs⟩, hread, h⟩ := bind_eq_ok_iff.mp h
    simp only at h
    split at h
    · cases h
    cases h
  · rename_i hexpr _
    obtain ⟨r, hr, hread⟩ := map_eq_ok hread
    cases hread
    unfold inExpr at hr
    split at hr
    · cases hr
    · rename_i tokens hscan
      exact ⟨rfl, rfl, .inl ⟨rfl, hexpr, rfl, tokens, hscan, hr⟩⟩
  · rename_i hplain _
    obtain ⟨r, hr, hread⟩ := map_eq_ok hread
    cases hread
    exact ⟨rfl, rfl, .inr (.inl ⟨rfl, Bool.eq_false_iff.mpr hplain, rfl, hr⟩)⟩
  · exact ⟨rfl, rfl, .inr (.inr ⟨false, nofun, hread⟩)⟩
  · exact ⟨rfl, rfl, .inr (.inr ⟨true, nofun, hread⟩)⟩

/-- Building an argument keeps the slots that are there. -/
theorem extends_argument {vars vars' : Variables} {kind : ArgKind} {isExpr : Bool} {raw : RawArg} {arg : Arg}
    (h : argument vars kind isExpr raw = .ok (vars', arg)) : vars.Extends vars' := by
  obtain ⟨-, -, ⟨-, -, -, tokens, -, htokens⟩ | ⟨-, -, -, hderefs⟩ | ⟨output, -, hname⟩⟩ := argument_eq_ok h
  · exact extends_ofTokens htokens
  · exact extends_inTextOnto hderefs
  · exact extends_inName hname

end Reference

namespace Builder

open Variables

/-- Building arguments extends the table. -/
theorem extends_buildArgs {commands : CommandSet} {action : Action} {least pos : Nat} {note note' : Note}
    {vars vars' : Variables} {raws : List RawArg} {args : List Arg}
    (h : buildArgs commands action least pos note vars raws = .ok (vars', note', args)) : vars.Extends vars' := by
  induction raws generalizing pos note vars args with
  | nil =>
    cases h
    exact .refl _
  | cons raw rest ih =>
    unfold buildArgs at h
    obtain ⟨⟨vars₁, arg⟩, harg, h⟩ := bind_eq_ok_iff.mp h
    simp only at h
    split at h
    · cases h
    obtain ⟨⟨vars₂, note₂, args₂⟩, hrest, h⟩ := bind_eq_ok_iff.mp h
    cases h
    exact (Reference.extends_argument harg).trans (ih hrest)

/-- A line that is pushed extends the table. -/
theorem extends_push {b b' : Builder} {action : Action} {args : List RawArg} {lineNo : Nat}
    (h : b.push action args lineNo = .ok b') : b.vars.Extends b'.vars := by
  obtain ⟨vars, built, note, note', hargs, -, rfl⟩ := push_eq_ok h
  exact extends_buildArgs hargs

end Builder

/-- A loaded program has the variables it was started with. -/
theorem Program.extends_load {commands : CommandSet} {items : List Item} {program : Program}
    (h : Program.load commands items = .ok program) : (Builder.start commands).vars.Extends program.vars := by
  obtain ⟨built, ended, _, _, hbuilt, hended, -, -, rfl⟩ := load_eq_ok h
  have hkept : (Builder.start commands).vars.Extends built.vars :=
    Builder.addItems_induction (motive := fun b => (Builder.start commands).vars.Extends b.vars)
      (fun hpush hb => hb.trans (Builder.extends_push hpush)) (fun _ hb => hb) (fun _ hb => hb) hbuilt (.refl _)
  exact hkept.trans (Builder.extends_push hended)

/-- The slot of the error level is the first one of a program under construction. -/
theorem Builder.start_slot (commands : CommandSet) :
    ∃ slot, (Builder.start commands).vars.slots[0]? = some slot ∧ slot.key = Text.lower errorLevelName ∧
      slot.builtin = none := by
  refine ⟨Variables.newSlot errorLevelName (Text.lower errorLevelName), ?_, rfl, by decide +kernel⟩
  simp [start, Variables.intern, Variables.findKey?]

/-- A loaded program that is about to run has an error level of its own. -/
theorem Engine.start_errorLevel {commands : CommandSet} {items : List Item} {program : Program}
    (h : Program.load commands items = .ok program) (config : Config) (perform : Performer) (world : World) :
    (start program config perform world).2.vars.IsOwn (start program config perform world).1.errorLevel := by
  obtain ⟨slot, hslot, hkey, hnone⟩ := Builder.start_slot commands
  obtain ⟨value, hslot⟩ := Program.extends_load h 0 slot hslot
  have hfind : program.vars.findKey? (Text.lower errorLevelName) = some 0 := by
    obtain ⟨hlt, hget⟩ := Array.getElem?_eq_some_iff.mp hslot
    rw [Variables.findKey?, Array.findIdx?_eq_some_iff_getElem]
    refine ⟨hlt, ?_, fun _ hj => absurd hj (Nat.not_lt_zero _)⟩
    simp [hget, hkey, errorLevelName, Builder.errorLevelName]
  simp only [start, Variables.intern, hfind]
  exact ⟨_, hslot, hnone⟩

end LineScript
