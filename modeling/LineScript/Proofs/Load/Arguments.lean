import LineScript.Proofs.Load.References

/-!
# How arguments were read

Every argument of a loaded line was read by `Reference.argument` for the action of its line, and the variables there were then
are still there (`Program.readFor_of_load`). So what that function gives holds of a whole program: the arguments of a line that
takes a label are free texts, whose references name their variables outright (`Arg.Direct`). Literal options were checked once
the arguments of a line were read (`Program.checkOptions_of_load`).
-/

namespace LineScript

/-- An argument was read for a place among those of an action, and the variables there were then are among `vars`. -/
def Arg.ReadAt (commands : CommandSet) (action : Action) (pos : Nat) (vars : Variables) (arg : Arg) : Prop :=
  ∃ note before after raw, Reference.argument before (Builder.argKind commands action note pos)
    (Builder.isExprArg action pos) raw = .ok (after, arg) ∧ after.Extends vars

/-- An argument was read for an action, and the variables there were then are among `vars`. -/
def Arg.ReadFor (commands : CommandSet) (action : Action) (vars : Variables) (arg : Arg) : Prop :=
  ∃ pos note before after raw, Reference.argument before (Builder.argKind commands action note pos)
    (Builder.isExprArg action pos) raw = .ok (after, arg) ∧ after.Extends vars

/-- An argument that is read for an action still is when variables are added. -/
theorem Arg.ReadFor.trans {commands : CommandSet} {action : Action} {vars vars' : Variables} {arg : Arg}
    (h : arg.ReadFor commands action vars) (hext : vars.Extends vars') : arg.ReadFor commands action vars' := by
  obtain ⟨pos, note, before, after, raw, hread, hafter⟩ := h
  exact ⟨pos, note, before, after, raw, hread, hafter.trans hext⟩

namespace Builder

/-- From an expression on the arguments of an action are texts. -/
theorem argKind_of_isExprArg {action : Action} {pos later : Nat} (h : isExprArg action pos = true) (hle : pos ≤ later)
    (commands : CommandSet) (note : Note) : argKind commands action note later = .text := by
  rcases Bool.or_eq_true_iff.mp h with h | h
  · obtain ⟨haction, hpos⟩ := Bool.and_eq_true_iff.mp h
    have hne : (later == 0) = false := by
      rw [eq_of_beq hpos] at hle
      exact beq_false_of_ne (Nat.ne_of_gt hle)
    rw [eq_of_beq haction]
    simp only [argKind, hne, Bool.false_eq_true, if_false]
  · obtain ⟨haction, -⟩ := Bool.and_eq_true_iff.mp h
    rw [eq_of_beq haction]
    rfl

section

variable {commands : CommandSet} {action : Action} {least pos : Nat} {note note' : Note} {vars vars' : Variables}
  {raws : List RawArg} {args : List Arg} (h : buildArgs commands action least pos note vars raws = .ok (vars', note', args))
include h

/-- Every argument that is built is read for its position or a later one. -/
theorem readAt_buildArgs : ∀ arg ∈ args, ∃ later ≥ pos, arg.ReadAt commands action later vars' := by
  induction raws generalizing pos note vars args with
  | nil =>
    cases h
    exact nofun
  | cons raw rest ih =>
    unfold buildArgs at h
    obtain ⟨⟨vars₁, arg⟩, harg, h⟩ := bind_eq_ok_iff.mp h
    simp only at h
    split at h
    · cases h
    obtain ⟨⟨vars₂, note₂, args₂⟩, hrest, h⟩ := bind_eq_ok_iff.mp h
    cases h
    intro given hgiven
    rcases List.mem_cons.mp hgiven with rfl | hgiven
    · exact ⟨pos, Nat.le_refl _, note, vars, vars₁, raw, harg, extends_buildArgs hrest⟩
    · obtain ⟨later, hle, hread⟩ := ih hrest given hgiven
      exact ⟨later, Nat.le_of_succ_le hle, hread⟩

/-- An expression is followed by texts only, so nothing is named for the first time after it. -/
theorem pairwise_buildArgs : args.Pairwise fun arg later => arg.isExpr = true → later.kind = .text := by
  induction raws generalizing pos note vars args with
  | nil =>
    cases h
    exact .nil
  | cons raw rest ih =>
    unfold buildArgs at h
    obtain ⟨⟨vars₁, arg⟩, harg, h⟩ := bind_eq_ok_iff.mp h
    simp only at h
    split at h
    · cases h
    obtain ⟨⟨vars₂, note₂, args₂⟩, hrest, h⟩ := bind_eq_ok_iff.mp h
    cases h
    refine .cons (fun given hgiven hexpr => ?_) (ih hrest)
    obtain ⟨later, hle, note₁, _, _, _, hread, -⟩ := readAt_buildArgs hrest given hgiven
    rw [(Reference.argument_eq_ok harg).2.1] at hexpr
    rw [(Reference.argument_eq_ok hread).1]
    exact argKind_of_isExprArg hexpr (Nat.le_of_succ_le hle) commands note₁

end

/-- The arguments of a line were built for its action, and the variables there were then are among `vars`. -/
def Built (commands : CommandSet) (action : Action) (vars : Variables) (args : List Arg) : Prop :=
  ∃ least note note' before after raws,
    buildArgs commands action least 0 note before raws = .ok (after, note', args) ∧ after.Extends vars

/-- Arguments that are built for an action still are when variables are added. -/
theorem Built.trans {commands : CommandSet} {action : Action} {vars vars' : Variables} {args : List Arg}
    (h : Built commands action vars args) (hext : vars.Extends vars') : Built commands action vars' args := by
  obtain ⟨least, note, note', before, after, raws, hargs, hafter⟩ := h
  exact ⟨least, note, note', before, after, raws, hargs, hafter.trans hext⟩

/-- Every argument that is built for an action is read for it. -/
theorem Built.readFor {commands : CommandSet} {action : Action} {vars : Variables} {args : List Arg}
    (h : Built commands action vars args) : ∀ arg ∈ args, arg.ReadFor commands action vars := by
  obtain ⟨_, _, _, _, _, _, hargs, hafter⟩ := h
  intro arg harg
  obtain ⟨pos, -, hread⟩ := readAt_buildArgs hargs arg harg
  exact Arg.ReadFor.trans ⟨pos, hread⟩ hafter

/-- The arguments of all lines under construction were built for the actions of their lines. -/
def AllBuilt (b : Builder) : Prop :=
  ∀ line ∈ b.lines, Built b.commands line.action b.vars line.args

/-- A line that is pushed is built for its action, as the lines before it are. -/
theorem allBuilt_push {b b' : Builder} {action : Action} {args : List RawArg} {lineNo : Nat}
    (h : b.push action args lineNo = .ok b') (hb : b.AllBuilt) : b'.AllBuilt := by
  have hext := extends_push h
  obtain ⟨vars, built, note, note', hargs, -, rfl⟩ := push_eq_ok h
  intro line hline
  rcases Array.mem_push.mp hline with hline | rfl
  · exact (hb line hline).trans hext
  · exact ⟨_, _, _, _, _, _, hargs, .refl _⟩

/-- The options of an action were checked where its arguments were. -/
theorem checkOptions_of_checkArgs {action : Action} {note note' : Note} {args : List Arg}
    (h : checkArgs action note args = .ok note') : checkOptions action args = .ok () := by
  unfold checkArgs at h
  simp only at h
  split at h
  · obtain ⟨_, -, h⟩ := bind_eq_ok_iff.mp h
    obtain ⟨_, hoptions, -⟩ := bind_eq_ok_iff.mp h
    exact hoptions
  · obtain ⟨_, hoptions, -⟩ := bind_eq_ok_iff.mp h
    exact hoptions

/-- The literal options of all lines under construction were checked. -/
def AllChecked (b : Builder) : Prop :=
  ∀ line ∈ b.lines, checkOptions line.action line.args = .ok ()

/-- The options of a line that is pushed are checked, as those of the lines before it are. -/
theorem allChecked_push {b b' : Builder} {action : Action} {args : List RawArg} {lineNo : Nat}
    (h : b.push action args lineNo = .ok b') (hb : b.AllChecked) : b'.AllChecked := by
  obtain ⟨vars, built, note, note', -, hchecked, rfl⟩ := push_eq_ok h
  intro line hline
  rcases Array.mem_push.mp hline with hline | rfl
  · exact hb line hline
  · exact checkOptions_of_checkArgs hchecked

end Builder

namespace Program

/-- A loaded program has the lines that were built for it, with an `Exit` at the end, up to their links and notes. -/
theorem built_of_load {commands : CommandSet} {items : List Item} {program : Program}
    (h : load commands items = .ok program) :
    ∃ built ended, items.foldlM Builder.addItem (Builder.start commands) = .ok built ∧
      built.push .exit [] (built.lastLineNo + 1) = .ok ended ∧ program.vars = ended.vars ∧
      program.script.labels = ended.labels ∧ program.script.commands = ended.commands ∧
      program.script.lines.size = ended.lines.size ∧
      ∀ id, ∃ note prev next related parent,
        program.script.line id = { (ended.lines[id]?).getD default with note, prev, next, related, parent } := by
  obtain ⟨built, ended, arranged, lines, hbuilt, hended, harranged, hlines, rfl⟩ := load_eq_ok h
  have hsize : lines.toArray.size = arranged.lines.size := by simpa using (resolveJumps_eq_ok hlines).1
  have hline (id : LineId) := line_resolveJumps hlines id
  obtain ⟨links, rfl⟩ := arrange_eq_ok harranged
  refine ⟨built, ended, hbuilt, hended, rfl, rfl, rfl, hsize.trans (by simp [linkLines]), fun id => ?_⟩
  obtain ⟨note, hline, -⟩ := hline id
  rw [hline, line_linkLines]
  split
  · exact ⟨note, _, _, _, _, rfl⟩
  · rename_i hle
    rw [Array.getElem?_eq_none (Nat.le_of_not_lt hle)]
    exact ⟨note, _, _, _, _, rfl⟩

/-- The arguments of a loaded line were built for its action. -/
theorem builtArgs_of_load {commands : CommandSet} {items : List Item} {program : Program}
    (h : load commands items = .ok program) (id : LineId) :
    Builder.Built program.script.commands (program.script.line id).action program.vars (program.script.line id).args := by
  obtain ⟨built, ended, hbuilt, hended, hvars, -, hcommands, -, hlines⟩ := built_of_load h
  have hbuilt : built.AllBuilt :=
    Builder.addItems_induction (motive := Builder.AllBuilt) Builder.allBuilt_push (fun _ hb => hb) (fun _ hb => hb) hbuilt
      fun _ hline => absurd hline (Array.not_mem_empty _)
  have hended : ended.AllBuilt := Builder.allBuilt_push hended hbuilt
  obtain ⟨note, prev, next, related, parent, hline⟩ := hlines id
  rw [hvars, hcommands, hline]
  cases hget : ended.lines[id]? with
  | none => exact ⟨0, .none, .none, _, _, [], rfl, .refl _⟩
  | some line => exact hended line (Array.mem_of_getElem? hget)

/-- The literal options of a loaded line were checked. -/
theorem checkOptions_of_load {commands : CommandSet} {items : List Item} {program : Program}
    (h : load commands items = .ok program) (id : LineId) :
    Builder.checkOptions (program.script.line id).action (program.script.line id).args = .ok () := by
  obtain ⟨built, ended, hbuilt, hended, -, -, -, -, hlines⟩ := built_of_load h
  have hbuilt : built.AllChecked :=
    Builder.addItems_induction (motive := Builder.AllChecked) Builder.allChecked_push (fun _ hb => hb) (fun _ hb => hb) hbuilt
      fun _ hline => absurd hline (Array.not_mem_empty _)
  have hended : ended.AllChecked := Builder.allChecked_push hended hbuilt
  obtain ⟨note, prev, next, related, parent, hline⟩ := hlines id
  rw [hline]
  cases hget : ended.lines[id]? with
  | none => rfl
  | some line => exact hended line (Array.mem_of_getElem? hget)

/-- The arguments of a loaded line were read for its action. -/
theorem readFor_of_load {commands : CommandSet} {items : List Item} {program : Program}
    (h : load commands items = .ok program) (id : LineId) :
    ∀ arg ∈ (program.script.line id).args,
      arg.ReadFor program.script.commands (program.script.line id).action program.vars :=
  (builtArgs_of_load h id).readFor

end Program

/-- Free text whose references name their variables outright, so that it can be looked up whatever the variables hold. -/
structure Arg.Direct (arg : Arg) : Prop where
  kind_eq : arg.kind = .text
  isExpr_eq : arg.isExpr = false
  static : ∀ deref ∈ arg.derefs, ∃ id, deref.target = .static id

namespace Reference

/-- The references in a free text name their variables at load time. -/
theorem static_inTextOnto {literal : Nat → Bool} {vars vars' : Variables} {done derefs : List Deref}
    {opened : Option (Nat × List Char)} {chars : List (Nat × Char)}
    (h : inTextOnto literal vars done opened chars = .ok (vars', derefs))
    (hdone : ∀ deref ∈ done, ∃ id, deref.target = .static id) : ∀ deref ∈ derefs, ∃ id, deref.target = .static id := by
  fun_induction inTextOnto literal vars done opened chars with
  | case1 vars done =>
    cases h
    exact fun deref hderef => hdone deref (List.mem_reverse.mp hderef)
  | case2 | case4 | case5 => cases h
  | case3 _ _ _ _ _ _ ih => exact ih h hdone
  | case6 vars done _ _ _ _ _ _ _ vars₁ id hslot ih =>
    refine ih h fun deref hderef => ?_
    rcases List.mem_cons.mp hderef with rfl | hderef
    · exact ⟨id, rfl⟩
    · exact hdone deref hderef
  | case7 _ _ _ _ _ _ _ ih => exact ih h hdone

/-- A free text is an argument with direct references only. -/
theorem direct_argument {vars vars' : Variables} {raw : RawArg} {arg : Arg}
    (h : argument vars .text false raw = .ok (vars', arg)) : arg.Direct := by
  obtain ⟨hkind, hexpr, ⟨-, hfalse, -⟩ | ⟨-, -, -, hderefs⟩ | ⟨output, hfalse, -⟩⟩ := argument_eq_ok h
  · cases hfalse
  · exact ⟨hkind, hexpr, static_inTextOnto hderefs nofun⟩
  · exact absurd rfl hfalse

end Reference

/-- Free text names its variables outright. -/
theorem Arg.ReadFor.direct_of_text {commands : CommandSet} {action : Action} {vars : Variables} {arg : Arg}
    (h : arg.ReadFor commands action vars) (hkind : arg.kind = .text) (hplain : arg.isExpr = false) : arg.Direct := by
  obtain ⟨pos, note, before, after, raw, hread, -⟩ := h
  obtain ⟨hreadKind, hreadExpr, -⟩ := Reference.argument_eq_ok hread
  rw [← hreadKind, hkind, ← hreadExpr, hplain] at hread
  exact Reference.direct_argument hread

/-- What the references of an argument name has slots. -/
theorem Arg.ReadFor.within {commands : CommandSet} {action : Action} {vars : Variables} {arg : Arg}
    (h : arg.ReadFor commands action vars) : ∀ deref ∈ arg.derefs, deref.target.Within vars.size := by
  obtain ⟨pos, note, before, after, raw, hread, hafter⟩ := h
  have hwithin : ∀ deref ∈ arg.derefs, deref.target.Within after.size := by
    obtain ⟨-, -, ⟨-, -, -, tokens, -, htokens⟩ | ⟨-, -, -, hderefs⟩ | ⟨output, -, hname⟩⟩ := Reference.argument_eq_ok hread
    · exact Reference.within_ofTokens htokens
    · exact Reference.within_inTextOnto hderefs nofun
    · exact Reference.within_inName hname
  exact fun deref hderef => (hwithin deref hderef).mono hafter.size_le

/-- The arguments of a line that takes a label are looked up whatever the variables hold. -/
theorem Arg.ReadFor.direct {commands : CommandSet} {action : Action} {vars : Variables} {arg : Arg}
    (h : arg.ReadFor commands action vars) (htakes : action.takesLabel = true) : arg.Direct := by
  obtain ⟨pos, note, before, after, raw, hread, -⟩ := h
  cases action with
  | goto | gosub | setTimer | onExit => exact Reference.direct_argument hread
  | _ => cases htakes

end LineScript
