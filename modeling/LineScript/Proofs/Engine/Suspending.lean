import LineScript.Proofs.Engine.Labels
import LineScript.Proofs.Text.Lower
import LineScript.Proofs.Text.Numbers

/-!
# Routines that suspend hotkeys

While hotkeys are suspended, a hotkey still starts a routine whose first line is a `Suspend`, unless that line suspends them. A
literal mode is read in three places: loading checks it, the line sets it when it runs, and admission compares it with `On`. The
first two disregard the white space around it, so a line that was loaded sets the mode it was checked for
(`Program.step_suspend`). The third one does not: a hotkey is refused only if its routine suspends hotkeys and the mode is written
without white space around it (`Program.suspended_refuses_iff`), and `Suspend, " On "` starts, against what `Script.isExempt`
says of itself (`Program.suspended_admits_padded`).
-/

namespace LineScript

namespace Text

/-- White space has no case. -/
theorem isBlank_toLower (c : Char) : isBlank c.toLower = isBlank c :=
  apply_toLower isBlank (by decide +kernel) c

/-- A text that is a word up to ASCII case has no white space around it. -/
theorem trim_eq_self_of_sameAscii {s word : String} (h : sameAscii s word = true)
    (hword : word.toList.any isBlank = false) : trim s = s := by
  have hmap : s.toList.map Char.toLower = word.toList.map Char.toLower := String.ofList_injective (eq_of_beq h)
  have hplain : ∀ c ∈ s.toList, isBlank c = false := by
    intro c hc
    obtain ⟨d, hd, hlower⟩ := List.mem_map.mp (hmap ▸ List.mem_map_of_mem hc)
    rw [← isBlank_toLower, ← hlower, isBlank_toLower]
    exact Bool.eq_false_iff.mpr (List.any_eq_false.mp hword d hd)
  rw [trim, trimBy, trimList_of_forall hplain, String.ofList_toList]

end Text

/-- Running a line leaves hotkeys suspended, whether they were before or not, unless memory runs out. -/
def Setup.SuspendsAt (setup : Setup) (id : LineId) : Prop :=
  ∀ (engine : Engine) (stack : Stack .line),
    (Machine.step setup ⟨engine, .step id stack⟩).engine.suspended = true ∨
      ∃ needed, engine.scratch.limit < needed ∧
        Machine.step setup ⟨engine, .step id stack⟩ =
          Machine.fail setup engine id (.outOfMemory needed engine.scratch.limit) stack

/-- A literal argument that was checked is blank or one of the allowed words, white space around it and ASCII case aside. -/
theorem Builder.asciiLower_of_literalIn {args : List Arg} {arg : Arg} {pos : Nat} {allowed : List String}
    (h : literalIn args pos allowed = true) (harg : args[pos]? = some arg) (hliteral : arg.isLiteral = true) :
    Text.asciiLower (Text.trim arg.text) = "" ∨
      ∃ word ∈ allowed, Text.asciiLower (Text.trim arg.text) = Text.asciiLower word := by
  simp only [literalIn, harg, hliteral, Bool.not_true, Bool.false_or, Bool.or_eq_true, List.any_eq_true] at h
  rcases h with hblank | ⟨word, hword, hsame⟩
  · rw [String.isEmpty_iff.mp hblank]
    exact .inl rfl
  · exact .inr ⟨word, hword, eq_of_beq hsame⟩

/-- What a literal argument of `Suspend` that was checked does to the mode: there is no problem, and the mode is on in the end,
whatever it was, exactly if the argument is `On`. -/
theorem Engine.suspendMode_of_checked {args : List Arg} {arg : Arg} (h : Builder.checkOptions .suspend args = .ok ())
    (harg : args[0]? = some arg) (hliteral : arg.isLiteral = true) :
    ∃ mode : Bool → Bool, (∀ suspended, suspendMode suspended arg.text = .ok (mode suspended)) ∧
      ((∀ suspended, mode suspended = true) ↔ Text.sameAscii (Text.trim arg.text) "on" = true) := by
  have hallowed : Builder.literalIn args 0 ["on", "off", "toggle", "permit"] = true := by
    by_contra hnot
    simp only [Builder.checkOptions, if_neg hnot] at h
    cases h
  have hmode := Builder.asciiLower_of_literalIn hallowed harg hliteral
  unfold suspendMode Text.sameAscii
  generalize Text.asciiLower (Text.trim arg.text) = text at hmode ⊢
  simp only [List.mem_cons, List.not_mem_nil, or_false, exists_eq_or_imp, exists_eq_left] at hmode
  rcases hmode with rfl | rfl | rfl | rfl | rfl
  · exact ⟨fun suspended => !suspended, fun _ => rfl, by decide +kernel⟩
  · exact ⟨fun _ => true, fun _ => rfl, by decide +kernel⟩
  · exact ⟨fun _ => false, fun _ => rfl, by decide +kernel⟩
  · exact ⟨fun suspended => !suspended, fun _ => rfl, by decide +kernel⟩
  · exact ⟨fun suspended => suspended, fun _ => rfl, by decide +kernel⟩

/-- While hotkeys are suspended, a hotkey whose label has room is dropped exactly if the label is not exempt. -/
theorem Engine.decide_of_suspended (setup : Setup) {engine : Engine} {trigger : Trigger} {label : LabelId}
    (hrunning : engine.terminated = false) (hsuspended : engine.suspended = true) (hhotkey : trigger.isHotkey = true)
    (hlabel : setup.script.labels.find? trigger.label = some label) (hroom : engine.runningOf label < trigger.maxThreads) :
    (engine.decide setup trigger = .refuse ↔ setup.script.isExempt label = false) ∧
      (engine.decide setup trigger ≠ .refuse →
        engine.decide setup trigger = .run label ∨ engine.decide setup trigger = .defer) := by
  simp only [Engine.decide, hrunning, hlabel, if_neg (Nat.not_le.mpr hroom), hsuspended, hhotkey, Bool.true_and,
    Bool.not_eq_true', Bool.false_eq_true, if_false]
  cases setup.script.isExempt label with
  | false => simp
  | true =>
    simp only [Bool.true_eq_false, if_false, iff_false]
    split
    · exact ⟨nofun, fun _ => .inr rfl⟩
    · split
      · exact ⟨nofun, fun _ => .inl rfl⟩
      · exact ⟨nofun, fun _ => .inr rfl⟩

namespace Program

section

variable {commands : CommandSet} {items : List Item} {program : Program} (hload : load commands items = .ok program)
  {setup : Setup} (hscript : setup.script = program.script) {id : LineId} {arg : Arg}
  (haction : (program.script.line id).action = .suspend) (harg : (program.script.line id).args.head? = some arg)
  (hliteral : arg.isLiteral = true)
include hload hscript haction harg hliteral

/-- A loaded `Suspend` with a literal mode sets the mode it was checked for, unless memory runs out. -/
theorem step_suspend :
    ∃ mode : Bool → Bool, ((∀ suspended, mode suspended = true) ↔ Text.sameAscii (Text.trim arg.text) "on" = true) ∧
      ∀ (engine : Engine) (stack : Stack .line),
        (∃ scratch, Machine.step setup ⟨engine, .step id stack⟩ =
          Machine.goOn { engine with scratch, suspended := mode engine.suspended } (program.script.line id).next stack) ∨
          ∃ needed, engine.scratch.limit < needed ∧ needed ≤ Scratch.wordLimit ∧
            Machine.step setup ⟨engine, .step id stack⟩ =
              Machine.fail setup engine id (.outOfMemory needed engine.scratch.limit) stack := by
  have hfirst : (program.script.line id).args[0]? = some arg := List.head?_eq_getElem? ▸ harg
  have hchecked := checkOptions_of_load hload id
  rw [haction] at hchecked
  obtain ⟨mode, hmode, hon⟩ := Engine.suspendMode_of_checked hchecked hfirst hliteral
  have hdirect : ∀ arg ∈ (program.script.line id).args, arg.Direct := by
    intro arg harg
    obtain ⟨pos, note, before, after, raw, hread, -⟩ := readFor_of_load hload id arg harg
    rw [haction] at hread
    exact Reference.direct_argument hread
  refine ⟨mode, hon, fun engine stack => ?_⟩
  have hstep : Machine.step setup ⟨engine, .step id stack⟩ =
      Machine.settle setup id (program.script.line id).next stack (engine.suspend (program.script.line id)) := by
    simp only [Machine.step, Machine.runLine, hscript, haction]
  rw [hstep]
  rcases engine.expand_of_direct hdirect with ⟨scratch, args, hexpand, htexts⟩ | ⟨needed, hlimit, hword, hexpand⟩
  · refine .inl ⟨scratch, ?_⟩
    simp only [Engine.suspend, Engine.withArgs, hexpand, htexts 0 arg hfirst hliteral, hmode, Machine.settle]
  · refine .inr ⟨needed, hlimit, hword, ?_⟩
    simp only [Engine.suspend, Engine.withArgs, hexpand, Machine.settle]

/-- A loaded `Suspend` with a literal mode suspends hotkeys exactly if the mode is `On`, white space around it and ASCII case
aside. -/
theorem suspendsAt_iff : setup.SuspendsAt id ↔ Text.sameAscii (Text.trim arg.text) "on" = true := by
  obtain ⟨mode, hon, hstep⟩ := step_suspend hload hscript haction harg hliteral
  rw [← hon]
  constructor
  · intro hsuspends suspended
    -- an engine with all the memory there is, in either mode
    let roomy : Engine :=
      { vars := {}, world := default, scratch := { limit := Scratch.wordLimit }, suspended, freshMs := 0, freshLines := 0 }
    let stack : Stack .line := .line 0 none .toEnd (.thread .toEnd false .host)
    rcases hstep roomy stack with ⟨scratch, hnext⟩ | ⟨needed, hlimit, hword, -⟩
    · rcases hsuspends roomy stack with hsuspended | ⟨needed, -, hfail⟩
      · rw [hnext] at hsuspended
        exact hsuspended
      · rw [hnext] at hfail
        cases congrArg Machine.control hfail
    · exact absurd hlimit (Nat.not_lt.mpr hword)
  · intro hmode engine stack
    rcases hstep engine stack with ⟨scratch, hnext⟩ | ⟨needed, hlimit, -, hfail⟩
    · rw [hnext]
      exact .inl (hmode _)
    · exact .inr ⟨needed, hlimit, hfail⟩

end

/-- While hotkeys are suspended, a hotkey whose label has room and whose routine starts with a `Suspend` of a literal mode is
dropped exactly if that line suspends hotkeys and the mode is written without white space around it. Otherwise it runs or
waits. -/
theorem suspended_refuses_iff {commands : CommandSet} {items : List Item} {program : Program}
    (hload : load commands items = .ok program) (config : Config) (perform : Performer) (world : World) :
    let setup := (Engine.start program config perform world).1
    ∀ (engine : Engine) (trigger : Trigger) (label : LabelId) (arg : Arg),
      let line := program.script.line (program.script.labels.target label)
      engine.terminated = false → engine.suspended = true → trigger.isHotkey = true →
      program.script.labels.find? trigger.label = some label → engine.runningOf label < trigger.maxThreads →
      line.action = .suspend → line.args.head? = some arg → arg.isLiteral = true →
      (engine.decide setup trigger = .refuse ↔
        setup.SuspendsAt (program.script.labels.target label) ∧ Text.trim arg.text = arg.text) ∧
      (engine.decide setup trigger ≠ .refuse →
        engine.decide setup trigger = .run label ∨ engine.decide setup trigger = .defer) := by
  intro setup engine trigger label arg line hrunning hsuspended hhotkey hlabel hroom haction harg hliteral
  have hscript : setup.script = program.script := rfl
  obtain ⟨hrefuse, hadmit⟩ := Engine.decide_of_suspended setup hrunning hsuspended hhotkey hlabel hroom
  refine ⟨hrefuse.trans ?_, hadmit⟩
  have hexempt : setup.script.isExempt label = !Text.sameAscii arg.text "on" := by
    have htext : line.argText 0 = arg.text := by rw [Line.argText, ← List.head?_eq_getElem?, harg]; rfl
    rw [← htext]
    simp only [Script.isExempt, hscript, haction, beq_self_eq_true, Bool.true_and, line]
  rw [hexempt, Bool.not_eq_false', suspendsAt_iff hload hscript haction harg hliteral]
  constructor
  · intro hsame
    have htrim := Text.trim_eq_self_of_sameAscii hsame (by decide +kernel)
    exact ⟨htrim.symm ▸ hsame, htrim⟩
  · rintro ⟨hsame, htrim⟩
    rwa [htrim] at hsame

open Machine

/-- A program that suspends hotkeys, and two routines that suspend them: one has white space around the mode. -/
def suspendingRoutines : List Item :=
  let line (keyword : String) (args : List String) : Item :=
    .statement { keyword, args := args.map .plain, lineNo := 1 } []
  [line "Suspend" ["On"], line "Return" [], .label "plain" 1, line "Suspend" ["oN"], line "Return" [], .label "padded" 1,
    line "Suspend" [" On "], line "Return" []]

/-- The hotkey of a label. -/
def hotkeyOf (label : String) : Trigger :=
  { kind := .hotkey, label }

/-- After the program of `suspendingRoutines` has run, it waits with hotkeys suspended. -/
theorem suspendingRoutines_waits :
    (match load Standard.commands suspendingRoutines with
    | .ok program =>
      let (setup, start) := Engine.start program {} Standard.perform default
      let machine := (step setup)^[14] (HostCall.autoExecute.start setup start)
      let begins (label : LabelId) (text : String) : Bool :=
        let line := program.script.line (program.script.labels.target label)
        line.action == .suspend && line.args.head?.any fun arg => arg.isLiteral && arg.text == text
      machine.engine.suspended && !machine.engine.terminated && machine.engine.threads.isEmpty &&
        program.script.labels.find? "plain" == some 0 && program.script.labels.find? "padded" == some 1 &&
        begins 0 "oN" && begins 1 " On " && machine.engine.decide setup (hotkeyOf "padded") == .run 1
    | .error _ => false) = true := by
  decide +kernel

/-- Once the program has run, hotkeys are suspended and no routine runs. -/
theorem suspendingRoutines_loaded :
    ∃ (program : Program) (machine : Machine), load Standard.commands suspendingRoutines = .ok program ∧
      let setup := (Engine.start program {} Standard.perform default).1
      let line (label : LabelId) := program.script.line (program.script.labels.target label)
      Reachable setup (Engine.start program {} Standard.perform default).2 machine ∧
      machine.engine.suspended = true ∧ machine.engine.terminated = false ∧
      (∀ label, machine.engine.runningOf label = 0) ∧
      program.script.labels.find? "plain" = some 0 ∧ program.script.labels.find? "padded" = some 1 ∧
      ((line 0).action = .suspend ∧ ∃ arg, (line 0).args.head? = some arg ∧ arg.isLiteral = true ∧ arg.text = "oN") ∧
      ((line 1).action = .suspend ∧ ∃ arg, (line 1).args.head? = some arg ∧ arg.isLiteral = true ∧ arg.text = " On ") ∧
      machine.engine.decide setup (hotkeyOf "padded") = .run 1 := by
  have hwaits := suspendingRoutines_waits
  cases hload : load Standard.commands suspendingRoutines with
  | error e => rw [hload] at hwaits; cases hwaits
  | ok program =>
    simp only [hload, Bool.and_eq_true, Bool.not_eq_true', beq_iff_eq, Option.any_eq_true, List.isEmpty_iff] at hwaits
    obtain ⟨⟨⟨⟨⟨⟨⟨hsuspended, hrunning⟩, hthreads⟩, hplain⟩, hpadded⟩, hfirst⟩, hsecond⟩, hadmitted⟩ := hwaits
    refine ⟨program, _, rfl, reachable_iterate (.call .start .autoExecute) 14, hsuspended, hrunning, fun label => ?_, hplain,
      hpadded, hfirst, hsecond, hadmitted⟩
    rw [Engine.runningOf, hthreads]
    rfl

/-- A hotkey is dropped whose routine suspends hotkeys and writes so without white space. -/
theorem suspended_refuses_plain :
    ∃ (program : Program) (machine : Machine), load Standard.commands suspendingRoutines = .ok program ∧
      let setup := (Engine.start program {} Standard.perform default).1
      let line := program.script.line (program.script.labels.target 0)
      Reachable setup (Engine.start program {} Standard.perform default).2 machine ∧
      machine.engine.terminated = false ∧ machine.engine.suspended = true ∧ (hotkeyOf "plain").isHotkey = true ∧
      program.script.labels.find? (hotkeyOf "plain").label = some 0 ∧
      machine.engine.runningOf 0 < (hotkeyOf "plain").maxThreads ∧
      line.action = .suspend ∧ (∃ arg, line.args.head? = some arg ∧ arg.isLiteral = true ∧ arg.text = "oN") ∧
      setup.SuspendsAt (program.script.labels.target 0) ∧ machine.engine.decide setup (hotkeyOf "plain") = .refuse := by
  obtain ⟨program, machine, hload, hreach, hsuspended, hrunning, hidle, hlabel, -, ⟨haction, hmode⟩, -, -⟩ :=
    suspendingRoutines_loaded
  refine ⟨program, machine, hload, ?_⟩
  intro setup line
  have hroom : machine.engine.runningOf 0 < (hotkeyOf "plain").maxThreads := by
    rw [hidle]
    decide
  obtain ⟨arg, harg, hliteral, htext⟩ := hmode
  have hsuspends : setup.SuspendsAt (program.script.labels.target 0) := by
    rw [suspendsAt_iff hload rfl haction harg hliteral, htext]
    decide +kernel
  obtain ⟨hrefuse, -⟩ := suspended_refuses_iff hload {} Standard.perform default machine.engine (hotkeyOf "plain") 0 arg
    hrunning hsuspended rfl hlabel hroom haction harg hliteral
  exact ⟨hreach, hrunning, hsuspended, rfl, hlabel, hroom, haction, ⟨arg, harg, hliteral, htext⟩, hsuspends,
    hrefuse.mpr ⟨hsuspends, htext ▸ by decide +kernel⟩⟩

/-- A hotkey runs whose routine suspends hotkeys and has white space around the mode. -/
theorem suspended_admits_padded :
    ∃ (program : Program) (machine : Machine), load Standard.commands suspendingRoutines = .ok program ∧
      let setup := (Engine.start program {} Standard.perform default).1
      let line := program.script.line (program.script.labels.target 1)
      Reachable setup (Engine.start program {} Standard.perform default).2 machine ∧
      machine.engine.terminated = false ∧ machine.engine.suspended = true ∧ (hotkeyOf "padded").isHotkey = true ∧
      program.script.labels.find? (hotkeyOf "padded").label = some 1 ∧
      machine.engine.runningOf 1 < (hotkeyOf "padded").maxThreads ∧
      line.action = .suspend ∧ (∃ arg, line.args.head? = some arg ∧ arg.isLiteral = true ∧ arg.text = " On ") ∧
      setup.SuspendsAt (program.script.labels.target 1) ∧ machine.engine.decide setup (hotkeyOf "padded") = .run 1 := by
  obtain ⟨program, machine, hload, hreach, hsuspended, hrunning, hidle, -, hlabel, -, ⟨haction, hmode⟩, hadmitted⟩ :=
    suspendingRoutines_loaded
  refine ⟨program, machine, hload, ?_⟩
  intro setup line
  have hroom : machine.engine.runningOf 1 < (hotkeyOf "padded").maxThreads := by
    rw [hidle]
    decide
  obtain ⟨arg, harg, hliteral, htext⟩ := hmode
  have hsuspends : setup.SuspendsAt (program.script.labels.target 1) := by
    rw [suspendsAt_iff hload rfl haction harg hliteral, htext]
    decide +kernel
  exact ⟨hreach, hrunning, hsuspended, rfl, hlabel, hroom, haction, ⟨arg, harg, hliteral, htext⟩, hsuspends, hadmitted⟩

end Program

end LineScript
