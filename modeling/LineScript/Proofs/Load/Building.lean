import LineScript.Load.Program

/-!
# Building lines, step by step

A program is built by adding lines one at a time (`Builder.push`), so what every added line keeps holds of the whole program
under construction (`Builder.addItems_induction`).
-/

namespace LineScript

/-- Two steps of loading succeed exactly when the first does and the second does on its result. -/
theorem bind_eq_ok_iff {ε α β : Type} {x : Except ε α} {f : α → Except ε β} {b : β} :
    (x >>= f) = .ok b ↔ ∃ a, x = .ok a ∧ f a = .ok b := by
  cases x <;> simp [bind, Except.bind]

/-- What a changed result is changed from. -/
theorem map_eq_ok {ε α β : Type} {x : Except ε α} {f : α → β} {b : β} (h : x.map f = .ok b) : ∃ a, x = .ok a ∧ f a = b := by
  cases x with
  | error e => cases h
  | ok a => exact ⟨a, rfl, Except.ok.inj h⟩

namespace Builder

/-- A result that is given the place of a fault is the one there was. -/
theorem at_eq_ok {α : Type} {b : Builder} {lineNo : Nat} {x : Except LoadProblem α} {a : α} (h : b.at_ lineNo x = .ok a) :
    x = .ok a := by
  cases x with
  | ok _ => exact congrArg _ (Except.ok.inj h)
  | error _ => cases h

/-- The line that a statement adds, with the variables it names. -/
theorem push_eq_ok {b b' : Builder} {action : Action} {args : List RawArg} {lineNo : Nat}
    (h : b.push action args lineNo = .ok b') :
    ∃ vars built note note',
      buildArgs b.commands action (Keyword.argBounds b.commands action).1 0 .none b.vars
        (givenArgs (Keyword.argBounds b.commands action).1 args) = .ok (vars, note, built) ∧
      checkArgs action note built = .ok note' ∧
      b' = { b with
        lines := b.lines.push { action, file := b.file, lineNo, args := built, note := note' }
        labels := bindLabels b.labels b.pending b.lines.size
        pending := []
        vars
        lastLineNo := max b.lastLineNo lineNo } := by
  unfold push at h
  simp only at h
  split at h
  · cases h
  split at h
  · cases h
  obtain ⟨⟨vars, note, built⟩, hargs, h⟩ := bind_eq_ok_iff.mp h
  obtain ⟨note', hnote, h⟩ := bind_eq_ok_iff.mp h
  cases h
  exact ⟨vars, built, note, note', at_eq_ok hargs, at_eq_ok hnote, rfl⟩

/-- The lines that a statement adds: the two of `Repeat`, or a single one. -/
theorem addStatement_eq_ok {b b' : Builder} {s : Statement} {alone : Bool} (h : b.addStatement s alone = .ok b') :
    (Text.asciiLower (Text.trim s.keyword) = "repeat" ∧
      ∃ args b₁, b.push .loop args s.lineNo = .ok b₁ ∧ b₁.push .blockBegin [] s.lineNo = .ok b') ∨
    (Text.asciiLower (Text.trim s.keyword) ≠ "repeat" ∧ ∃ action args, b.push action args s.lineNo = .ok b') := by
  unfold addStatement at h
  simp only at h
  split at h
  · cases h
  split at h
  · rename_i hrepeat
    obtain ⟨b₁, h₁, h⟩ := bind_eq_ok_iff.mp h
    obtain ⟨b₂, h₂, h⟩ := bind_eq_ok_iff.mp h
    split at h
    · cases h
      exact .inl ⟨eq_of_beq hrepeat, _, b₁, h₁, h₂⟩
    · cases h
  rename_i hrepeat
  have hrepeat : Text.asciiLower (Text.trim s.keyword) ≠ "repeat" := fun heq => hrepeat (beq_iff_eq.mpr heq)
  split at h
  · obtain ⟨b₁, h₁, h⟩ := bind_eq_ok_iff.mp h
    split at h
    · cases h
      exact .inr ⟨hrepeat, _, _, h₁⟩
    · cases h
  · obtain ⟨⟨action, args⟩, -, h⟩ := bind_eq_ok_iff.mp h
    obtain ⟨b₁, h₁, h⟩ := bind_eq_ok_iff.mp h
    split at h
    · cases h
      exact .inr ⟨hrepeat, _, _, h₁⟩
    · cases h

section

variable {motive : Builder → Prop}
  (hpush : ∀ {b b' : Builder} {action : Action} {args : List RawArg} {lineNo : Nat},
    b.push action args lineNo = .ok b' → motive b → motive b')
include hpush

/-- What holds before a statement and is kept by each of its lines holds after it. -/
theorem addStatement_induction {b b' : Builder} {s : Statement} {alone : Bool} (h : b.addStatement s alone = .ok b')
    (hb : motive b) : motive b' := by
  rcases addStatement_eq_ok h with ⟨-, args, b₁, h₁, h₂⟩ | ⟨-, action, args, h₁⟩
  · exact hpush h₂ (hpush h₁ hb)
  · exact hpush h₁ hb

/-- What holds before some statements and is kept by each of their lines holds after them. -/
theorem addStatements_induction {b b' : Builder} {statements : List Statement} (h : b.addStatements statements = .ok b')
    (hb : motive b) : motive b' := by
  induction statements generalizing b with
  | nil =>
    cases h
    exact hb
  | cons s rest ih =>
    unfold addStatements at h
    obtain ⟨b₁, h₁, h⟩ := bind_eq_ok_iff.mp h
    exact ih h (addStatement_induction hpush h₁ hb)

/-- What an added line, a declared label and the start of a file keep is kept by the entries of a whole program. -/
theorem addItems_induction (hpending : ∀ {b : Builder} (pending : List String), motive b → motive { b with pending })
    (hfile : ∀ {b : Builder} (name : String), motive b → motive (b.beginFile name)) {b b' : Builder} {items : List Item}
    (h : items.foldlM addItem b = .ok b') (hb : motive b) : motive b' := by
  induction items generalizing b with
  | nil =>
    cases h
    exact hb
  | cons item rest ih =>
    rw [List.foldlM_cons] at h
    obtain ⟨b₁, h₁, h⟩ := bind_eq_ok_iff.mp h
    refine ih h ?_
    cases item with
    | label name lineNo =>
      simp only [addItem, addLabel] at h₁
      split at h₁
      · cases h₁
      split at h₁
      · cases h₁
      cases h₁
      exact hpending _ hb
    | statement first sameLine => exact addStatements_induction hpush h₁ hb
    | file name =>
      cases h₁
      exact hfile name hb

end

end Builder

/-- The stages of loading a program: its lines are built, the line that ends it is added, the lines are linked, and the literal
jumps are resolved. -/
theorem Program.load_eq_ok {commands : CommandSet} {items : List Item} {program : Program}
    (h : Program.load commands items = .ok program) :
    ∃ built ended arranged lines, items.foldlM Builder.addItem (Builder.start commands) = .ok built ∧
      built.push .exit [] (built.lastLineNo + 1) = .ok ended ∧
      arrange { lines := ended.lines, labels := ended.labels, files := ended.files, commands := ended.commands } =
        .ok arranged ∧
      resolveJumps arranged 0 arranged.lines.toList = .ok lines ∧
      program = { script := { arranged with lines := lines.toArray }, vars := ended.vars } := by
  unfold load finish at h
  obtain ⟨built, hbuilt, h⟩ := bind_eq_ok_iff.mp h
  obtain ⟨ended, hended, h⟩ := bind_eq_ok_iff.mp h
  obtain ⟨arranged, harranged, h⟩ := bind_eq_ok_iff.mp h
  obtain ⟨lines, hlines, h⟩ := bind_eq_ok_iff.mp h
  cases h
  exact ⟨built, ended, arranged, lines, hbuilt, hended, harranged, hlines, rfl⟩

end LineScript
