import LineScript.Proofs.Load.Arranged
import LineScript.Proofs.Load.Building

/-!
# Loaded programs

What holds of every program that `Program.load` gives: its lines have a layout (`Program.laidOut_of_load`), and a label that was
found for a line when the program was loaded is the one that the line names (`Program.noted_of_load`), which a jump may reach
(`Program.isJumpValid_of_load`).
-/

namespace LineScript

/-- A note that was not made by resolving a jump. -/
def Note.IsOwn (note : Note) : Prop :=
  ∀ label, note ≠ .label label

namespace Builder

/-- Building arguments notes variables of the program only. -/
theorem isOwn_buildArgs {commands : CommandSet} {action : Action} {least pos : Nat} {note note' : Note}
    {vars vars' : Variables} {raws : List RawArg} {args : List Arg}
    (h : buildArgs commands action least pos note vars raws = .ok (vars', note', args)) (hnote : note.IsOwn) :
    note'.IsOwn := by
  induction raws generalizing pos note vars args with
  | nil =>
    cases h
    exact hnote
  | cons raw rest ih =>
    unfold buildArgs at h
    obtain ⟨⟨vars₁, arg⟩, -, h⟩ := bind_eq_ok_iff.mp h
    simp only at h
    split at h
    · cases h
    obtain ⟨⟨vars₂, note₂, args₂⟩, hrest, h⟩ := bind_eq_ok_iff.mp h
    cases h
    refine ih hrest ?_
    split
    · exact fun _ h => by cases h
    · exact hnote

/-- Checking arguments keeps a note about variables of the program only. -/
theorem isOwn_checkArgs {action : Action} {note note' : Note} {args : List Arg}
    (h : checkArgs action note args = .ok note') (hnote : note.IsOwn) : note'.IsOwn := by
  have hgiven : (if action == .loop && args.isEmpty then Note.loop .count else note).IsOwn := by
    split
    · exact fun _ h => by cases h
    · exact hnote
  unfold checkArgs at h
  simp only at h
  split at h
  · obtain ⟨_, -, h⟩ := bind_eq_ok_iff.mp h
    obtain ⟨_, -, h⟩ := bind_eq_ok_iff.mp h
    cases h
    exact hgiven
  · obtain ⟨_, -, h⟩ := bind_eq_ok_iff.mp h
    cases h
    exact hgiven

/-- No line under construction has a label noted. -/
def OwnNotes (b : Builder) : Prop :=
  ∀ line ∈ b.lines, line.note.IsOwn

/-- A line that is pushed notes variables of the program only. -/
theorem ownNotes_push {b b' : Builder} {action : Action} {args : List RawArg} {lineNo : Nat}
    (h : b.push action args lineNo = .ok b') (hb : b.OwnNotes) : b'.OwnNotes := by
  obtain ⟨vars, built, note, note', hargs, hnote, rfl⟩ := push_eq_ok h
  intro line hline
  rcases Array.mem_push.mp hline with hline | rfl
  · exact hb line hline
  · exact isOwn_checkArgs hnote (isOwn_buildArgs hargs fun _ h => by cases h)

/-- While the entries of a program are added, its lines note variables of the program only. -/
theorem ownNotes_addItems {commands : CommandSet} {items : List Item} {b : Builder}
    (h : items.foldlM addItem (start commands) = .ok b) : b.OwnNotes :=
  addItems_induction (motive := OwnNotes) ownNotes_push (fun _ hb => hb) (fun _ hb => hb) h
    fun _ hline => absurd hline (Array.not_mem_empty _)

end Builder

namespace Script

/-- Two programs are laid out alike when their lines do the same and are linked alike. -/
theorem LaidOut.congr {script script' : Script} {last : Nat} {layout : Layout} (h : script.LaidOut last layout)
    (hsize : script'.lines.size = script.lines.size) (hcommands : script'.commands = script.commands)
    (hlines : ∀ i, ∃ note, script'.line i = { script.line i with note }) : script'.LaidOut last layout := by
  have hshape : script'.shapeAt = script.shapeAt := by
    funext i
    obtain ⟨note, hline⟩ := hlines i
    rw [shapeAt, hcommands, hline, shapeAt]
  have hlink : script'.linkAt = script.linkAt := by
    funext i
    obtain ⟨note, hline⟩ := hlines i
    rw [linkAt, hline, linkAt]
  refine ⟨hsize.trans h.size_eq, hshape ▸ h.last_plain, hshape ▸ h.laid, hlink ▸ h.linked, ?_⟩
  intro i hi
  obtain ⟨note, hline⟩ := hlines i
  rw [hline, ← h.next_eq i hi]

/-- Whether a jump is valid depends on the links of lines alone. -/
theorem isJumpValid_congr {script script' : Script} (hsize : script'.lines.size = script.lines.size)
    (hparent : ∀ i, (script'.line i).parent = (script.line i).parent) (start target : LineId) :
    script'.isJumpValid start target = script.isJumpValid start target := by
  have hencloses : ∀ wanted fuel level, script'.encloses wanted fuel level = script.encloses wanted fuel level := by
    intro wanted fuel
    induction fuel with
    | zero => exact fun _ => rfl
    | succ fuel ih =>
      intro level
      cases level with
      | none => rfl
      | some id => simp only [encloses, ih, hparent]
  rw [isJumpValid, isJumpValid, hencloses, hsize, hparent, hparent]

end Script

namespace Program

/-- Linking the lines of a program leaves their notes. -/
theorem note_arrange {script arranged : Script} (h : arrange script = .ok arranged) (i : Nat) :
    (arranged.line i).note = (script.line i).note := by
  obtain ⟨links, rfl⟩ := arrange_eq_ok h
  rw [line_linkLines]
  split
  · rfl
  · rw [Script.line_of_le (Nat.le_of_not_lt ‹_›)]

/-- Resolving jumps changes nothing but the notes, and notes only labels that the jumps may reach. -/
theorem resolveJumps_eq_ok {script : Script} {id : LineId} {lines lines' : List Line}
    (h : resolveJumps script id lines = .ok lines') :
    lines'.length = lines.length ∧ ∀ k line, lines[k]? = some line →
      ∃ note, lines'[k]? = some { line with note } ∧
        (note = line.note ∨ ∃ label, jumpNote script (id + k) = .ok (some label) ∧ note = .label label) := by
  induction lines generalizing id lines' with
  | nil =>
    cases h
    exact ⟨rfl, fun _ _ h => by cases h⟩
  | cons first rest ih =>
    unfold resolveJumps at h
    simp only at h
    cases hnote : jumpNote script id with
    | error problem => simp only [hnote] at h; cases h
    | ok found =>
      obtain ⟨note, hfirst, rest', hrest, rfl⟩ : ∃ note,
          (note = first.note ∨ ∃ label, found = some label ∧ note = .label label) ∧
          ∃ rest', resolveJumps script (id + 1) rest = .ok rest' ∧ lines' = { first with note } :: rest' := by
        cases found with
        | none =>
          simp only [hnote] at h
          obtain ⟨_, hpure, h⟩ := bind_eq_ok_iff.mp h
          cases hpure
          obtain ⟨rest', hrest, h⟩ := bind_eq_ok_iff.mp h
          cases h
          exact ⟨first.note, .inl rfl, rest', hrest, rfl⟩
        | some label =>
          simp only [hnote] at h
          obtain ⟨_, hpure, h⟩ := bind_eq_ok_iff.mp h
          cases hpure
          obtain ⟨rest', hrest, h⟩ := bind_eq_ok_iff.mp h
          cases h
          exact ⟨.label label, .inr ⟨label, rfl, rfl⟩, rest', hrest, rfl⟩
      obtain ⟨hlength, hlines⟩ := ih hrest
      refine ⟨by rw [List.length_cons, List.length_cons, hlength], ?_⟩
      intro k line hline
      cases k with
      | zero =>
        obtain rfl := Option.some.inj hline
        refine ⟨note, rfl, hfirst.imp (fun h => h) fun ⟨label, hfound, h⟩ => ⟨label, ?_, h⟩⟩
        rw [Nat.add_zero, hnote, hfound]
      | succ k =>
        obtain ⟨note', h1, h2⟩ := hlines k line hline
        rw [Nat.add_right_comm] at h2
        exact ⟨note', h1, h2⟩

/-- A resolved program has the lines it had before, apart from their notes. -/
theorem line_resolveJumps {script : Script} {lines : List Line}
    (h : resolveJumps script 0 script.lines.toList = .ok lines) (i : Nat) :
    ∃ note, ({ script with lines := lines.toArray } : Script).line i = { script.line i with note } ∧
      (note = (script.line i).note ∨ ∃ label, jumpNote script i = .ok (some label) ∧ note = .label label) := by
  obtain ⟨hlength, hlines⟩ := resolveJumps_eq_ok h
  rw [Array.length_toList] at hlength
  by_cases hi : i < script.lines.size
  · obtain ⟨note, hline, hnote⟩ := hlines i script.lines[i] (by simp [hi])
    rw [Nat.zero_add] at hnote
    rw [Script.line_of_lt hi]
    exact ⟨note, by simp [Script.line, hline], hnote⟩
  · rw [Script.line_of_le (Nat.le_of_not_lt hi), Script.line_of_le (by simpa [hlength] using hi)]
    exact ⟨.none, rfl, .inl rfl⟩

/-- The label found for a line is the one that its first argument names, which is literal and not blank, and a `Goto` or `Gosub`
may reach it. -/
theorem jumpNote_eq_some {script : Script} {id : LineId} {label : LabelId} (h : jumpNote script id = .ok (some label)) :
    (script.line id).action.takesLabel = true ∧
    (∃ arg, (script.line id).args.head? = some arg ∧ arg.isLiteral = true ∧ (Text.trim arg.text).isEmpty = false ∧
      script.labels.find? (Text.trim arg.text) = some label) ∧
    ((script.line id).action = .goto ∨ (script.line id).action = .gosub →
      script.isJumpValid id (script.labels.target label) = true) := by
  unfold jumpNote at h
  simp only at h
  split at h
  · cases h
  · rename_i htakes
    split at h
    · cases h
    · rename_i arg harg
      split at h
      · cases h
      · rename_i hnamed
        split at h
        · cases h
        · rename_i found hfound
          split at h
          · cases h
          · rename_i hvalid
            cases h
            simp only [Bool.not_eq_true, Bool.or_eq_false_iff, Bool.not_eq_false'] at hnamed
            refine ⟨by simpa using htakes, ⟨arg, harg, hnamed.1, hnamed.2, hfound⟩, ?_⟩
            rintro (haction | haction) <;> simpa [haction] using hvalid

/-- A loaded program is laid out. -/
theorem laidOut_of_load {commands : CommandSet} {items : List Item} {program : Program}
    (h : load commands items = .ok program) : ∃ last layout, program.script.LaidOut last layout := by
  obtain ⟨built, ended, arranged, lines, -, hended, harranged, hlines, rfl⟩ := load_eq_ok h
  obtain ⟨vars, args, note, note', -, -, rfl⟩ := Builder.push_eq_ok hended
  obtain ⟨⟨layout, hlaid⟩, -⟩ := @laidOut_of_arrange _ _ built.lines.size (by simp)
    (by simp [Script.shapeAt, Script.line, shape, Script.isConditional]) harranged
  refine ⟨built.lines.size, layout, hlaid.congr ?_ rfl fun i => ?_⟩
  · simpa using (resolveJumps_eq_ok hlines).1
  · obtain ⟨note, hline, -⟩ := line_resolveJumps hlines i
    exact ⟨note, hline⟩

/-- A label that is noted at a line of a loaded program was found for it once the lines were linked. -/
theorem jumpNote_of_load {commands : CommandSet} {items : List Item} {program : Program}
    (h : load commands items = .ok program) {id : LineId} {label : LabelId}
    (hnote : (program.script.line id).note = .label label) :
    ∃ arranged : Script, jumpNote arranged id = .ok (some label) ∧ program.script.labels = arranged.labels ∧
      program.script.lines.size = arranged.lines.size ∧
      ∀ i, ∃ note, program.script.line i = { arranged.line i with note } := by
  obtain ⟨built, ended, arranged, lines, hbuilt, hended, harranged, hlines, rfl⟩ := load_eq_ok h
  have hown := Builder.ownNotes_push hended (Builder.ownNotes_addItems hbuilt)
  refine ⟨arranged, ?_, rfl, by simpa using (resolveJumps_eq_ok hlines).1, fun i => ?_⟩
  · obtain ⟨note, hline, hfound⟩ := line_resolveJumps hlines id
    rw [hline] at hnote
    have hnote : note = .label label := hnote
    rcases hfound with hfound | ⟨label', hfound, hlabel⟩
    · -- a note from before would be one of the lines under construction
      rw [hfound, note_arrange harranged] at hnote
      by_cases hlt : id < ended.lines.size
      · rw [Script.line_of_lt hlt] at hnote
        exact absurd hnote (hown _ (Array.getElem_mem hlt) label)
      · rw [Script.line_of_le (Nat.le_of_not_lt hlt)] at hnote
        cases hnote
    · obtain rfl : label' = label := Note.label.inj (hlabel.symm.trans hnote)
      exact hfound
  · obtain ⟨note, hline, -⟩ := line_resolveJumps hlines i
    exact ⟨note, hline⟩

/-- A label that is noted at a line of a loaded program is the one that its first argument names. -/
theorem noted_of_load {commands : CommandSet} {items : List Item} {program : Program}
    (h : load commands items = .ok program) {id : LineId} {label : LabelId}
    (hnote : (program.script.line id).note = .label label) :
    (program.script.line id).action.takesLabel = true ∧
      ∃ arg, (program.script.line id).args.head? = some arg ∧ arg.isLiteral = true ∧
        (Text.trim arg.text).isEmpty = false ∧ program.script.labels.find? (Text.trim arg.text) = some label := by
  obtain ⟨arranged, hfound, hlabels, -, hlines⟩ := jumpNote_of_load h hnote
  obtain ⟨note, hline⟩ := hlines id
  obtain ⟨htakes, hnamed, -⟩ := jumpNote_eq_some hfound
  rw [hlabels, hline]
  exact ⟨htakes, hnamed⟩

/-- The labels noted at the jumps of a loaded program are ones that the jumps may reach. -/
theorem isJumpValid_of_load {commands : CommandSet} {items : List Item} {program : Program}
    (h : load commands items = .ok program) {id : LineId} {label : LabelId}
    (haction : (program.script.line id).action = .goto ∨ (program.script.line id).action = .gosub)
    (hnote : (program.script.line id).note = .label label) :
    program.script.isJumpValid id (program.script.labels.target label) = true := by
  obtain ⟨arranged, hfound, hlabels, hsize, hlines⟩ := jumpNote_of_load h hnote
  have hparent : ∀ i, (program.script.line i).parent = (arranged.line i).parent := by
    intro i
    obtain ⟨note, hline⟩ := hlines i
    rw [hline]
  obtain ⟨note, hline⟩ := hlines id
  rw [hline] at haction
  rw [Script.isJumpValid_congr hsize hparent, hlabels]
  exact (jumpNote_eq_some hfound).2.2 haction

end Program

end LineScript
