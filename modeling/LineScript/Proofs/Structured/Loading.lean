import LineScript.Proofs.Load.Arranged
import LineScript.Proofs.Structured.Blind
import LineScript.Proofs.Structured.Tree

/-!
# Loading structured programs

A well-formed tree whose statements can be built is loaded, and the loaded program is the tree: its lines are those that were
built, with links that follow the layout of the tree (`Program.load_tree`).
-/

namespace LineScript

namespace Builder

/-- The program under construction, before its lines are linked. -/
def script (b : Builder) : Script :=
  { lines := b.lines, labels := b.labels, files := b.files, commands := b.commands }

/-- A statement alone on its line adds one line with its action. -/
theorem addItem_statement {b b' : Builder} {s : Statement} {action : Action} (haction : s.action? b.commands = some action)
    (h : b.addItem (.statement s []) = .ok b') :
    b'.commands = b.commands ∧ ∃ line, line.action = action ∧ b'.lines = b.lines.push line := by
  simp only [addItem, addStatements] at h
  obtain ⟨b₁, hadd, h⟩ := bind_eq_ok_iff.mp h
  cases h
  simp only [Statement.action?] at haction
  split at haction
  · cases haction
  rename_i hrepeat
  rw [Bool.not_eq_true, Bool.or_eq_false_iff] at hrepeat
  split at haction
  · rename_i action' args hkeyword
    obtain rfl := Option.some.inj haction
    simp only [addStatement, hrepeat.1, hrepeat.2, hkeyword] at hadd
    split at hadd
    · cases hadd
    obtain ⟨⟨action, args⟩, hplaced, hadd⟩ := bind_eq_ok_iff.mp hadd
    cases hplaced
    obtain ⟨b₂, hpush, hadd⟩ := bind_eq_ok_iff.mp hadd
    cases hadd
    obtain ⟨vars, built, note, note', -, -, rfl⟩ := push_eq_ok hpush
    exact ⟨rfl, _, rfl, rfl⟩
  · cases haction

/-- Statements that each have a line of their own add lines with their actions. -/
theorem addItems_statements {b b' : Builder} {statements : List Statement}
    (hactions : ∀ s ∈ statements, ∃ action, s.action? b.commands = some action)
    (h : (statements.map (Item.statement · [])).foldlM addItem b = .ok b') :
    b'.commands = b.commands ∧
      (b'.lines.toList.map fun line => some line.action) =
        (b.lines.toList.map fun line => some line.action) ++ statements.map (·.action? b.commands) := by
  induction statements generalizing b with
  | nil =>
    cases h
    exact ⟨rfl, by simp⟩
  | cons s rest ih =>
    rw [List.map_cons, List.foldlM_cons] at h
    obtain ⟨b₁, h₁, h⟩ := bind_eq_ok_iff.mp h
    obtain ⟨action, haction⟩ := hactions s List.mem_cons_self
    obtain ⟨hcommands, line, hline, hlines⟩ := addItem_statement haction h₁
    have hrest := ih (fun s hs => by rw [hcommands]; exact hactions s (List.mem_cons_of_mem _ hs)) h
    rw [hcommands] at hrest
    refine ⟨hrest.1, ?_⟩
    rw [hrest.2, hlines]
    simp [hline, haction]

/-- A program under construction with the line that ends it. -/
def ended (b : Builder) : Builder :=
  { b with
    lines := b.lines.push { action := .exit, file := b.file, lineNo := b.lastLineNo + 1, args := [] }
    labels := bindLabels b.labels b.pending b.lines.size
    pending := []
    lastLineNo := max b.lastLineNo (b.lastLineNo + 1) }

/-- The line that ends a program can always be added. -/
theorem push_exit (b : Builder) : b.push .exit [] (b.lastLineNo + 1) = .ok b.ended :=
  rfl

/-- The line that ends a program is one more. -/
theorem size_ended (b : Builder) : b.ended.script.lines.size = b.lines.size + 1 :=
  Array.size_push _

/-- The line that ends a program leaves the others as they are. -/
theorem line_ended_of_lt (b : Builder) {i : Nat} (hi : i < b.lines.size) : b.ended.script.line i = b.lines[i] := by
  simp [Script.line, script, ended, Array.getElem?_push_lt hi]

/-- The line that ends a program is an `Exit`. -/
theorem action_ended (b : Builder) : (b.ended.script.line b.lines.size).action = .exit := by
  simp [Script.line, script, ended]

end Builder

/-- A program has the lines of another one, linked by a layout, and an `Exit` after them. -/
structure Script.Realizes (script raw : Script) (layout : Layout) (last : Nat) : Prop where
  links : raw.Links script last
  size_eq : script.lines.size = last + 1
  next_eq : ∀ i < last, (script.line i).next = some (i + 1)
  laid : Layout.Laid script.shapeAt last .many false layout 0 last
  linked : layout.LinkedBy script.linkAt none none last
  exit_eq : (script.line last).action = .exit

namespace Program

open Layout

/-- A program without lines that name labels has no jumps to resolve. -/
theorem resolveJumps_eq_self {script : Script} {id : LineId} {lines : List Line}
    (h : ∀ i, (script.line i).action.takesLabel = false) : resolveJumps script id lines = .ok lines := by
  induction lines generalizing id with
  | nil => rfl
  | cons line rest ih =>
    have hnote : jumpNote script id = .ok none := by simp [jumpNote, h id]
    simp only [resolveJumps, hnote, ih]
    rfl

/-- A program whose lines are laid out and name no labels is loaded, linked by that layout. -/
theorem load_of_laid {commands : CommandSet} {items : List Item} {built : Builder} {layout : Layout}
    (hbuilt : items.foldlM Builder.addItem (Builder.start commands) = .ok built)
    (hlaid : Laid built.ended.script.shapeAt built.lines.size .many false layout 0 (built.lines.size + 1))
    (hlabel : ∀ i, (built.ended.script.line i).action.takesLabel = false) :
    load commands items = .ok
      { script := { built.ended.script with
          lines := linkLines built.ended.script.lines (layout.links none none none) }
        vars := built.vars } := by
  have harrange : arrange built.ended.script = .ok { built.ended.script with
      lines := linkLines built.ended.script.lines (layout.links none none none) } := by
    unfold arrange
    rw [rows_eq]
    simp only [built.size_ended, Nat.add_sub_cancel, ofRows_of_laid hlaid]
  have hjumps : ∀ i, (({ built.ended.script with
      lines := linkLines built.ended.script.lines (layout.links none none none) } : Script).line i).action.takesLabel =
        false := by
    intro i
    rw [line_linkLines]
    split
    · exact hlabel i
    · rfl
  unfold load finish
  rw [hbuilt]
  refine bind_eq_ok_iff.mpr ⟨built, rfl, bind_eq_ok_iff.mpr ⟨built.ended, built.push_exit, ?_⟩⟩
  refine bind_eq_ok_iff.mpr ⟨_, harrange, bind_eq_ok_iff.mpr ⟨_, resolveJumps_eq_self hjumps, ?_⟩⟩
  rfl

section

variable {commands : CommandSet} {tree : Tree .many} {built : Builder}
  (htree : tree.wellFormed commands false = true)
  (hbuilt : tree.items.foldlM Builder.addItem (Builder.start commands) = .ok built)
include htree hbuilt

/-- The lines built from a tree have the actions of its statements. -/
theorem actions_tree : built.commands = commands ∧
    (built.lines.toList.map fun line => some line.action) = tree.statements.map (·.action? commands) := by
  have hcommands : (Builder.start commands).commands = commands := rfl
  have hlines : (Builder.start commands).lines = #[] := rfl
  have hactions : ∀ s ∈ tree.statements, ∃ action, s.action? (Builder.start commands).commands = some action :=
    fun s hs => (Tree.exists_action htree s hs).imp fun _ h => h.1
  have hadded := Builder.addItems_statements hactions hbuilt
  rwa [hlines, hcommands, Array.toList_empty, List.map_nil, List.nil_append] at hadded

/-- A tree has as many lines as were built from it. -/
theorem size_tree : built.lines.size = tree.size := by
  have hlen := congrArg List.length (actions_tree htree hbuilt).2
  simpa [Tree.size] using hlen

/-- A line built from a tree has the action of its statement. -/
theorem action_tree {i : Nat} (hi : i < built.lines.size) (hs : i < tree.statements.length) :
    (tree.statements[i]).action? commands = some (built.lines[i]).action := by
  have hget := congrArg (·[i]?) (actions_tree htree hbuilt).2
  simp only [List.getElem?_map, Array.getElem?_toList, Array.getElem?_eq_getElem hi, List.getElem?_eq_getElem hs,
    Option.map_some, Option.some.injEq] at hget
  exact hget.symm

/-- The lines built from a tree have the shapes of its statements. -/
theorem shapes_tree :
    stretch built.ended.script.shapeAt 0 built.lines.size = tree.statements.map (Tree.shapeOf commands) := by
  have hsize := size_tree htree hbuilt
  apply List.ext_getElem
  · rw [length_stretch, List.length_map, hsize]
    rfl
  · intro i h1 h2
    rw [length_stretch] at h1
    rw [List.length_map] at h2
    have hi : i < built.lines.size := h1
    have hcommands : built.ended.script.commands = commands := (actions_tree htree hbuilt).1
    rw [List.getElem_map, Tree.shapeOf_eq (action_tree htree hbuilt hi h2)]
    simp only [stretch, List.getElem_map, List.getElem_range', Nat.zero_add, Nat.one_mul, Script.shapeAt,
      built.line_ended_of_lt hi, hcommands]

/-- No line built from a tree names a label. -/
theorem takesLabel_tree (i : Nat) : (built.ended.script.line i).action.takesLabel = false := by
  rcases Nat.lt_trichotomy i built.lines.size with hi | rfl | hi
  · have hs : i < tree.statements.length := by
      rwa [size_tree htree hbuilt] at hi
    obtain ⟨action, haction, hlabel⟩ := Tree.exists_action htree _ (List.getElem_mem hs)
    rw [action_tree htree hbuilt hi hs] at haction
    rw [built.line_ended_of_lt hi, Option.some.inj haction, hlabel]
  · rw [built.action_ended]
    rfl
  · rw [Script.line_of_le (by rw [built.size_ended]; exact hi)]
    rfl

/-- The lines built from a tree are laid out as the tree. -/
theorem laid_tree : Laid built.ended.script.shapeAt built.lines.size .many false (tree.layout 0) 0 built.lines.size := by
  have hsize := size_tree htree hbuilt
  have hlaid := @Tree.laid commands .many false tree htree built.ended.script.shapeAt built.lines.size 0
  rw [Nat.zero_add, ← hsize] at hlaid
  refine hlaid (Nat.le_refl _) (shapes_tree htree hbuilt) fun _ => ?_
  rw [Script.shapeAt, built.action_ended]
  intro hshape
  cases hshape

/-- A well-formed tree whose statements can be built is loaded, and the program is linked by the layout of the tree. -/
theorem load_tree : ∃ program, load commands tree.items = .ok program ∧
    program.script.Realizes built.script (tree.layout 0) built.lines.size := by
  have hplain : built.ended.script.shapeAt built.lines.size = .plain := by
    rw [Script.shapeAt, built.action_ended]
    rfl
  have hlaid := laid_tree htree hbuilt
  have hclosed := hlaid.followedBy rfl (.seq (.plain hplain) .nil)
  refine ⟨_, load_of_laid hbuilt hclosed (takesLabel_tree htree hbuilt), ?_⟩
  have hlaidOut := laidOut_linkLines built.size_ended hplain hclosed
  refine ⟨⟨rfl, rfl, ?_⟩, hlaidOut.size_eq, ?_, ?_, ?_, ?_⟩
  · intro i hi
    have hline := line_linkLines built.ended.script
      (((tree.layout 0).followedBy (.seq (.plain built.lines.size) .nil)).links none none none) i
    have hraw : built.script.line i = built.lines[i] := Script.line_of_lt hi
    rw [if_pos (by rw [built.size_ended]; omega), built.line_ended_of_lt hi, ← hraw] at hline
    exact ⟨_, _, _, _, hline⟩
  · intro i hi
    rw [hlaidOut.next_eq i (Nat.le_of_lt hi), if_pos hi]
  · rw [shapeAt_linkLines]
    exact hlaid
  · exact hlaidOut.linked.of_followedBy
  · rw [line_linkLines, if_pos (by rw [built.size_ended]; exact Nat.lt_succ_self _)]
    exact built.action_ended

end

end Program

end LineScript
