import LineScript.Load.Builder
import LineScript.Load.Layout

/-!
# Loading programs

`Program.load` builds the lines of a program, adds the `Exit` that ends it, links the lines by their layout and resolves
literal jumps. It gives a program or the first problem.
-/

namespace LineScript

namespace Program

/-- What a line is to the layout. -/
def shape (commands : CommandSet) (action : Action) : Shape :=
  match action with
  | .blockBegin => .opening
  | .blockEnd => .closing
  | .otherwise => .otherwise
  | .loop => .loop
  | .breakLoop | .continueLoop => .inLoop action.name
  | action => if Script.isConditional commands action then .cond else .plain

/-- The lines with their links: neighbours by number, the others as the layout says. -/
def linkLines (lines : Array Line) (links : List Link) : Array Line :=
  let links := links.toArray
  lines.mapIdx fun i line =>
    let link := (links[i]?).getD ⟨none, none⟩
    { line with
      prev := if i == 0 then none else some (i - 1)
      next := if i + 1 < lines.size then some (i + 1) else none
      parent := link.parent
      related := link.related }

/-- A problem at a line. -/
def problemAt (files : Array String) (lines : Array Line) (id : LineId) (problem : LoadProblem) : LoadError :=
  let line := (lines[id]?).getD default
  ⟨Script.fileName files line.file, line.lineNo, problem⟩

/-- Links the lines of a program by their layout. -/
def arrange (script : Script) : Except LoadError Script :=
  let rows := script.lines.toList.mapIdx fun i line => (⟨i, shape script.commands line.action⟩ : Row)
  match Layout.ofRows (script.lines.size - 1) rows with
  | .error fault => .error (problemAt script.files script.lines fault.id fault.problem)
  | .ok layout => .ok { script with lines := linkLines script.lines (layout.links none none none) }

/-- The label a line jumps to, if its first argument is literal and not blank. A `Goto` or `Gosub` must reach it. -/
def jumpNote (script : Script) (id : LineId) : Except LoadProblem (Option LabelId) :=
  let line := script.line id
  if !line.action.takesLabel then .ok none
  else match line.args.head? with
    | none => .ok none
    | some arg =>
      let name := Text.trim arg.text
      if !arg.isLiteral || name.isEmpty then .ok none
      else match script.labels.find? name with
        | none => .error (.unknownLabel name)
        | some label =>
          if (line.action == .goto || line.action == .gosub) && !script.isJumpValid id (script.labels.target label) then
            .error (.jumpIntoBlock line.action.name name)
          else .ok (some label)

/-- Resolves the literal jumps of the lines from `id` on. -/
def resolveJumps (script : Script) : (id : LineId) → List Line → Except LoadError (List Line)
  | _, [] => .ok []
  | id, line :: rest => do
    let note ← match jumpNote script id with
      | .error problem => throw (problemAt script.files script.lines id problem)
      | .ok none => pure line.note
      | .ok (some label) => pure (.label label)
    let rest ← resolveJumps script (id + 1) rest
    return { line with note } :: rest

/-- Ends a program with an `Exit`, links its lines and resolves its jumps. -/
def finish (b : Builder) : Except LoadError Program := do
  let b ← b.push .exit [] (b.lastLineNo + 1)
  let script ← arrange { lines := b.lines, labels := b.labels, files := b.files, commands := b.commands }
  let lines ← resolveJumps script 0 script.lines.toList
  return { script := { script with lines := lines.toArray }, vars := b.vars }

/-- Loads a program from its entries. -/
def load (commands : CommandSet) (items : List Item) : Except LoadError Program := do
  let b ← items.foldlM Builder.addItem (Builder.start commands)
  finish b

end Program

end LineScript
