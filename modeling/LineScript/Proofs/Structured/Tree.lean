import LineScript.Proofs.Load.Building
import LineScript.Proofs.Load.Links

/-!
# Structured programs

A program without jumps as a tree of statements. Written out line by line (`Tree.statements`), a well-formed tree has the shapes
of its own layout (`Tree.laid`): no other reading of the lines is possible, since an else never stands right after a condition
that has none.
-/

namespace LineScript

open Layout

/-- A structured program: one statement, or statements one after the other. -/
inductive Tree : Part → Type where
  | line (head : Statement) : Tree .one
  | block (openNo closeNo : Nat) (body : Tree .many) : Tree .one
  | branch (head : Statement) (body : Tree .one) : Tree .one
  | branchElse (head : Statement) (body : Tree .one) (elseNo : Nat) (other : Tree .one) : Tree .one
  | loop (head : Statement) (body : Tree .one) : Tree .one
  | nil : Tree .many
  | seq (first : Tree .one) (rest : Tree .many) : Tree .many

/-- What a statement does, if it is a line of its own. -/
def Statement.action? (commands : CommandSet) (s : Statement) : Option Action :=
  let lower := Text.asciiLower (Text.trim s.keyword)
  if lower == "repeat" || lower == "endrepeat" then none
  else match Keyword.action commands s.keyword (Builder.dropBlankEnd s.args) with
    | .ok (action, _) => some action
    | .error _ => none

namespace Action

/-- Whether an action makes a statement of one line: an assignment, a command that neither waits nor selects a line, a
`Return`, or in a loop a `Break` or a `Continue`. -/
def isSimple (commands : CommandSet) (inLoop : Bool) : Action → Bool
  | assign _ | ret => true
  | command id => !(commands.get id).conditional && !(commands.get id).waits
  | breakLoop | continueLoop => inLoop
  | _ => false

/-- Whether an action is a condition: one of the engine, or a command that does not wait and selects a line. -/
def isTest (commands : CommandSet) : Action → Bool
  | cond _ => true
  | command id => (commands.get id).conditional && !(commands.get id).waits
  | _ => false

/-- A statement of one line names no label. -/
theorem takesLabel_of_isSimple {commands : CommandSet} {inLoop : Bool} {action : Action}
    (h : action.isSimple commands inLoop = true) : action.takesLabel = false := by
  cases action <;> first | rfl | cases h

/-- A condition names no label. -/
theorem takesLabel_of_isTest {commands : CommandSet} {action : Action} (h : action.isTest commands = true) :
    action.takesLabel = false := by
  cases action <;> first | rfl | cases h

/-- A statement of one line is plain, or stands in a loop. -/
theorem shape_of_isSimple {commands : CommandSet} {inLoop : Bool} {action : Action}
    (h : action.isSimple commands inLoop = true) :
    Program.shape commands action = .plain ∨ inLoop = true ∧ ∃ name, Program.shape commands action = .inLoop name := by
  cases action with
  | assign | ret => exact .inl rfl
  | breakLoop | continueLoop => exact .inr ⟨h, _, rfl⟩
  | command id =>
    rw [isSimple, Bool.and_eq_true, Bool.not_eq_true'] at h
    exact .inl (by simp [Program.shape, Script.isConditional, h.1])
  | _ => cases h

/-- A condition is one for the layout as well. -/
theorem shape_of_isTest {commands : CommandSet} {action : Action} (h : action.isTest commands = true) :
    Program.shape commands action = .cond := by
  cases action with
  | cond => rfl
  | command id =>
    rw [isTest, Bool.and_eq_true] at h
    simp [Program.shape, Script.isConditional, h.1]
  | _ => cases h

end Action

namespace Tree

/-- A brace or an else. -/
def mark (keyword : String) (lineNo : Nat) : Statement :=
  { keyword, lineNo }

/-- The statements of a tree, one for each line. -/
def statements {p : Part} : Tree p → List Statement
  | line head => [head]
  | block openNo closeNo body => mark "\x7b" openNo :: body.statements ++ [mark "\x7d" closeNo]
  | branch head body => head :: body.statements
  | branchElse head body elseNo other => head :: body.statements ++ mark "else" elseNo :: other.statements
  | loop head body => head :: body.statements
  | nil => []
  | seq first rest => first.statements ++ rest.statements

/-- The entries of a program that is written as a tree. -/
def items {p : Part} (tree : Tree p) : List Item :=
  tree.statements.map (.statement · [])

/-- The number of lines of a tree. -/
def size {p : Part} (tree : Tree p) : Nat :=
  tree.statements.length

/-- The layout of a tree whose first line is line `i`. -/
def layout {p : Part} : Tree p → (i : Nat) → Layout
  | line _, i => .plain i
  | block _ _ body, i => .block i (i + 1 + body.size) (body.layout (i + 1))
  | branch _ body, i => .branch i (body.layout (i + 1))
  | branchElse _ body _ other, i =>
    .branchElse i (body.layout (i + 1)) (i + 1 + body.size) (other.layout (i + 1 + body.size + 1))
  | loop _ body, i => .loop i (body.layout (i + 1))
  | nil, _ => .nil
  | seq first rest, i => .seq (first.layout i) (rest.layout (i + first.size))

/-- Whether an else right after a tree would belong to a condition at its end, or to nothing. -/
def endsOpen {p : Part} : Tree p → Bool
  | line _ => false
  | block _ _ _ => false
  | branch _ _ => true
  | branchElse _ _ _ other => other.endsOpen
  | loop _ body => body.endsOpen
  | nil => true
  | seq _ _ => true

/-- Whether the lines of a tree are what their places ask for, and no else could belong to another condition. -/
def wellFormed (commands : CommandSet) {p : Part} : (inLoop : Bool) → Tree p → Bool
  | inLoop, line head => (head.action? commands).any (·.isSimple commands inLoop)
  | inLoop, block _ _ body => body.wellFormed commands inLoop
  | inLoop, branch head body => (head.action? commands).any (·.isTest commands) && body.wellFormed commands inLoop
  | inLoop, branchElse head body _ other =>
    (head.action? commands).any (·.isTest commands) && body.wellFormed commands inLoop && !body.endsOpen &&
      other.wellFormed commands inLoop
  | _, loop head body => head.action? commands == some .loop && body.wellFormed commands true
  | _, nil => true
  | inLoop, seq first rest => first.wellFormed commands inLoop && rest.wellFormed commands inLoop

/-- What a statement is to the layout. -/
def shapeOf (commands : CommandSet) (s : Statement) : Shape :=
  ((s.action? commands).map (Program.shape commands)).getD .plain

/-! ## The actions of a tree -/

variable {commands : CommandSet}

/-- A keyword of the engine without arguments stands for its action. -/
theorem action?_mark {keyword : String} {action : Action} (hlower : Text.asciiLower (Text.trim keyword) = keyword)
    (hrepeat : (keyword == "repeat" || keyword == "endrepeat") = false) (hif : (keyword == "if") = false)
    (haction : Keyword.actions.lookup keyword = some action) (lineNo : Nat) :
    (mark keyword lineNo).action? commands = some action := by
  simp [Statement.action?, mark, Keyword.action, hlower, hrepeat, hif, haction]

/-- An opening brace starts a block. -/
theorem action?_open (lineNo : Nat) : (mark "\x7b" lineNo).action? commands = some .blockBegin :=
  action?_mark (by decide +kernel) (by decide) (by decide) (by decide +kernel) lineNo

theorem action?_close (lineNo : Nat) : (mark "\x7d" lineNo).action? commands = some .blockEnd :=
  action?_mark (by decide +kernel) (by decide) (by decide) (by decide +kernel) lineNo

theorem action?_else (lineNo : Nat) : (mark "else" lineNo).action? commands = some .otherwise :=
  action?_mark (by decide +kernel) (by decide) (by decide) (by decide +kernel) lineNo

/-- Every line of a well-formed tree has an action, and none names a label. -/
theorem exists_action {p : Part} {inLoop : Bool} {tree : Tree p} (h : tree.wellFormed commands inLoop = true) :
    ∀ s ∈ tree.statements, ∃ action, s.action? commands = some action ∧ action.takesLabel = false := by
  induction tree generalizing inLoop with
  | line head =>
    obtain ⟨action, haction, hsimple⟩ := (Option.any_eq_true _ _).mp h
    rw [statements, List.forall_mem_singleton]
    exact ⟨action, haction, Action.takesLabel_of_isSimple hsimple⟩
  | block openNo closeNo body ih =>
    rw [statements, List.cons_append, List.forall_mem_cons, List.forall_mem_append, List.forall_mem_singleton]
    exact ⟨⟨_, action?_open openNo, rfl⟩, ih h, ⟨_, action?_close closeNo, rfl⟩⟩
  | branch head body ih =>
    rw [wellFormed, Bool.and_eq_true] at h
    obtain ⟨action, haction, htest⟩ := (Option.any_eq_true _ _).mp h.1
    rw [statements, List.forall_mem_cons]
    exact ⟨⟨action, haction, Action.takesLabel_of_isTest htest⟩, ih h.2⟩
  | branchElse head body elseNo other ih1 ih2 =>
    rw [wellFormed, Bool.and_eq_true, Bool.and_eq_true, Bool.and_eq_true] at h
    obtain ⟨⟨⟨h, h1⟩, -⟩, h2⟩ := h
    obtain ⟨action, haction, htest⟩ := (Option.any_eq_true _ _).mp h
    rw [statements, List.cons_append, List.forall_mem_cons, List.forall_mem_append, List.forall_mem_cons]
    exact ⟨⟨action, haction, Action.takesLabel_of_isTest htest⟩, ih1 h1, ⟨_, action?_else elseNo, rfl⟩, ih2 h2⟩
  | loop head body ih =>
    rw [wellFormed, Bool.and_eq_true, beq_iff_eq] at h
    rw [statements, List.forall_mem_cons]
    exact ⟨⟨_, h.1, rfl⟩, ih h.2⟩
  | nil => exact fun s hs => absurd hs List.not_mem_nil
  | seq first rest ih1 ih2 =>
    rw [wellFormed, Bool.and_eq_true] at h
    rw [statements, List.forall_mem_append]
    exact ⟨ih1 h.1, ih2 h.2⟩

/-! ## The layout of a tree -/

/-- A statement with an action has the shape of that action. -/
theorem shapeOf_eq {s : Statement} {action : Action} (h : s.action? commands = some action) :
    shapeOf commands s = Program.shape commands action := by
  rw [shapeOf, h]
  rfl

/-- A well-formed tree is laid out where its lines stand, if no else follows that it could have. -/
theorem laid {p : Part} {inLoop : Bool} {tree : Tree p} (h : tree.wellFormed commands inLoop = true) {shape : Nat → Shape}
    {last : Nat} : ∀ i, i + tree.size ≤ last →
    stretch shape i (i + tree.size) = tree.statements.map (shapeOf commands) →
    (tree.endsOpen = true → shape (i + tree.size) ≠ .otherwise) →
    Laid shape last p inLoop (tree.layout i) i (i + tree.size) := by
  induction tree generalizing inLoop with
  | line head =>
    intro i hlast hseg hopen
    obtain ⟨action, haction, hsimple⟩ := (Option.any_eq_true _ _).mp h
    rw [size, statements, List.length_singleton, stretch_singleton, List.map_singleton] at hseg
    have hshape : shape i = Program.shape commands action := by
      rw [(List.cons.inj hseg).1, shapeOf_eq haction]
    rcases Action.shape_of_isSimple hsimple with hplain | ⟨rfl, name, hin⟩
    · exact .plain (hshape.trans hplain)
    · exact .inLoop (hshape.trans hin)
  | block openNo closeNo body ih =>
    intro i hlast hseg hopen
    have hsize : i + (block openNo closeNo body).size = i + 1 + body.size + 1 := by
      simp only [size, statements, List.length_append, List.length_cons, List.length_nil]
      omega
    rw [hsize] at hlast hseg ⊢
    rw [stretch_cons shape (by omega), stretch_append shape (Nat.le_add_right _ _) (Nat.le_succ _), stretch_singleton,
      statements, List.cons_append, List.map_cons, List.map_append, List.map_singleton] at hseg
    obtain ⟨hfirst, hseg⟩ := List.cons.inj hseg
    obtain ⟨hbody, hclose⟩ := List.append_inj hseg (by simp [length_stretch, size])
    have hclose : shape (i + 1 + body.size) = .closing := by
      rw [(List.cons.inj hclose).1, shapeOf_eq (action?_close closeNo)]
      rfl
    refine .block ?_ (ih h (i + 1) (by omega) hbody fun _ => by simp [hclose]) hclose
    rw [hfirst, shapeOf_eq (action?_open openNo)]
    rfl
  | branch head body ih =>
    intro i hlast hseg hopen
    rw [wellFormed, Bool.and_eq_true] at h
    obtain ⟨action, haction, htest⟩ := (Option.any_eq_true _ _).mp h.1
    have hsize : i + (branch head body).size = i + 1 + body.size := by
      simp only [size, statements, List.length_cons]
      omega
    rw [hsize] at hlast hseg hopen ⊢
    rw [stretch_cons shape (by omega), statements, List.map_cons] at hseg
    obtain ⟨hfirst, hbody⟩ := List.cons.inj hseg
    have hlaid := ih h.2 (i + 1) hlast hbody fun _ => hopen rfl
    have hlt := hlaid.spans.le.2 rfl
    refine .branch ?_ (by omega) hlaid (hopen rfl)
    rw [hfirst, shapeOf_eq haction, Action.shape_of_isTest htest]
  | branchElse head body elseNo other ih1 ih2 =>
    intro i hlast hseg hopen
    rw [wellFormed, Bool.and_eq_true, Bool.and_eq_true, Bool.and_eq_true, Bool.not_eq_true'] at h
    obtain ⟨⟨⟨h, h1⟩, hclosed⟩, h2⟩ := h
    obtain ⟨action, haction, htest⟩ := (Option.any_eq_true _ _).mp h
    have hsize : i + (branchElse head body elseNo other).size = i + 1 + body.size + 1 + other.size := by
      simp only [size, statements, List.length_append, List.length_cons]
      omega
    rw [hsize] at hlast hseg hopen ⊢
    rw [stretch_cons shape (by omega), stretch_append shape (Nat.le_add_right _ body.size) (by omega),
      stretch_cons shape (i := i + 1 + body.size) (by omega), statements, List.cons_append, List.map_cons, List.map_append,
      List.map_cons] at hseg
    obtain ⟨hfirst, hseg⟩ := List.cons.inj hseg
    obtain ⟨hbody, hseg⟩ := List.append_inj hseg (by simp [length_stretch, size])
    obtain ⟨helse, hother⟩ := List.cons.inj hseg
    have hlaid1 := ih1 h1 (i + 1) (by omega) hbody fun h => by simp [hclosed] at h
    have hlaid2 := ih2 h2 (i + 1 + body.size + 1) hlast hother hopen
    have hlt1 := hlaid1.spans.le.2 rfl
    have hlt2 := hlaid2.spans.le.2 rfl
    refine .branchElse ?_ (by omega) hlaid1 ?_ (by omega) hlaid2
    · rw [hfirst, shapeOf_eq haction, Action.shape_of_isTest htest]
    · rw [helse, shapeOf_eq (action?_else elseNo)]
      rfl
  | loop head body ih =>
    intro i hlast hseg hopen
    rw [wellFormed, Bool.and_eq_true, beq_iff_eq] at h
    have hsize : i + (loop head body).size = i + 1 + body.size := by
      simp only [size, statements, List.length_cons]
      omega
    rw [hsize] at hlast hseg hopen ⊢
    rw [stretch_cons shape (by omega), statements, List.map_cons] at hseg
    obtain ⟨hfirst, hbody⟩ := List.cons.inj hseg
    have hlaid := ih h.2 (i + 1) hlast hbody hopen
    have hlt := hlaid.spans.le.2 rfl
    refine .loop ?_ (by omega) hlaid
    rw [hfirst, shapeOf_eq h.1]
    rfl
  | nil =>
    intro i _ _ _
    exact .nil
  | seq first rest ih1 ih2 =>
    intro i hlast hseg hopen
    rw [wellFormed, Bool.and_eq_true] at h
    have hsize : i + (seq first rest).size = i + first.size + rest.size := by
      simp only [size, statements, List.length_append]
      omega
    rw [hsize] at hlast hseg hopen ⊢
    rw [stretch_append shape (Nat.le_add_right _ first.size) (by omega), statements, List.map_append] at hseg
    obtain ⟨hfirst, hrest⟩ := List.append_inj hseg (by simp [length_stretch, size])
    have hlaid2 := ih2 h.2 (i + first.size) hlast hrest fun _ => hopen rfl
    -- what follows the first statement is another one or the end of the sequence, and neither is an else
    have hnext : shape (i + first.size) ≠ .otherwise := by
      cases rest with
      | nil => exact hopen rfl
      | seq second rest =>
        cases hlaid2 with
        | seq hsecond _ => exact hsecond.spans.head_ne.1
    exact .seq (ih1 h.1 i (by omega) hfirst fun _ => hnext) hlaid2

end Tree

end LineScript
