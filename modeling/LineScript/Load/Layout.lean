import LineScript.Load.Problem

/-!
# Layout

How the lines of a program nest. Braces are paired first; then the lines are read as statements, where a condition, an
else and a loop each take the one statement after them as their body. The links of every line, what encloses it and
which line it is related to, are read off the statements.
-/

namespace LineScript

/-- What a line is to the layout: a plain line, a line that only stands inside a loop, a brace, or the owner of a body. -/
inductive Shape where
  | plain
  | inLoop (action : String)
  | opening
  | closing
  | cond
  | otherwise
  | loop
  deriving DecidableEq

/-- A line of a program by number and shape. -/
structure Row where
  /-- The number of the line. -/
  id : Nat
  /-- Its shape. -/
  shape : Shape
  deriving DecidableEq

/-- A problem at a line. -/
structure Fault where
  /-- The number of the line. -/
  id : Nat
  /-- The problem. -/
  problem : LoadProblem
  deriving DecidableEq

/-- A part of a program: nothing, a statement followed by more, or a statement. A block has its two braces, a branch the
line of its condition and possibly an else, and a loop its own line. -/
inductive Layout where
  | nil
  | seq (first rest : Layout)
  | plain (id : Nat)
  | block (first last : Nat) (body : Layout)
  | branch (id : Nat) (body : Layout)
  | branchElse (id : Nat) (body : Layout) (other : Nat) (otherBody : Layout)
  | loop (id : Nat) (body : Layout)
  deriving DecidableEq

/-- What the layout says of a line: what encloses it, and the line it is related to. -/
structure Link where
  /-- The enclosing line. -/
  parent : Option Nat
  /-- The other brace, the else, or the line after a body. -/
  related : Option Nat
  deriving DecidableEq

namespace Layout

/-- The first brace without a partner; `opened` holds the open ones, innermost first. -/
def braceFault? : (opened : List Nat) → List Row → Option Fault
  | [], [] => none
  | id :: _, [] => some ⟨id, .missingClose⟩
  | opened, row :: rest =>
    match row.shape, opened with
    | .opening, opened => braceFault? (row.id :: opened) rest
    | .closing, [] => some ⟨row.id, .missingOpen⟩
    | .closing, _ :: opened => braceFault? opened rest
    | _, opened => braceFault? opened rest

mutual

/-- Reads one statement. `last` is the line that closes the program, which is no body, and `inLoop` says whether the
statement stands in the body of a loop. -/
def readStatement (last : Nat) : (fuel : Nat) → (inLoop : Bool) → List Row → Except Fault (Layout × List Row)
  | 0, _, _ => .error ⟨last, .unexpectedClose⟩
  | _ + 1, _, [] => .ok (.nil, [])
  | fuel + 1, inLoop, row :: rows =>
    match row.shape with
    | .plain => .ok (.plain row.id, rows)
    | .inLoop action => if inLoop then .ok (.plain row.id, rows) else .error ⟨row.id, .outsideLoop action⟩
    | .closing => .error ⟨row.id, .unexpectedClose⟩
    | .otherwise => .error ⟨row.id, .strayElse⟩
    | .opening =>
      match readSequence last fuel inLoop rows with
      | .error e => .error e
      | .ok (body, close :: rest) => .ok (.block row.id close.id body, rest)
      | .ok (_, []) => .error ⟨row.id, .missingClose⟩
    | .loop =>
      match readBody last fuel row.id .loop true rows with
      | .error e => .error e
      | .ok (body, rest) => .ok (.loop row.id body, rest)
    | .cond =>
      match readBody last fuel row.id .cond inLoop rows with
      | .error e => .error e
      | .ok (body, []) => .ok (.branch row.id body, [])
      | .ok (body, other :: rest) =>
        if other.shape == .otherwise then
          match readBody last fuel other.id .otherwise inLoop rest with
          | .error e => .error e
          | .ok (otherBody, rest) => .ok (.branchElse row.id body other.id otherBody, rest)
        else .ok (.branch row.id body, other :: rest)

/-- Reads the body of an owner, which is the statement after it. -/
def readBody (last : Nat) : (fuel : Nat) → (id : Nat) → Owner → (inLoop : Bool) → List Row →
    Except Fault (Layout × List Row)
  | 0, id, owner, _, _ => .error ⟨id, .noBody owner⟩
  | _ + 1, id, owner, _, [] => .error ⟨id, .noBody owner⟩
  | fuel + 1, id, owner, inLoop, row :: rows =>
    if row.id == last || row.shape == .closing || row.shape == .otherwise then .error ⟨id, .noBody owner⟩
    else readStatement last fuel inLoop (row :: rows)

/-- Reads statements up to a closing brace or the end. -/
def readSequence (last : Nat) : (fuel : Nat) → (inLoop : Bool) → List Row → Except Fault (Layout × List Row)
  | 0, _, _ => .error ⟨last, .unexpectedClose⟩
  | _ + 1, _, [] => .ok (.nil, [])
  | fuel + 1, inLoop, row :: rows =>
    if row.shape == .closing then .ok (.nil, row :: rows)
    else
      match readStatement last fuel inLoop (row :: rows) with
      | .error e => .error e
      | .ok (first, rest) =>
        match readSequence last fuel inLoop rest with
        | .error e => .error e
        | .ok (more, rest) => .ok (.seq first more, rest)

end

/-- Reads a whole program, whose last line is `last`. Braces are paired before anything else is looked at. Every row is
read once as a statement and at most twice on the way there, which bounds the rounds. -/
def ofRows (last : Nat) (rows : List Row) : Except Fault Layout :=
  match braceFault? [] rows with
  | some fault => .error fault
  | none =>
    match readSequence last (3 * rows.length + 3) false rows with
    | .error e => .error e
    | .ok (layout, []) => .ok layout
    | .ok (_, row :: _) => .error ⟨row.id, .unexpectedClose⟩

/-- The number of the first line of a part. -/
def first? : Layout → Option Nat
  | nil => none
  | seq first rest => first.first?.or rest.first?
  | plain id => some id
  | block first _ _ => some first
  | branch id _ => some id
  | branchElse id _ _ _ => some id
  | loop id _ => some id

/-- The links of the lines of a part, in order. `inside` is the innermost block around it, `parent` what encloses its
first line, and `after` the line after it. A body's first line is enclosed by its owner, an else by the block it stands
in, and a closing brace by its partner. -/
def links : Layout → (inside parent after : Option Nat) → List Link
  | nil, _, _, _ => []
  | seq first rest, inside, _, after =>
    first.links inside inside (rest.first?.or after) ++ rest.links inside inside after
  | plain _, _, parent, _ => [⟨parent, none⟩]
  | block first last body, _, parent, _ =>
    ⟨parent, some last⟩ :: body.links (some first) (some first) (some last) ++ [⟨some first, some first⟩]
  | branch id body, inside, parent, after => ⟨parent, after⟩ :: body.links inside (some id) after
  | branchElse id body other otherBody, inside, parent, after =>
    ⟨parent, some other⟩ :: body.links inside (some id) (some other) ++
      (⟨inside, after⟩ :: otherBody.links inside (some other) after)
  | loop id body, inside, parent, after => ⟨parent, after⟩ :: body.links inside (some id) after

end Layout

end LineScript
