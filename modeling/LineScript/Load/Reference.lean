import LineScript.Line
import LineScript.Load.Problem
import LineScript.Statement

/-!
# Variable references

Finding the variables an argument refers to. In free text a reference is a name between percent signs; in an expression
every operand is one; a name itself may hold references, whose contents are put into it when it is used. Every variable
named here gets its slot.
-/

namespace LineScript

namespace Reference

/-- The slot of a name, made on first use. -/
def slot (vars : Variables) (name : String) : Except LoadProblem (Variables × VarId) :=
  match vars.resolve name with
  | .ok r => .ok r
  | .error e => .error (.naming e)

/-- The references in the rest of a free text. `done` holds those found, in reverse; `opened` is the offset of a percent
sign that awaits its partner, with the characters after it in reverse. -/
def inTextOnto (literal : Nat → Bool) :
    (vars : Variables) → (done : List Deref) → (opened : Option (Nat × List Char)) → List (Nat × Char) →
      Except LoadProblem (Variables × List Deref)
  | vars, done, none, [] => .ok (vars, done.reverse)
  | _, _, some _, [] => .error .openReference
  | vars, done, opened, (i, c) :: rest =>
    if c == '%' && !literal i then
      match opened with
      | none => inTextOnto literal vars done (some (i, [])) rest
      | some (start, name) =>
        if name.isEmpty then .error .emptyReference
        else match slot vars (.ofList name.reverse) with
          | .error e => .error e
          | .ok (vars, id) => inTextOnto literal vars (⟨start, i + 1 - start, .static id⟩ :: done) none rest
    else inTextOnto literal vars done (opened.map fun (start, name) => (start, c :: name)) rest

/-- The references in a free text. -/
def inText (vars : Variables) (raw : RawArg) : Except LoadProblem (Variables × List Deref) :=
  inTextOnto raw.isLiteralAt vars [] none (Text.withOffsets 0 raw.text.toList)

/-- The literal pieces of a name: nothing for an empty one, and no character that may not stand in a name. -/
def literalPart (name : String) (piece : List Char) : Except LoadProblem (List NamePart) :=
  if piece.isEmpty then .ok []
  else match Name.illegal? piece with
    | some c => .error (.naming (.illegalChar name c))
    | none => .ok [.literal (.ofList piece)]

/-- The parts of a name cut at its percent signs: literal pieces and inner names by turns. -/
def partsOf (name : String) : (vars : Variables) → List (List Char) → Except LoadProblem (Variables × List NamePart)
  | vars, [] => .ok (vars, [])
  | vars, [tail] => do
    let last ← literalPart name tail
    return (vars, last)
  | vars, piece :: inner :: rest => do
    let literal ← literalPart name piece
    if inner.isEmpty then throw .emptyReference
    let (vars, id) ← slot vars (.ofList inner)
    let (vars, parts) ← partsOf name vars rest
    return (vars, literal ++ .var id :: parts)

/-- What a name refers to. A name without percent signs is a variable; one with an even number of them is put together
when it is used. -/
def ofName (vars : Variables) (name : List Char) (literal : Nat → Bool) : Except LoadProblem (Variables × Target) :=
  let pieces := Text.splitBy (fun (i, c) => c == '%' && !literal i) (Text.withOffsets 0 name)
  let pieces := pieces.map (·.map (·.2))
  if pieces.length == 1 then do
    let (vars, id) ← slot vars (.ofList name)
    return (vars, .static id)
  else if pieces.length % 2 == 0 then .error (.openNameReference (.ofList name))
  else do
    let (vars, parts) ← partsOf (.ofList name) vars pieces
    return (vars, .dynamic parts)

/-- The references of the operands among some tokens. -/
def ofTokens : (vars : Variables) → List Token → Except LoadProblem (Variables × List Deref)
  | vars, [] => .ok (vars, [])
  | vars, token :: rest =>
    if token.kind == .operand then do
      let (vars, target) ← ofName vars token.chars fun _ => false
      let (vars, derefs) ← ofTokens vars rest
      return (vars, ⟨token.start, token.size, target⟩ :: derefs)
    else ofTokens vars rest

/-- The references in an expression. -/
def inExpr (vars : Variables) (text : String) : Except LoadProblem (Variables × List Deref) :=
  match Token.scan text with
  | .error e => .error (.lexical e)
  | .ok tokens => ofTokens vars tokens

/-- The reference of an argument that names a variable, or nothing when it is blank. An engine variable cannot be
stored into. -/
def inName (vars : Variables) (output : Bool) (raw : RawArg) :
    Except LoadProblem (Variables × String × List Deref) :=
  let cs := raw.text.toList
  let lead := Text.byteSize (cs.takeWhile Text.isBlank)
  let name := Text.trimList Text.isBlank cs
  if name.isEmpty then .ok (vars, "", [])
  else do
    let (vars, target) ← ofName vars name fun i => raw.isLiteralAt (i + lead)
    match target with
    | .static id =>
      if output && (vars.builtin? id).isSome then throw (.naming (.readOnly (.ofList name)))
    | .dynamic _ => pure ()
    return (vars, .ofList name, [⟨0, Text.byteSize name, target⟩])

/-- Builds an argument: its text and the references in it. -/
def argument (vars : Variables) (kind : ArgKind) (isExpr : Bool) (raw : RawArg) :
    Except LoadProblem (Variables × Arg) := do
  let (vars, text, derefs) ← match kind with
    | .text =>
      if isExpr then (inExpr vars raw.text).map fun (vars, derefs) => (vars, raw.text, derefs)
      else (inText vars raw).map fun (vars, derefs) => (vars, raw.text, derefs)
    | .input => inName vars false raw
    | .output => inName vars true raw
  if maxReferences < derefs.length then throw .tooManyReferences
  return (vars, { kind, text, isExpr, derefs })

end Reference

end LineScript
