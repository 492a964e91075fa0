import LineScript.Proofs.Engine.Jumping
import LineScript.Proofs.Engine.Room
import LineScript.Proofs.Load.InRange
import LineScript.Proofs.Load.Sites

/-!
# Nothing out of range

The engine takes the numbers in a program at their word: it goes to the lines that links and labels name, reads the slots that
references name, and cuts texts at the offsets of references and tokens. In a loaded program all of them are in range, and stay
so while the table of variables grows (`Program.in_range`).
-/

namespace LineScript

open Text

namespace Deref.Sited

variable {start : Nat} {cs : List Char} {derefs : List Deref}

/-- A reference of a text stands between two parts of it. -/
theorem exists_split (h : Sited start cs derefs) {deref : Deref} (hderef : deref ∈ derefs) :
    ∃ before name after, cs = before ++ (name ++ after) ∧ deref.start = start + byteSize before ∧
      deref.size = byteSize name := by
  induction h with
  | nil => cases hderef
  | @cons start lead name cs target rest h ih =>
    rcases List.mem_cons.mp hderef with rfl | hderef
    · exact ⟨lead, name, cs, rfl, rfl, rfl⟩
    · obtain ⟨before, name', after, rfl, hstart, hsize⟩ := ih hderef
      refine ⟨lead ++ (name ++ before), name', after, by simp only [List.append_assoc], ?_, hsize⟩
      rw [hstart, byteSize_append, byteSize_append]
      omega

/-- No reference reaches into a later one. -/
theorem pairwise (h : Sited start cs derefs) : derefs.Pairwise fun d e => d.stop ≤ e.start := by
  induction h with
  | nil => exact .nil
  | @cons start lead name cs target rest h ih =>
    refine .cons (fun e he => ?_) ih
    obtain ⟨before, name', after, -, hstart, -⟩ := h.exists_split he
    rw [hstart]
    exact Nat.le_add_right _ _

end Deref.Sited

namespace Expansion

/-- The parts of a text from an offset on that stand between its references, if they can be cut out. -/
def pieces? (text : String) : (start : Nat) → List Deref → Option (List String)
  | start, [] => (slice? text start text.utf8ByteSize).map ([·])
  | start, deref :: rest => do
    let piece ← slice? text start deref.start
    let pieces ← pieces? text deref.stop rest
    return piece :: pieces

/-- Parts of a text with values between them. -/
def weave : List String → List Value → String
  | piece :: pieces, value :: values => piece ++ value.toText ++ weave pieces values
  | pieces, _ => pieces.headD ""

/-- A text with its references replaced is made of the parts between them, which can all be cut out. -/
theorem fill_eq_weave {text : String} {start : Nat} {cs : List Char} {derefs : List Deref} (h : Deref.Sited start cs derefs)
    {before : List Char} (htext : text.toList = before ++ cs) (hstart : start = byteSize before) :
    ∃ pieces, pieces? text start derefs = some pieces ∧
      ∀ values, values.length = derefs.length → fill start cs (derefs.zip values) = weave pieces values := by
  induction h generalizing before with
  | @nil start cs =>
    have hsize : text.utf8ByteSize = byteSize before + byteSize cs := by
      rw [← byteSize_toList, htext, byteSize_append]
    have hslice := @slice?_eq text before cs [] (by rw [List.append_nil, htext])
    refine ⟨[.ofList cs], by rw [pieces?, hsize, hstart, hslice]; rfl, fun values hlength => ?_⟩
    rw [List.length_eq_zero_iff.mp hlength]
    rfl
  | @cons start lead name cs target rest h ih =>
    -- the whole text is cut, so what stands before the rest grows by the part and the reference
    have hstop : start + byteSize lead + byteSize name = byteSize (before ++ (lead ++ name)) := by
      rw [byteSize_append, byteSize_append, hstart, Nat.add_assoc]
    obtain ⟨pieces, hpieces, hfill⟩ := @ih (before ++ (lead ++ name)) (by rw [htext]; simp only [List.append_assoc]) hstop
    have hslice := slice?_eq htext
    rw [← hstart] at hslice
    refine ⟨.ofList lead :: pieces, ?_, fun values hlength => ?_⟩
    · simp only [pieces?, Deref.stop, hslice, hpieces]
      rfl
    · obtain ⟨value, values, rfl⟩ := List.exists_cons_of_length_eq_add_one hlength
      have hlead : start + byteSize lead - start = byteSize lead := Nat.add_sub_cancel_left _ _
      rw [List.zip_cons_cons, fill]
      simp only [hlead, cut?_append, Option.getD_some, weave]
      rw [Deref.stop, hfill values (Nat.succ.inj hlength)]

/-- There is one value for each reference. -/
theorem length_operands {view : View} {vars : Variables} {derefs : List Deref} {values : List Value}
    (h : operands view vars derefs = .ok values) : values.length = derefs.length := by
  induction derefs generalizing values with
  | nil =>
    cases h
    rfl
  | cons deref rest ih =>
    unfold operands at h
    split at h
    · cases h
    · obtain ⟨more, hmore, rfl⟩ := map_eq_ok h
      rw [List.length_cons, List.length_cons, ih hmore]

/-- Every reference of a free text is looked up. -/
theorem length_plan {view : View} {vars vars' : Variables} {arg : Arg} {values : List Value}
    (h : plan view vars arg = .ok (vars', .text values)) : values.length = arg.derefs.length := by
  unfold plan at h
  split at h
  · split at h
    · cases h
    · split at h <;> cases h
  · rename_i hkind
    split at h
    · rename_i hnone
      cases h
      simp only [Arg.var?, hkind, Option.map_eq_none_iff, List.head?_eq_none_iff] at hnone
      rw [hnone]
      rfl
    · split at h <;> cases h
  · split at h
    · obtain ⟨value, -, h⟩ := map_eq_ok h
      cases h
    · obtain ⟨values', hvalues, h⟩ := map_eq_ok h
      cases h
      exact length_operands hvalues

end Expansion

namespace Token

/-- A scanned token stands between two parts of the text. -/
theorem Sited.exists_split {start : Nat} {cs : List Char} {tokens : List Token} (h : Sited start cs tokens) {token : Token}
    (htoken : token ∈ tokens) :
    ∃ before after, cs = before ++ (token.chars ++ after) ∧ token.start = start + byteSize before := by
  induction h with
  | nil => cases htoken
  | @skip start c cs tokens h ih =>
    obtain ⟨before, after, rfl, hstart⟩ := ih htoken
    refine ⟨c :: before, after, rfl, ?_⟩
    rw [hstart, byteSize_cons, Nat.add_assoc]
  | @cons first cs rest h ih =>
    rcases List.mem_cons.mp htoken with rfl | htoken
    · exact ⟨[], cs, rfl, rfl⟩
    · obtain ⟨before, after, rfl, hstart⟩ := ih htoken
      refine ⟨first.chars ++ before, after, by simp only [List.append_assoc], ?_⟩
      rw [hstart, byteSize_append, size, Nat.add_assoc]

/-- A token can be cut out of a text, and a quoted text stands for what can be cut out between its quotes. -/
structure CutFrom (text : String) (token : Token) : Prop where
  slice?_eq : slice? text token.start (token.start + token.size) = some token.text
  unquote_eq : token.kind = .str → ∃ inner, slice? token.text 1 (token.size - 1) = some inner ∧
    Expr.unquote token.chars = .ofList (Expr.unquoteOnto [] inner.toList)

/-- A whole token that was scanned can be cut out of the text. -/
theorem Sited.cutFrom {text : String} {tokens : List Token} (h : Sited 0 text.toList tokens) {token : Token}
    (htoken : token ∈ tokens) (hwhole : token.Whole) : token.CutFrom text where
  slice?_eq := by
    obtain ⟨before, after, htext, hstart⟩ := h.exists_split htoken
    rw [hstart, Nat.zero_add]
    exact Text.slice?_eq htext
  unquote_eq hstr := by
    obtain ⟨inner, hchars⟩ := hwhole.quotes hstr
    have htext : token.text.toList = ['"'] ++ (inner ++ ['"']) := by
      rw [Token.text, hchars, String.toList_ofList]
      rfl
    have hsize : token.size - 1 = byteSize ['"'] + byteSize inner := by
      have hquote : byteSize ['"'] = 1 := rfl
      have hwidth : '"'.utf8Size = 1 := rfl
      rw [size, hchars, byteSize_cons, byteSize_append, hquote, hwidth]
      omega
    refine ⟨.ofList inner, hsize ▸ Text.slice?_eq htext, ?_⟩
    rw [Expr.unquote, hchars, String.toList_ofList, List.drop_one, List.tail_cons, List.dropLast_concat]

end Token

/-- An argument can be taken at its word: the variables it names have slots among the first `n`, its references stand one after
the other in its text and between characters, the parts of the text around them can be cut out and are what a free text is
written from, and so can the tokens of an expression. -/
structure Arg.InRange (n : Nat) (arg : Arg) : Prop where
  slots : ∀ deref ∈ arg.derefs, deref.target.Within n
  ordered : arg.derefs.Pairwise fun d e => d.start < e.start ∧ d.stop ≤ e.start
  inside : ∀ deref ∈ arg.derefs, deref.stop ≤ arg.text.utf8ByteSize ∧
    ∃ name, slice? arg.text deref.start deref.stop = some name
  pieces : ∃ pieces, Expansion.pieces? arg.text 0 arg.derefs = some pieces ∧
    ∀ view vars vars' values, Expansion.plan view vars arg = .ok (vars', .text values) →
      Expansion.write (arg, .text values) = .text (Expansion.weave pieces values)
  tokens : arg.kind = .text → arg.isExpr = true →
    ∃ tokens, Token.scan arg.text = .ok tokens ∧ ∀ token ∈ tokens, token.CutFrom arg.text

/-- A sound argument is in range. -/
theorem Arg.Sound.inRange {n : Nat} {arg : Arg} (h : arg.Sound n) : arg.InRange n where
  slots := h.within
  ordered := h.sited.pairwise.imp_of_mem fun {d e} hd _ hstop =>
    ⟨Nat.lt_of_lt_of_le (Nat.lt_add_of_pos_right (h.pos d hd)) hstop, hstop⟩
  inside deref hderef := by
    obtain ⟨before, name, after, htext, hstart, hsize⟩ := h.sited.exists_split hderef
    have hstop : deref.stop = byteSize before + byteSize name := by rw [Deref.stop, hstart, hsize, Nat.zero_add]
    constructor
    · rw [← byteSize_toList, htext, byteSize_append, byteSize_append, hstop]
      omega
    · rw [hstart, hstop, Nat.zero_add]
      exact ⟨_, slice?_eq htext⟩
  pieces := by
    obtain ⟨pieces, hpieces, hfill⟩ := Expansion.fill_eq_weave h.sited (List.nil_append _).symm rfl
    refine ⟨pieces, hpieces, fun view vars vars' values hplan => ?_⟩
    rw [Expansion.write, hfill values (Expansion.length_plan hplan)]
  tokens hkind hexpr := by
    obtain ⟨tokens, hscan⟩ := h.scans hkind hexpr
    obtain ⟨hsited, hwhole⟩ := Token.sited_scan hscan
    exact ⟨tokens, hscan, fun token htoken => hsited.cutFrom htoken (hwhole token htoken)⟩

/-- The label that a line of a program in range names is there. -/
theorem Engine.lt_of_labelArg {setup : Setup} {engine engine' : Engine} {id : LineId} {label : LabelId}
    (hscript : setup.script.InRange)
    (h : engine.labelArg setup (setup.script.line id) = (engine', .ok (some label))) :
    label < setup.script.labels.entries.size := by
  unfold labelArg at h
  split at h
  · rename_i noted hnote
    cases h
    exact hscript.noted_lt id _ hnote
  · unfold withArgs at h
    split at h
    · cases h
    · dsimp only at h
      split at h
      · cases h
      · split at h
        · rename_i hfind
          cases h
          exact Labels.lt_of_find? hfind
        · cases h

/-- In a loaded program all that its lines name is there, whatever the calls of a host lead to: the lines of links and labels, the
labels, the slots of variables, and the parts of texts that references and tokens tell by their offsets. -/
theorem Program.in_range {commands : CommandSet} {items : List Item} {program : Program}
    (hload : load commands items = .ok program) (config : Config) (perform : Performer) (world : World) {machine : Machine}
    (hreach : Machine.Reachable (Engine.start program config perform world).1 (Engine.start program config perform world).2
      machine) :
    program.script.InRange ∧
    (∀ id, ∀ arg ∈ (program.script.line id).args, arg.InRange machine.engine.vars.size) ∧
    ∀ id engine' label,
      machine.engine.labelArg (Engine.start program config perform world).1 (program.script.line id) =
        (engine', .ok (some label)) → label < program.script.labels.entries.size := by
  have hscript := script_inRange_of_load hload
  refine ⟨hscript, fun id arg harg => ?_, fun id engine' label hlabel => ?_⟩
  · have hstart : program.vars.Extends (Engine.start program config perform world).2.vars :=
      Variables.extends_intern program.vars Engine.errorLevelName
    exact ((sound_of_load hload id arg harg).mono (hstart.trans hreach.extends).size_le).inRange
  · exact @Engine.lt_of_labelArg (Engine.start program config perform world).1 _ _ _ _ hscript hlabel

namespace Program

open Machine

/-- Texts whose characters take two bytes, with references between them, and names that are put together. -/
def cutApart : List Item :=
  let line (keyword : String) (args : List String) : Item :=
    .statement { keyword, args := args.map .plain, lineNo := 1 } []
  [line "=" ["n", "1"], .label "Über" 1, line "=" ["a%n%", "x"], line "=" ["t", "é%n%ü"],
    line ":=" ["m", "\"ä\"\"b\" . a%n%"], line "Goto" ["ÜBER"]]

/-- After some steps of `cutApart` there is one slot more than the program was loaded with. -/
theorem cutApart_grows :
    (match load Standard.commands cutApart with
    | .ok program =>
      let (setup, engine) := Engine.start program {} Standard.perform default
      let machine := (step setup)^[8] (HostCall.autoExecute.start setup engine)
      program.vars.size == 4 && machine.engine.vars.size == 5 && (program.script.line 4).note == .label 0 &&
        ((program.script.line 2).args[1]?).bind (fun arg => Expansion.pieces? arg.text 0 arg.derefs) == some ["é", "ü"]
    | .error _ => false) = true := by
  decide +kernel

/-- After a name that was put together has got its slot, the slots that the program names are still there. -/
theorem cutApart_in_range :
    ∃ program, load Standard.commands cutApart = .ok program ∧
      let setup := (Engine.start program {} Standard.perform default).1
      let engine := (Engine.start program {} Standard.perform default).2
      let machine := (step setup)^[8] (HostCall.autoExecute.start setup engine)
      program.vars.size = 4 ∧ machine.engine.vars.size = 5 ∧ 0 < program.script.labels.entries.size ∧
      program.script.labels.target 0 < program.script.lines.size ∧
      ∃ arg, (program.script.line 2).args[1]? = some arg ∧ arg.InRange 5 ∧
        Expansion.pieces? arg.text 0 arg.derefs = some ["é", "ü"] := by
  have hgrows := cutApart_grows
  cases hload : load Standard.commands cutApart with
  | error e => rw [hload] at hgrows; cases hgrows
  | ok program =>
    simp only [hload, Bool.and_eq_true, beq_iff_eq] at hgrows
    obtain ⟨⟨⟨hbefore, hafter⟩, hnote⟩, hpieces⟩ := hgrows
    refine ⟨program, rfl, ?_⟩
    intro setup engine machine
    have hreach : Reachable setup engine machine := reachable_iterate (.call .start .autoExecute) 8
    obtain ⟨hscript, hargs, -⟩ := in_range hload {} Standard.perform default hreach
    have hlabel := hscript.noted_lt 4 0 hnote
    obtain ⟨arg, harg, hpieces⟩ := Option.bind_eq_some_iff.mp hpieces
    refine ⟨hbefore, hafter, hlabel, ?_, arg, harg, ?_, hpieces⟩
    · rw [Labels.target, Labels.get?, Array.getElem?_eq_getElem hlabel]
      exact hscript.target_lt _ (Array.getElem_mem hlabel)
    · exact hafter ▸ hargs 2 arg (List.mem_of_getElem? harg)

end Program

end LineScript
