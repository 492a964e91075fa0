import Mathlib.Data.List.Forall2
import LineScript.Engine.Basic
import LineScript.Proofs.Engine.Room
import LineScript.Proofs.Variables.Names

/-!
# Free texts say what they encode

A free text is made of pieces: characters that stand for themselves, and variables (`TextPiece`). Written down, backticks and
percent signs among the characters get a backtick before them, and a variable stands between percent signs
(`TextPiece.encode`). Decoding and reading such a text gives one reference for each variable (`TextPiece.Refers`), and
expanding it gives the characters and what the variables hold, one after the other (`TextPiece.expand_encode`).
-/

namespace LineScript

open Text

/-- A piece of a free text: characters that stand for themselves, or a variable. -/
inductive TextPiece where
  | literal (s : String)
  | var (name : VarName)

namespace TextPiece

/-- A character that means something in a free text. -/
def isSpecial (c : Char) : Bool :=
  c == '\x60' || c == '%'

/-- Characters with a backtick before those that would mean something. -/
def escape : List Char → List Char
  | [] => []
  | c :: cs => if isSpecial c then '\x60' :: c :: escape cs else c :: escape cs

/-- A piece as it is written. -/
def written : TextPiece → List Char
  | literal s => escape s.toList
  | var name => '%' :: (name.text.toList ++ ['%'])

/-- A piece as it stands in the text of an argument, where there are no escapes any more. -/
def decoded : TextPiece → List Char
  | literal s => s.toList
  | var name => '%' :: (name.text.toList ++ ['%'])

/-- The variable that a piece names. -/
def name? : TextPiece → Option String
  | literal _ => none
  | var name => some name.text

/-- Some pieces as they are written. -/
def encode (pieces : List TextPiece) : String :=
  .ofList (pieces.flatMap written)

/-- The variables that some pieces name, in order. -/
def names (pieces : List TextPiece) : List String :=
  pieces.filterMap name?

/-- What a piece stands for: its characters, or the text that its variable shows. -/
def meaning (view : Expansion.View) (vars : Variables) : TextPiece → String
  | literal s => s
  | var name => ((vars.find? name.text).map fun id => (Expansion.read view vars id).toText).getD ""

/-- What some pieces stand for, one after the other. -/
def textOf (view : Expansion.View) (vars : Variables) (pieces : List TextPiece) : String :=
  String.join (pieces.map (meaning view vars))

/-! ## Decoding -/

/-- The offsets of the characters of a text that need an escape. -/
def escapedFrom : (start : Nat) → List Char → List Nat
  | _, [] => []
  | start, c :: cs =>
    if isSpecial c then start :: escapedFrom (start + c.utf8Size) cs else escapedFrom (start + c.utf8Size) cs

/-- The offsets of the escaped characters of some pieces, once these are decoded. -/
def literalFrom : (start : Nat) → List TextPiece → List Nat
  | _, [] => []
  | start, literal s :: rest => escapedFrom start s.toList ++ literalFrom (start + byteSize s.toList) rest
  | start, var name :: rest => literalFrom (start + (byteSize name.text.toList + 2)) rest

end TextPiece

namespace RawArg

open TextPiece

/-- A character that is no backtick is decoded as it stands. -/
theorem decodeOnto_cons {c : Char} (h : c ≠ '\x60') (text : List Char) (size : Nat) (literal : List Nat) (rest : List Char) :
    decodeOnto text size literal (c :: rest) = decodeOnto (c :: text) (size + c.utf8Size) literal rest := by
  rw [decodeOnto]
  · rintro rfl
    exact absurd rfl h
  · rintro _ _ rfl
    exact absurd rfl h

/-- An escaped character is decoded as itself, and its offset is kept. -/
theorem decodeOnto_special {c : Char} (h : isSpecial c = true) (text : List Char) (size : Nat) (literal : List Nat)
    (rest : List Char) :
    decodeOnto text size literal ('\x60' :: c :: rest) =
      decodeOnto (c :: text) (size + c.utf8Size) (size :: literal) rest := by
  rcases Bool.or_eq_true_iff.mp h with h | h <;> rw [beq_iff_eq.mp h] <;> rfl

/-- Decoding takes the escapes off again, and keeps in mind where they were. -/
theorem decodeOnto_escape (cs : List Char) (text : List Char) (size : Nat) (literal : List Nat) (rest : List Char) :
    decodeOnto text size literal (escape cs ++ rest) =
      decodeOnto (cs.reverse ++ text) (size + byteSize cs) ((escapedFrom size cs).reverse ++ literal) rest := by
  induction cs generalizing text size literal with
  | nil => rfl
  | cons c cs ih =>
    by_cases hc : isSpecial c = true
    · simp only [escape, escapedFrom, hc, if_true, List.cons_append]
      rw [decodeOnto_special hc, ih, byteSize_cons, Nat.add_assoc]
      simp
    · have hplain : c ≠ '\x60' := by
        rintro rfl
        exact hc rfl
      simp only [escape, escapedFrom, hc, if_false, Bool.false_eq_true, List.cons_append]
      rw [decodeOnto_cons hplain, ih, byteSize_cons, Nat.add_assoc]
      simp

/-- Characters without a backtick are decoded as they stand. -/
theorem decodeOnto_plain {cs : List Char} (h : '\x60' ∉ cs) (text : List Char) (size : Nat) (literal : List Nat)
    (rest : List Char) :
    decodeOnto text size literal (cs ++ rest) = decodeOnto (cs.reverse ++ text) (size + byteSize cs) literal rest := by
  induction cs generalizing text size with
  | nil => rfl
  | cons c cs ih =>
    have hc : c ≠ '\x60' := fun hc => h (hc ▸ List.mem_cons_self)
    rw [List.cons_append, decodeOnto_cons hc, ih fun hmem => h (List.mem_cons_of_mem _ hmem), byteSize_cons, Nat.add_assoc]
    simp

end RawArg

namespace TextPiece

/-- A variable takes two bytes more than its name, for the percent signs. -/
theorem byteSize_var (name : VarName) : byteSize ('%' :: (name.text.toList ++ ['%'])) = byteSize name.text.toList + 2 := by
  have hpercent : byteSize ['%'] = 1 := rfl
  have hwidth : '%'.utf8Size = 1 := rfl
  rw [byteSize_cons, byteSize_append, hpercent, hwidth]
  omega

/-- Decoding goes through all pieces of a text that was written down. -/
theorem decodeOnto_written (pieces : List TextPiece) (text : List Char) (size : Nat) (literal : List Nat) :
    RawArg.decodeOnto text size literal (pieces.flatMap written) =
      ⟨.ofList (text.reverse ++ pieces.flatMap decoded), literal.reverse ++ literalFrom size pieces⟩ := by
  induction pieces generalizing text size literal with
  | nil => simp [RawArg.decodeOnto, literalFrom]
  | cons piece rest ih =>
    rw [List.flatMap_cons, List.flatMap_cons]
    cases piece with
    | literal s =>
      rw [written, RawArg.decodeOnto_escape, ih]
      simp [decoded, literalFrom]
    | var name =>
      have hplain : '\x60' ∉ '%' :: (name.text.toList ++ ['%']) := by
        have hname : '\x60' ∉ name.text.toList := fun hmem => (name.ne_of_mem hmem).2 rfl
        simp [hname]
      rw [written, RawArg.decodeOnto_plain hplain, ih, byteSize_var]
      simp [decoded, literalFrom]

/-- A text that was written down is decoded into its pieces, with the characters that were escaped taken literally. -/
theorem ofEscaped_encode (pieces : List TextPiece) :
    RawArg.ofEscaped (encode pieces) = ⟨.ofList (pieces.flatMap decoded), literalFrom 0 pieces⟩ := by
  rw [RawArg.ofEscaped, encode, String.toList_ofList, decodeOnto_written]
  rfl

/-! ## Reading -/

/-- Which percent signs of some pieces are taken literally: those among the characters, and not those around variables. -/
def Marks (literal : Nat → Bool) : (start : Nat) → List TextPiece → Prop
  | _, [] => True
  | start, .literal s :: rest =>
    (∀ x ∈ withOffsets start s.toList, x.2 = '%' → literal x.1 = true) ∧ Marks literal (start + byteSize s.toList) rest
  | start, var name :: rest =>
    literal start = false ∧ literal (start + (byteSize name.text.toList + 1)) = false ∧
      Marks literal (start + (byteSize name.text.toList + 2)) rest

/-- The percent signs among some characters are escaped. -/
theorem mem_escapedFrom {start : Nat} {cs : List Char} {x : Nat × Char} (h : x ∈ withOffsets start cs) (hx : x.2 = '%') :
    x.1 ∈ escapedFrom start cs := by
  induction cs generalizing start with
  | nil => cases h
  | cons c cs ih =>
    rw [withOffsets_cons] at h
    rw [escapedFrom]
    rcases List.mem_cons.mp h with rfl | h
    · obtain rfl : c = '%' := hx
      exact List.mem_cons_self
    · split
      · exact List.mem_cons_of_mem _ (ih h)
      · exact ih h

/-- The characters that are escaped stand where the text does. -/
theorem escapedFrom_bounds {start i : Nat} {cs : List Char} (h : i ∈ escapedFrom start cs) :
    start ≤ i ∧ i < start + byteSize cs := by
  induction cs generalizing start with
  | nil => cases h
  | cons c cs ih =>
    have hpos := c.utf8Size_pos
    rw [byteSize_cons]
    rw [escapedFrom] at h
    split at h
    · rcases List.mem_cons.mp h with rfl | h
      · omega
      · have := ih h
        omega
    · have := ih h
      omega

/-- The escaped characters of some pieces do not stand before them. -/
theorem le_of_mem_literalFrom {start i : Nat} {pieces : List TextPiece} (h : i ∈ literalFrom start pieces) : start ≤ i := by
  induction pieces generalizing start with
  | nil => cases h
  | cons piece rest ih =>
    cases piece with
    | literal s =>
      rcases List.mem_append.mp h with h | h
      · exact (escapedFrom_bounds h).1
      · exact Nat.le_trans (Nat.le_add_right _ _) (ih h)
    | var name => exact Nat.le_trans (Nat.le_add_right _ _) (ih h)

/-- The escaped characters of some pieces are marked, whatever was marked before them. -/
theorem marks_literalFrom {pieces : List TextPiece} {start : Nat} {before : List Nat} (h : ∀ i ∈ before, i < start) :
    Marks (fun i => (before ++ literalFrom start pieces).contains i) start pieces := by
  induction pieces generalizing start before with
  | nil => trivial
  | cons piece rest ih =>
    cases piece with
    | literal s =>
      refine ⟨fun x hx hpercent => ?_, ?_⟩
      · have hmem := mem_escapedFrom hx hpercent
        simp [literalFrom, hmem]
      · have hbefore : ∀ i ∈ before ++ escapedFrom start s.toList, i < start + byteSize s.toList := by
          intro i hi
          rcases List.mem_append.mp hi with hi | hi
          · exact Nat.lt_of_lt_of_le (h i hi) (Nat.le_add_right _ _)
          · exact (escapedFrom_bounds hi).2
        have hrest := ih hbefore
        rw [List.append_assoc] at hrest
        exact hrest
    | var name =>
      -- neither what was marked before nor what will be lies between the percent signs
      have hfree (i : Nat) (hle : start ≤ i) (hlt : i < start + (byteSize name.text.toList + 2)) :
          (before ++ literalFrom start (var name :: rest)).contains i = false := by
        refine Bool.eq_false_iff.mpr fun hmem => ?_
        rcases List.mem_append.mp (List.contains_iff_mem.mp hmem) with hmem | hmem
        · exact Nat.not_lt.mpr hle (h i hmem)
        · have hmem : i ∈ literalFrom (start + (byteSize name.text.toList + 2)) rest := hmem
          exact Nat.not_lt.mpr (le_of_mem_literalFrom hmem) hlt
      exact ⟨hfree start (Nat.le_refl _) (by omega), hfree _ (Nat.le_add_right _ _) (by omega),
        ih fun i hi => Nat.lt_of_lt_of_le (h i hi) (Nat.le_add_right _ _)⟩

end TextPiece

namespace Reference

open TextPiece

/-- Characters that start and end no reference are passed over, or belong to the one that is open. -/
theorem inTextOnto_plain {literal : Nat → Bool} {cs : List Char} {start : Nat}
    (h : ∀ x ∈ withOffsets start cs, x.2 = '%' → literal x.1 = true) (vars : Variables) (done : List Deref)
    (opened : Option (Nat × List Char)) (rest : List Char) :
    inTextOnto literal vars done opened (withOffsets start (cs ++ rest)) =
      inTextOnto literal vars done (opened.map fun (start, name) => (start, cs.reverse ++ name))
        (withOffsets (start + byteSize cs) rest) := by
  induction cs generalizing start opened with
  | nil => cases opened <;> rfl
  | cons c cs ih =>
    rw [withOffsets_cons] at h
    have hskip : ¬ (c == '%' && !literal start) = true := by
      intro hopens
      obtain ⟨hc, hliteral⟩ := Bool.and_eq_true_iff.mp hopens
      rw [h _ List.mem_cons_self (beq_iff_eq.mp hc)] at hliteral
      cases hliteral
    have hrest := @ih (start + c.utf8Size) fun x hx => h x (List.mem_cons_of_mem _ hx)
    rw [List.cons_append, withOffsets_cons, byteSize_cons, ← Nat.add_assoc]
    cases opened <;> simp only [inTextOnto, if_neg hskip, hrest] <;> simp

/-- A name between percent signs is a reference to its variable. -/
theorem inTextOnto_var {literal : Nat → Bool} {start : Nat} {name : VarName} (hopen : literal start = false)
    (hclose : literal (start + (byteSize name.text.toList + 1)) = false) (vars : Variables) (done : List Deref)
    (rest : List Char) :
    inTextOnto literal vars done none (withOffsets start ('%' :: (name.text.toList ++ ['%']) ++ rest)) =
      inTextOnto literal (vars.intern name.text).1
        (⟨start, byteSize name.text.toList + 2, .static (vars.intern name.text).2⟩ :: done) none
        (withOffsets (start + (byteSize name.text.toList + 2)) rest) := by
  have hplain : ∀ x ∈ withOffsets (start + '%'.utf8Size) name.text.toList, x.2 = '%' → literal x.1 = true := fun x hx hpercent =>
    absurd hpercent (name.ne_of_mem (snd_mem_of_mem_withOffsets hx)).1
  have hstop : start + '%'.utf8Size + byteSize name.text.toList = start + (byteSize name.text.toList + 1) := by
    have hwidth : '%'.utf8Size = 1 := rfl
    omega
  have hsize : start + (byteSize name.text.toList + 1) + 1 - start = byteSize name.text.toList + 2 := by omega
  have hname : (name.text.toList.reverse ++ []).isEmpty = false := by
    simpa using name.toList_ne_nil
  have hslot : slot vars (.ofList (name.text.toList.reverse ++ []).reverse) = .ok (vars.intern name.text) := by
    rw [List.append_nil, List.reverse_reverse, String.ofList_toList, slot, name.resolve_eq]
  rw [List.cons_append, List.append_assoc, withOffsets_cons, inTextOnto, hopen]
  simp only [beq_self_eq_true, Bool.not_false, Bool.and_self, if_true]
  rw [inTextOnto_plain hplain, hstop, Option.map_some, List.singleton_append, withOffsets_cons, inTextOnto, hclose]
  simp only [beq_self_eq_true, Bool.not_false, Bool.and_self, if_true, hname, hslot, hsize, Bool.false_eq_true, if_false]
  rfl

end Reference

namespace TextPiece

/-- References to the variables that some pieces name, one for each, where the pieces start at an offset. -/
inductive Refers (vars : Variables) : (start : Nat) → List TextPiece → List Deref → Prop
  | nil {start : Nat} : Refers vars start [] []
  | literal {start : Nat} {s : String} {rest : List TextPiece} {derefs : List Deref}
    (h : Refers vars (start + byteSize s.toList) rest derefs) : Refers vars start (.literal s :: rest) derefs
  | var {start : Nat} {name : VarName} {rest : List TextPiece} {id : VarId} {derefs : List Deref}
    (hfind : vars.find? name.text = some id) (h : Refers vars (start + (byteSize name.text.toList + 2)) rest derefs) :
    Refers vars start (.var name :: rest) (⟨start, byteSize name.text.toList + 2, .static id⟩ :: derefs)

/-- References to variables stay so when the table is extended. -/
theorem Refers.mono {vars vars' : Variables} {start : Nat} {pieces : List TextPiece} {derefs : List Deref}
    (h : Refers vars start pieces derefs) (hext : vars.Extends vars') : Refers vars' start pieces derefs := by
  induction h with
  | nil => exact .nil
  | literal _ ih => exact .literal ih
  | var hfind _ ih => exact .var (hext.find? hfind) ih

/-- Reading pieces finds their variables and nothing else. -/
theorem refers_inTextOnto {literal : Nat → Bool} {start : Nat} {pieces : List TextPiece} (h : Marks literal start pieces)
    (vars : Variables) (done : List Deref) :
    ∃ vars' derefs,
      Reference.inTextOnto literal vars done none (withOffsets start (pieces.flatMap decoded)) =
        .ok (vars', done.reverse ++ derefs) ∧ vars.Extends vars' ∧ Refers vars' start pieces derefs := by
  induction pieces generalizing start vars done with
  | nil => exact ⟨vars, [], by simp [withOffsets, Reference.inTextOnto], .refl vars, .nil⟩
  | cons piece rest ih =>
    rw [List.flatMap_cons]
    cases piece with
    | literal s =>
      obtain ⟨vars', derefs, hrest, hext, hrefers⟩ := ih h.2 vars done
      exact ⟨vars', derefs, by rw [decoded, Reference.inTextOnto_plain h.1]; exact hrest, hext, .literal hrefers⟩
    | var name =>
      obtain ⟨hopen, hclose, hrest⟩ := h
      obtain ⟨vars', derefs, hrest, hext, hrefers⟩ := ih hrest (vars.intern name.text).1
        (⟨start, byteSize name.text.toList + 2, .static (vars.intern name.text).2⟩ :: done)
      have hfind := name.find?_intern vars
      refine ⟨vars', _, ?_, (vars.extends_intern name.text).trans hext, .var (hext.find? hfind) hrefers⟩
      rw [decoded, Reference.inTextOnto_var hopen hclose, hrest, List.reverse_cons, List.append_assoc]
      rfl

/-- Each reference covers its variable with the percent signs. -/
theorem Refers.forall₂ {vars : Variables} {start : Nat} {pieces : List TextPiece} {derefs : List Deref}
    (h : Refers vars start pieces derefs) {text : String} {before : List Char}
    (htext : text.toList = before ++ pieces.flatMap decoded) (hstart : start = byteSize before) :
    List.Forall₂ (fun deref name => slice? text deref.start deref.stop = some ("%" ++ name ++ "%") ∧
      ∃ id, deref.target = .static id ∧ vars.find? name = some id) derefs (names pieces) := by
  induction h generalizing before with
  | nil => exact .nil
  | @literal start s rest derefs _ ih =>
    refine @ih (before ++ s.toList) ?_ ?_
    · rw [htext, List.flatMap_cons, List.append_assoc, decoded]
    · rw [byteSize_append, hstart]
  | @var start name rest id derefs hfind _ ih =>
    have hsize := byteSize_var name
    rw [List.flatMap_cons, decoded] at htext
    refine .cons ⟨?_, id, rfl, hfind⟩ (@ih (before ++ '%' :: (name.text.toList ++ ['%'])) ?_ ?_)
    · have hslice := slice?_eq htext
      rw [hsize, ← hstart] at hslice
      rw [Deref.stop, hslice]
      congr 1
      apply String.toList_injective
      simp
    · rw [htext, List.append_assoc]
    · rw [byteSize_append, hsize, hstart]

/-! ## Expanding -/

/-- The references of some pieces are looked up, and with what they stand for the text is what the pieces stand for. -/
theorem Refers.fill_eq {vars : Variables} {start : Nat} {pieces : List TextPiece} {derefs : List Deref}
    (h : Refers vars start pieces derefs) (view : Expansion.View) :
    ∃ values, Expansion.operands view vars derefs = .ok values ∧
      ∀ lead offset, start = offset + byteSize lead →
        Expansion.fill offset (lead ++ pieces.flatMap decoded) (derefs.zip values) =
          .ofList lead ++ textOf view vars pieces := by
  induction h with
  | nil =>
    refine ⟨[], rfl, fun lead offset _ => ?_⟩
    simp [Expansion.fill, textOf]
  | @literal start s rest derefs _ ih =>
    obtain ⟨values, hvalues, hfill⟩ := ih
    refine ⟨values, hvalues, fun lead offset hstart => ?_⟩
    have hrest := hfill (lead ++ s.toList) offset (by rw [hstart, byteSize_append, Nat.add_assoc])
    rw [List.flatMap_cons, decoded, ← List.append_assoc, hrest]
    simp [textOf, meaning, String.append_assoc]
  | @var start name rest id derefs hfind _ ih =>
    obtain ⟨values, hvalues, hfill⟩ := ih
    refine ⟨Expansion.read view vars id :: values, ?_, fun lead offset hstart => ?_⟩
    · simp only [Expansion.operands, Expansion.operand, hvalues]
      rfl
    · have hlead : start - offset = byteSize lead := by omega
      have hrest := hfill [] (start + (byteSize name.text.toList + 2)) rfl
      rw [List.nil_append] at hrest
      rw [List.flatMap_cons, decoded, List.zip_cons_cons, Expansion.fill]
      simp only [hlead, cut?_append, ← byteSize_var name, Option.getD_some]
      rw [Deref.stop, byteSize_var, hrest]
      simp [textOf, meaning, hfind, String.append_assoc]

/-- There is one reference for each variable. -/
theorem length_names {vars : Variables} {start : Nat} {pieces : List TextPiece} {derefs : List Deref}
    (h : Refers vars start pieces derefs) : derefs.length = (names pieces).length := by
  induction h with
  | nil => rfl
  | literal _ ih => exact ih
  | var _ _ ih => exact congrArg Nat.succ ih

/-- A text that encodes some pieces is read with one reference for each variable, in order, and wherever it fits into memory it is
expanded to what the pieces stand for. -/
theorem expand_encode (pieces : List TextPiece) (hnames : (names pieces).length ≤ maxReferences) (vars : Variables) :
    ∃ vars' arg, vars.Extends vars' ∧ Reference.inText vars (.ofEscaped (encode pieces)) = .ok (vars', arg.derefs) ∧
      Reference.argument vars .text false (.ofEscaped (encode pieces)) = .ok (vars', arg) ∧
      List.Forall₂ (fun deref name => slice? arg.text deref.start deref.stop = some ("%" ++ name ++ "%") ∧
        ∃ id, deref.target = .static id ∧ vars'.find? name = some id) arg.derefs (names pieces) ∧
      ∀ (engine : Engine) (line : Line), vars'.Extends engine.vars → line.args = [arg] →
        let text := textOf engine.view engine.vars pieces
        engine.scratch.size + text.utf8ByteSize ≤ engine.scratch.limit →
        ∃ scratch, engine.expand line = ({ engine with scratch }, .ok [.text text]) ∧
          scratch.contents = engine.scratch.contents ++ text := by
  have hmarks : Marks (RawArg.ofEscaped (encode pieces)).isLiteralAt 0 pieces := by
    rw [ofEscaped_encode]
    exact @marks_literalFrom pieces 0 [] nofun
  obtain ⟨vars', derefs, hread, hvars, hrefers⟩ := refers_inTextOnto hmarks vars []
  let arg : Arg := { kind := .text, text := .ofList (pieces.flatMap decoded), isExpr := false, derefs }
  have htext : (RawArg.ofEscaped (encode pieces)).text = arg.text := by rw [ofEscaped_encode]
  have hchars : arg.text.toList = [] ++ pieces.flatMap decoded := String.toList_ofList
  have hinText : Reference.inText vars (.ofEscaped (encode pieces)) = .ok (vars', derefs) := by
    rw [Reference.inText, htext, hchars]
    exact hread
  have hargument : Reference.argument vars .text false (.ofEscaped (encode pieces)) = .ok (vars', arg) := by
    have hfew : derefs.length ≤ maxReferences := by rw [length_names hrefers]; exact hnames
    rw [Reference.argument_text_eq hfew hinText, htext]
  refine ⟨vars', arg, hvars, hinText, hargument, hrefers.forall₂ hchars rfl, ?_⟩
  intro engine line hext hline text hfits
  obtain ⟨values, hvalues, hfill⟩ := (hrefers.mono hext).fill_eq engine.view
  have hplan : Expansion.planAll engine.view engine.vars line.args = (engine.vars, .ok [(arg, .text values)]) := by
    simp [hline, Expansion.planAll, Expansion.plan, arg, hvalues, Except.map]
  have hwrite : Expansion.write (arg, .text values) = .text text := by
    rw [Expansion.write, hchars]
    exact congrArg _ ((hfill [] 0 rfl).trans (by simp [text]))
  have hplaced : ∀ p ∈ [(arg, Expansion.Planned.text values)], Expansion.Fits p := by
    have hsited := Reference.sited_inText hinText
    rw [htext] at hsited
    exact List.forall_mem_singleton.mpr (.inl ⟨rfl, hsited⟩)
  have hroom : engine.scratch.size + (([(arg, Expansion.Planned.text values)].map Expansion.write).map Expansion.heldSize).sum ≤
      engine.scratch.limit := by
    simpa [hwrite, Expansion.heldSize, Expanded.toText] using hfits
  obtain ⟨grown, hpieces, hexpand⟩ := Expansion.expand_of_le hplan hplaced hroom
  rw [List.map_singleton, hwrite] at hexpand
  refine ⟨grown.push text, ?_, by rw [Scratch.contents_push, Scratch.contents, hpieces]; rfl⟩
  simp only [Engine.expand, hexpand]
  rfl

/-- Escapes, wide characters, a variable that is set and an engine variable side by side. -/
def mixed : List TextPiece :=
  [.literal "50`% %é", .var ⟨"n", by decide⟩, .var ⟨"A_Space", by decide⟩, .literal "%n%"]

/-- The variable `n` with a wide character in it. -/
def wide : Variables :=
  let (vars, n) := Variables.intern {} "n"
  vars.put n (.text "ü")

/-- An engine with some variables and room for a few bytes. -/
def roomy (vars : Variables) : Engine :=
  { vars, world := default, scratch := { limit := 16 }, freshMs := 0, freshLines := 0 }

/-- The text of `mixed` stands for what it says, wide characters included. -/
theorem textOf_mixed {vars' : Variables} {arg : Arg}
    (h : Reference.argument wide .text false (.ofEscaped (encode mixed)) = .ok (vars', arg)) :
    textOf (roomy vars').view (roomy vars').vars mixed = "50`% %éü %n%" := by
  have hcheck : (match Reference.argument wide .text false (.ofEscaped (encode mixed)) with
      | .ok (vars, _) => textOf (roomy vars).view vars mixed == "50`% %éü %n%"
      | .error _ => false) = true := by
    decide +kernel
  rw [h] at hcheck
  exact beq_iff_eq.mp hcheck

/-- The text that encodes `mixed` is read with two references and expanded to what the pieces stand for. -/
theorem expand_encode_mixed : encode mixed = "50```% `%é%n%%A_Space%`%n`%" ∧
    ∃ vars' arg, Reference.argument wide .text false (.ofEscaped (encode mixed)) = .ok (vars', arg) ∧
      arg.derefs.length = 2 ∧
      ∃ scratch, (roomy vars').expand { (default : Line) with args := [arg] } =
        ({ roomy vars' with scratch }, .ok [.text "50`% %éü %n%"]) ∧ scratch.contents = "50`% %éü %n%" := by
  refine ⟨by decide +kernel, ?_⟩
  obtain ⟨vars', arg, -, -, hargument, hrefers, hexpand⟩ := expand_encode mixed (by decide) wide
  have htext := textOf_mixed hargument
  have hfits : (roomy vars').scratch.size + (textOf (roomy vars').view (roomy vars').vars mixed).utf8ByteSize ≤
      (roomy vars').scratch.limit := by
    have hsize : 0 + "50`% %éü %n%".utf8ByteSize ≤ 16 := by decide
    rw [htext]
    exact hsize
  obtain ⟨scratch, hscratch, hcontents⟩ :=
    hexpand (roomy vars') { (default : Line) with args := [arg] } (.refl _) rfl hfits
  refine ⟨vars', arg, hargument, hrefers.length_eq.trans (by decide), scratch, ?_, ?_⟩
  · rw [hscratch]
    exact congrArg (fun text => (_, Except.ok [Expanded.text text])) htext
  · rw [hcontents]
    exact htext

end TextPiece

end LineScript
