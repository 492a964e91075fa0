import LineScript.Proofs.Load.Loaded
import LineScript.Proofs.Load.Slots
import LineScript.Proofs.Text.Offsets

/-!
# Where references stand

The references that loading finds in a free text stand in it one after the other, between characters (`Deref.Sited`), and the
variables they name have slots (`Arg.Known`). So what the arguments of a loaded line will take up can be told before they are
written.
-/

namespace LineScript

/-- References stand one after the other in characters that start at an offset. -/
inductive Deref.Sited : (start : Nat) → List Char → List Deref → Prop
  | nil {start : Nat} {cs : List Char} : Sited start cs []
  | cons {start : Nat} {lead name cs : List Char} {target : Target} {rest : List Deref}
    (h : Sited (start + Text.byteSize lead + Text.byteSize name) cs rest) :
    Sited start (lead ++ (name ++ cs)) (⟨start + Text.byteSize lead, Text.byteSize name, target⟩ :: rest)

/-- The variables that a reference names, also those in the parts of a name, have slots among the first `n`. -/
def Target.Within (n : Nat) : Target → Prop
  | .static id => id < n
  | .dynamic parts => ∀ id, .var id ∈ parts → id < n

/-- A reference to a variable by its name has a slot among the first `n`. -/
def Deref.Known (n : Nat) (deref : Deref) : Prop :=
  ∀ id, deref.target = .static id → id < n

/-- Where the references of an argument stand and what they name: those of a free text stand in it, a place for a variable that
names none has no text, and the variables named have slots among the first `n`. -/
structure Arg.Refers (n : Nat) (arg : Arg) : Prop where
  sited : arg.kind = .text → arg.isExpr = false → Deref.Sited 0 arg.text.toList arg.derefs
  blank : arg.kind ≠ .text → arg.derefs = [] → arg.text = ""
  known : ∀ deref ∈ arg.derefs, deref.Known n

/-- What has a slot among the first has one among more. -/
theorem Target.Within.mono {n m : Nat} {target : Target} (h : target.Within n) (hle : n ≤ m) : target.Within m := by
  cases target with
  | static id => exact Nat.lt_of_lt_of_le h hle
  | dynamic parts => exact fun id hid => Nat.lt_of_lt_of_le (h id hid) hle

/-- A reference whose target has a slot is known. -/
theorem Target.Within.known {n : Nat} {deref : Deref} (h : deref.target.Within n) : deref.Known n := by
  intro id hid
  rw [hid] at h
  exact h

/-- A known reference is known among more slots. -/
theorem Deref.Known.mono {n m : Nat} {deref : Deref} (h : deref.Known n) (hle : n ≤ m) : deref.Known m :=
  fun id htarget => Nat.lt_of_lt_of_le (h id htarget) hle

/-- An argument refers to what it names among more slots as well. -/
theorem Arg.Refers.mono {n m : Nat} {arg : Arg} (h : arg.Refers n) (hle : n ≤ m) : arg.Refers m :=
  ⟨h.sited, h.blank, fun deref hderef => (h.known deref hderef).mono hle⟩

/-- A table that extends another one has at least as many slots. -/
theorem Variables.Extends.size_le {vars vars' : Variables} (h : vars.Extends vars') : vars.size ≤ vars'.size := by
  refine Nat.not_lt.mp fun hlt => ?_
  have hlt : vars'.slots.size < vars.slots.size := hlt
  obtain ⟨value, hslot⟩ := h vars'.slots.size vars.slots[vars'.slots.size] (Array.getElem?_eq_getElem hlt)
  rw [Array.getElem?_eq_none (Nat.le_refl _)] at hslot
  cases hslot

namespace Reference

open Text

/-- What is found in a table is one of its slots. -/
theorem lt_of_findKey? {vars : Variables} {key : String} {id : VarId} (h : vars.findKey? key = some id) : id < vars.size := by
  obtain ⟨hlt, -⟩ := Array.findIdx?_eq_some_iff_getElem.mp h
  exact hlt

/-- The slot given to a name is one of the table's. -/
theorem lt_of_intern (vars : Variables) (name : String) : (vars.intern name).2 < (vars.intern name).1.size := by
  simp only [Variables.intern]
  split
  · rename_i hfind
    exact lt_of_findKey? hfind
  · simp [Variables.size]

/-- A name is resolved to a slot of the table. -/
theorem lt_of_resolve {vars vars' : Variables} {name : String} {id : VarId} (h : vars.resolve name = .ok (vars', id)) :
    id < vars'.size := by
  unfold Variables.resolve at h
  split at h
  · rename_i hfind
    cases h
    exact lt_of_findKey? hfind
  · obtain ⟨_, -, h⟩ := bind_eq_ok_iff.mp h
    obtain rfl : (vars.intern name).1 = vars' := congrArg Prod.fst (Except.ok.inj h)
    obtain rfl : (vars.intern name).2 = id := congrArg Prod.snd (Except.ok.inj h)
    exact lt_of_intern vars name

/-- A name in a program gets a slot of the table. -/
theorem lt_of_slot {vars vars' : Variables} {name : String} {id : VarId} (h : slot vars name = .ok (vars', id)) :
    id < vars'.size := by
  unfold slot at h
  split at h
  · rename_i hresolve
    cases h
    exact lt_of_resolve hresolve
  · cases h

/-- The references of a text that was read up to `lead`, where none is open. -/
theorem sited_inTextOnto {literal : Nat → Bool} {vars vars' : Variables} {done derefs : List Deref} (cs : List Char)
    (start : Nat) (lead : List Char) :
    (inTextOnto literal vars done none (withOffsets (start + byteSize lead) cs) = .ok (vars', derefs) →
      ∃ more, derefs = done.reverse ++ more ∧ Deref.Sited start (lead ++ cs) more) ∧
    ∀ name, inTextOnto literal vars done (some (start + byteSize lead, name))
        (withOffsets (start + byteSize lead + 1 + byteSize name) cs) = .ok (vars', derefs) →
      ∃ more, derefs = done.reverse ++ more ∧ Deref.Sited start (lead ++ '%' :: (name.reverse ++ cs)) more := by
  induction cs generalizing vars done start lead with
  | nil =>
    constructor
    · intro h
      cases h
      exact ⟨[], (List.append_nil _).symm, .nil⟩
    · intro name h
      cases h
  | cons c cs ih =>
    constructor
    · intro h
      rw [withOffsets_cons, inTextOnto] at h
      split at h
      · rename_i hopens
        obtain rfl : c = '%' := beq_iff_eq.mp (Bool.and_eq_true_iff.mp hopens).1
        exact (ih start lead).2 [] h
      · have hoffset : start + byteSize lead + c.utf8Size = start + byteSize (lead ++ [c]) := by
          rw [byteSize_append, byteSize_cons, Nat.add_assoc]
          rfl
        rw [hoffset] at h
        obtain ⟨more, hmore, hsited⟩ := (ih start (lead ++ [c])).1 h
        rw [List.append_assoc] at hsited
        exact ⟨more, hmore, hsited⟩
    · intro name h
      rw [withOffsets_cons, inTextOnto] at h
      split at h
      · rename_i hcloses
        obtain rfl : c = '%' := beq_iff_eq.mp (Bool.and_eq_true_iff.mp hcloses).1
        split at h
        · cases h
        · split at h
          · cases h
          · rename_i vars₁ id hslot
            obtain ⟨more, hmore, hsited⟩ := (ih (start + byteSize lead + 1 + byteSize name + 1) []).1 h
            have hname : byteSize ('%' :: (name.reverse ++ ['%'])) = 1 + byteSize name + 1 := by
              rw [byteSize_cons, byteSize_append, byteSize_reverse, byteSize_cons]
              rfl
            have hsize : start + byteSize lead + 1 + byteSize name + 1 - (start + byteSize lead) =
                byteSize ('%' :: (name.reverse ++ ['%'])) := by
              rw [hname]
              omega
            have hstop : start + byteSize lead + 1 + byteSize name + 1 =
                start + byteSize lead + byteSize ('%' :: (name.reverse ++ ['%'])) := by
              rw [hname]
              omega
            rw [hstop] at hsited
            have hcons : Deref.Sited start (lead ++ ('%' :: (name.reverse ++ ['%']) ++ ([] ++ cs)))
              (⟨start + byteSize lead, byteSize ('%' :: (name.reverse ++ ['%'])), .static id⟩ :: more) := .cons hsited
            rw [← hsize] at hcons
            refine ⟨_, ?_, by simpa using hcons⟩
            rw [hmore, List.reverse_cons, List.append_assoc]
            rfl
      · have hoffset : start + byteSize lead + 1 + byteSize name + c.utf8Size =
            start + byteSize lead + 1 + byteSize (c :: name) := by
          rw [byteSize_cons]
          omega
        rw [hoffset] at h
        obtain ⟨more, hmore, hsited⟩ := (ih start lead).2 (c :: name) h
        rw [List.reverse_cons, List.append_assoc] at hsited
        exact ⟨more, hmore, hsited⟩

/-- The references that are read in a text stand in it, one after the other. -/
theorem sited_inText {vars vars' : Variables} {raw : RawArg} {derefs : List Deref}
    (h : inText vars raw = .ok (vars', derefs)) : Deref.Sited 0 raw.text.toList derefs := by
  obtain ⟨more, hmore, hsited⟩ := (sited_inTextOnto raw.text.toList 0 []).1 h
  rw [hmore]
  exact hsited

/-- The references that are read in a free text have slots if those before did. -/
theorem within_inTextOnto {literal : Nat → Bool} {vars vars' : Variables} {done derefs : List Deref}
    {opened : Option (Nat × List Char)} {chars : List (Nat × Char)}
    (h : inTextOnto literal vars done opened chars = .ok (vars', derefs)) (hdone : ∀ d ∈ done, d.target.Within vars.size) :
    ∀ d ∈ derefs, d.target.Within vars'.size := by
  fun_induction inTextOnto literal vars done opened chars with
  | case1 vars done =>
    cases h
    exact fun d hd => hdone d (List.mem_reverse.mp hd)
  | case2 | case4 | case5 => cases h
  | case3 _ _ _ _ _ _ ih => exact ih h hdone
  | case6 vars done _ _ _ _ _ _ _ vars₁ id hslot ih =>
    refine ih h fun d hd => ?_
    rcases List.mem_cons.mp hd with rfl | hd
    · exact lt_of_slot hslot
    · exact (hdone d hd).mono (extends_slot hslot).size_le
  | case7 _ _ _ _ _ _ _ ih => exact ih h hdone

/-- A literal piece of a name makes no variable. -/
theorem var_not_mem_literalPart {name : String} {piece : List Char} {parts : List NamePart}
    (h : literalPart name piece = .ok parts) (id : VarId) : .var id ∉ parts := by
  unfold literalPart at h
  split at h
  · cases h
    exact nofun
  · split at h
    · cases h
    · cases h
      simp

/-- The variables among the parts of a name have slots. -/
theorem lt_of_partsOf {name : String} {vars vars' : Variables} {pieces : List (List Char)} {parts : List NamePart}
    (h : partsOf name vars pieces = .ok (vars', parts)) : ∀ id, .var id ∈ parts → id < vars'.size := by
  fun_induction partsOf name vars pieces generalizing vars' parts with
  | case1 vars =>
    cases h
    exact fun id hid => absurd hid List.not_mem_nil
  | case2 vars tail =>
    obtain ⟨last, hlast, h⟩ := bind_eq_ok_iff.mp h
    cases h
    exact fun id hid => absurd hid (var_not_mem_literalPart hlast id)
  | case3 vars piece inner rest ih =>
    obtain ⟨literal, hliteral, h⟩ := bind_eq_ok_iff.mp h
    split at h
    · cases h
    obtain ⟨⟨vars₁, var⟩, hslot, h⟩ := bind_eq_ok_iff.mp h
    obtain ⟨⟨vars₂, more⟩, hmore, h⟩ := bind_eq_ok_iff.mp h
    cases h
    intro id hid
    rcases List.mem_append.mp hid with hid | hid
    · exact absurd hid (var_not_mem_literalPart hliteral id)
    · rcases List.mem_cons.mp hid with hvar | hid
      · cases hvar
        exact Nat.lt_of_lt_of_le (lt_of_slot hslot) (extends_partsOf hmore).size_le
      · exact ih _ hmore id hid

/-- What a name refers to has slots. -/
theorem within_ofName {vars vars' : Variables} {name : List Char} {literal : Nat → Bool} {target : Target}
    (h : ofName vars name literal = .ok (vars', target)) : target.Within vars'.size := by
  unfold ofName at h
  simp only at h
  split at h
  · obtain ⟨⟨vars₁, id⟩, hslot, h⟩ := bind_eq_ok_iff.mp h
    cases h
    exact lt_of_slot hslot
  · split at h
    · cases h
    · obtain ⟨⟨vars₁, parts⟩, hparts, h⟩ := bind_eq_ok_iff.mp h
      cases h
      exact lt_of_partsOf hparts

theorem within_ofTokens {vars vars' : Variables} {tokens : List Token} {derefs : List Deref}
    (h : ofTokens vars tokens = .ok (vars', derefs)) : ∀ d ∈ derefs, d.target.Within vars'.size := by
  fun_induction ofTokens vars tokens generalizing vars' derefs with
  | case1 vars =>
    cases h
    exact fun d hd => absurd hd List.not_mem_nil
  | case2 vars token rest _ ih =>
    obtain ⟨⟨vars₁, target⟩, hname, h⟩ := bind_eq_ok_iff.mp h
    obtain ⟨⟨vars₂, more⟩, hmore, h⟩ := bind_eq_ok_iff.mp h
    cases h
    intro d hd
    rcases List.mem_cons.mp hd with rfl | hd
    · exact (within_ofName hname).mono (extends_ofTokens hmore).size_le
    · exact ih _ hmore d hd
  | case3 vars token rest _ ih => exact ih h

/-- An argument that names a variable is the name, with one reference that covers it. One that names none is blank. -/
theorem inName_eq_ok {vars vars' : Variables} {output : Bool} {raw : RawArg} {text : String} {derefs : List Deref}
    (h : inName vars output raw = .ok (vars', text, derefs)) :
    derefs = [] ∧ text = "" ∨ ∃ name target, name ≠ [] ∧ text = .ofList name ∧ derefs = [⟨0, byteSize name, target⟩] ∧
      target.Within vars'.size := by
  unfold inName at h
  simp only at h
  split at h
  · cases h
    exact .inl ⟨rfl, rfl⟩
  · rename_i hblank
    have hname : trimList isBlank raw.text.toList ≠ [] := fun hnil => hblank (List.isEmpty_iff.mpr hnil)
    obtain ⟨⟨vars₁, target⟩, htarget, h⟩ := bind_eq_ok_iff.mp h
    have hwithin := within_ofName htarget
    cases target with
    | dynamic _ =>
      cases h
      exact .inr ⟨_, _, hname, rfl, rfl, hwithin⟩
    | static _ =>
      simp only at h
      split at h
      · cases h
      · cases h
        exact .inr ⟨_, _, hname, rfl, rfl, hwithin⟩

theorem within_inName {vars vars' : Variables} {output : Bool} {raw : RawArg} {text : String} {derefs : List Deref}
    (h : inName vars output raw = .ok (vars', text, derefs)) : ∀ d ∈ derefs, d.target.Within vars'.size := by
  intro d hd
  rcases inName_eq_ok h with ⟨rfl, -⟩ | ⟨name, target, -, -, rfl, hwithin⟩
  · cases hd
  · cases List.mem_singleton.mp hd
    exact hwithin

/-- Building an argument sites its references and gives slots to what they name. -/
theorem refers_argument {vars vars' : Variables} {kind : ArgKind} {isExpr : Bool} {raw : RawArg} {arg : Arg}
    (h : argument vars kind isExpr raw = .ok (vars', arg)) : arg.Refers vars'.size := by
  obtain ⟨rfl, rfl, h⟩ := argument_eq_ok h
  rcases h with ⟨htext, hexpr, -, tokens, -, htokens⟩ | ⟨hfree, -, htext, hderefs⟩ | ⟨output, hkind, hname⟩
  · exact ⟨fun _ hplain => (Bool.eq_false_iff.mp hplain hexpr).elim, fun hkind => absurd htext hkind,
      fun d hd => (within_ofTokens htokens d hd).known⟩
  · rw [inText] at hderefs
    exact ⟨fun _ _ => htext ▸ sited_inText hderefs, fun hkind => absurd hfree hkind,
      fun d hd => (within_inTextOnto hderefs nofun d hd).known⟩
  · refine ⟨fun htext => absurd htext hkind, fun _ hnone => ?_, fun d hd => (within_inName hname d hd).known⟩
    rcases inName_eq_ok hname with ⟨-, hblank⟩ | ⟨name, target, -, -, hderefs, -⟩
    · exact hblank
    · rw [hderefs] at hnone
      cases hnone

end Reference

namespace Builder

/-- The arguments that are built refer to what they name. -/
theorem refers_buildArgs {commands : CommandSet} {action : Action} {least pos : Nat} {note note' : Note}
    {vars vars' : Variables} {raws : List RawArg} {args : List Arg}
    (h : buildArgs commands action least pos note vars raws = .ok (vars', note', args)) :
    ∀ arg ∈ args, arg.Refers vars'.size := by
  induction raws generalizing pos note vars args with
  | nil =>
    cases h
    exact nofun
  | cons raw rest ih =>
    unfold buildArgs at h
    obtain ⟨⟨vars₁, arg⟩, harg, h⟩ := bind_eq_ok_iff.mp h
    simp only at h
    split at h
    · cases h
    obtain ⟨⟨vars₂, note₂, args₂⟩, hrest, h⟩ := bind_eq_ok_iff.mp h
    cases h
    intro given hgiven
    rcases List.mem_cons.mp hgiven with rfl | hgiven
    · exact (Reference.refers_argument harg).mono (extends_buildArgs hrest).size_le
    · exact ih hrest given hgiven

/-- The references of all lines under construction stand in their texts and name variables with slots. -/
def Refers (b : Builder) : Prop :=
  ∀ line ∈ b.lines, ∀ arg ∈ line.args, arg.Refers b.vars.size

/-- A line that is pushed refers to what it names, as the lines before it do. -/
theorem refers_push {b b' : Builder} {action : Action} {args : List RawArg} {lineNo : Nat}
    (h : b.push action args lineNo = .ok b') (hb : b.Refers) : b'.Refers := by
  have hle := (extends_push h).size_le
  obtain ⟨vars, built, note, note', hargs, -, rfl⟩ := push_eq_ok h
  intro line hline arg harg
  rcases Array.mem_push.mp hline with hline | rfl
  · exact (hb line hline arg harg).mono hle
  · exact refers_buildArgs hargs arg harg

end Builder

/-- Linking the lines of a program leaves their arguments. -/
theorem Program.args_arrange {script arranged : Script} (h : arrange script = .ok arranged) (i : Nat) :
    (arranged.line i).args = (script.line i).args := by
  obtain ⟨links, rfl⟩ := arrange_eq_ok h
  rw [line_linkLines]
  split
  · rfl
  · rw [Script.line_of_le (Nat.le_of_not_lt ‹_›)]

/-- The references of a loaded program stand in their texts and name variables with slots. -/
theorem Program.refers_of_load {commands : CommandSet} {items : List Item} {program : Program}
    (h : load commands items = .ok program) (id : LineId) :
    ∀ arg ∈ (program.script.line id).args, arg.Refers program.vars.size := by
  obtain ⟨built, ended, arranged, lines, hbuilt, hended, harranged, hlines, rfl⟩ := load_eq_ok h
  have hbuilt : built.Refers :=
    Builder.addItems_induction (motive := Builder.Refers) Builder.refers_push (fun _ hb => hb) (fun _ hb => hb) hbuilt
      fun _ hline => absurd hline (Array.not_mem_empty _)
  have hended : ended.Refers := Builder.refers_push hended hbuilt
  obtain ⟨note, hline, -⟩ := line_resolveJumps hlines id
  rw [hline]
  have hargs : (arranged.line id).args =
      (({ lines := ended.lines, labels := ended.labels, files := ended.files, commands := ended.commands } : Script).line
        id).args := args_arrange harranged id
  intro arg harg
  have harg : arg ∈ (arranged.line id).args := harg
  rw [hargs] at harg
  by_cases hlt : id < ended.lines.size
  · rw [Script.line_of_lt hlt] at harg
    exact hended _ (Array.getElem_mem hlt) arg harg
  · rw [Script.line_of_le (Nat.le_of_not_lt hlt)] at harg
    cases harg

end LineScript
