import LineScript.Proofs.Load.Links

/-!
# Arranged programs

A program that `Program.arrange` or `Program.load` accepts has a layout (`Script.LaidOut`): its lines are those of the layout,
each linked to its neighbours by number and to the others by its place.
-/

namespace LineScript

namespace Script

/-- What a line of a program is to the layout. -/
def shapeAt (script : Script) (i : Nat) : Shape :=
  Program.shape script.commands (script.line i).action

/-- What a line of a program says of the lines around it. -/
def linkAt (script : Script) (i : Nat) : Link :=
  ⟨(script.line i).parent, (script.line i).related⟩

/-- A program whose last line is `last` has a layout, and its lines are linked as the layout says. -/
structure LaidOut (script : Script) (last : Nat) (layout : Layout) : Prop where
  size_eq : script.lines.size = last + 1
  last_plain : script.shapeAt last = .plain
  laid : Layout.Laid script.shapeAt last .many false layout 0 (last + 1)
  linked : layout.LinkedBy script.linkAt none none (last + 1)
  next_eq : ∀ i, i ≤ last → (script.line i).next = if i < last then some (i + 1) else none

theorem line_of_lt {script : Script} {i : Nat} (h : i < script.lines.size) : script.line i = script.lines[i] := by
  simp [line, h]

theorem line_of_le {script : Script} {i : Nat} (h : script.lines.size ≤ i) : script.line i = default := by
  simp [line, Array.getElem?_eq_none h]

/-- Beyond the last line there is only the plain line that stands for a missing one. -/
theorem shapeAt_of_le {script : Script} {i : Nat} (h : script.lines.size ≤ i) : script.shapeAt i = .plain := by
  rw [shapeAt, line_of_le h]
  rfl

end Script

namespace Program

open Layout

/-- The lines the layout takes as conditions are those whose answer selects the next line. -/
theorem shape_eq_cond_iff (commands : CommandSet) (action : Action) :
    shape commands action = .cond ↔ Script.isConditional commands action = true := by
  cases action with
  | command id => by_cases h : (commands.get id).conditional = true <;> simp [shape, Script.isConditional, h]
  | _ => simp [shape, Script.isConditional]

/-- Braces, elses and loops are the only lines of their shapes. -/
theorem shape_eq_iff {commands : CommandSet} {action mark : Action}
    (hmark : mark = .blockBegin ∨ mark = .blockEnd ∨ mark = .otherwise ∨ mark = .loop) :
    shape commands action = shape commands mark ↔ action = mark := by
  refine ⟨fun h => ?_, fun h => by rw [h]⟩
  rcases hmark with rfl | rfl | rfl | rfl
  all_goals
    cases action with
    | command id => by_cases hc : (commands.get id).conditional = true <;> simp [shape, Script.isConditional, hc] at h
    | _ => simp [shape, Script.isConditional] at h ⊢

/-- The lines the layout takes as elses are the elses. -/
theorem shape_eq_otherwise_iff (commands : CommandSet) (action : Action) :
    shape commands action = .otherwise ↔ action = .otherwise :=
  shape_eq_iff (.inr (.inr (.inl rfl)))

/-- The lines the layout takes as the start of a block are the opening braces. -/
theorem shape_eq_opening_iff (commands : CommandSet) (action : Action) :
    shape commands action = .opening ↔ action = .blockBegin :=
  shape_eq_iff (.inl rfl)

/-- The lines the layout takes as the end of a block are the closing braces. -/
theorem shape_eq_closing_iff (commands : CommandSet) (action : Action) :
    shape commands action = .closing ↔ action = .blockEnd :=
  shape_eq_iff (.inr (.inl rfl))

/-- The lines the layout takes as loops are the loops. -/
theorem shape_eq_loop_iff (commands : CommandSet) (action : Action) : shape commands action = .loop ↔ action = .loop :=
  shape_eq_iff (.inr (.inr (.inr rfl)))

/-- The rows of a program are those of its shapes. -/
theorem rows_eq (script : Script) :
    (script.lines.toList.mapIdx fun i line => (⟨i, shape script.commands line.action⟩ : Row)) =
      rowsFrom script.shapeAt script.lines.size 0 := by
  apply List.ext_getElem
  · simp [rowsFrom, length_stretch]
  · intro i h1 h2
    simp only [List.length_mapIdx, Array.length_toList] at h1
    simp [rowsFrom, stretch, Script.shapeAt, Script.line_of_lt h1]

/-- A linked line keeps everything but its links. -/
theorem line_linkLines (script : Script) (links : List Link) (i : Nat) :
    ({ script with lines := linkLines script.lines links } : Script).line i =
      if i < script.lines.size then
        { script.line i with
          prev := if i == 0 then none else some (i - 1)
          next := if i + 1 < script.lines.size then some (i + 1) else none
          parent := ((links[i]?).getD ⟨none, none⟩).parent
          related := ((links[i]?).getD ⟨none, none⟩).related }
      else default := by
  by_cases h : i < script.lines.size
  · rw [if_pos h, Script.line_of_lt h, Script.line_of_lt (by simpa [linkLines] using h)]
    simp [linkLines]
  · rw [if_neg h, Script.line_of_le (by simpa [linkLines] using h)]

/-- A program that is arranged is the one before it with its lines linked. -/
theorem arrange_eq_ok {script arranged : Script} (h : arrange script = .ok arranged) :
    ∃ links, arranged = { script with lines := linkLines script.lines links } := by
  unfold arrange at h
  simp only at h
  split at h
  · cases h
  · exact ⟨_, (Except.ok.inj h).symm⟩

/-- Links change nothing of what the lines are to the layout. -/
theorem shapeAt_linkLines (script : Script) (links : List Link) :
    ({ script with lines := linkLines script.lines links } : Script).shapeAt = script.shapeAt := by
  funext i
  simp only [Script.shapeAt, line_linkLines]
  split
  · rfl
  · rw [Script.line_of_le (Nat.le_of_not_lt ‹_›)]

/-- A program with the links of its layout is laid out. -/
theorem laidOut_linkLines {script : Script} {last : Nat} {layout : Layout} (hsize : script.lines.size = last + 1)
    (hlast : script.shapeAt last = .plain) (hlaid : Laid script.shapeAt last .many false layout 0 (last + 1)) :
    ({ script with lines := linkLines script.lines (layout.links none none none) } : Script).LaidOut last layout := by
  have hlen := hlaid.length_links none none none
  have hshape := shapeAt_linkLines script (layout.links none none none)
  refine ⟨?_, ?_, ?_, ?_, ?_⟩
  · simpa [linkLines] using hsize
  · rw [hshape, hlast]
  · rw [hshape]
    exact hlaid
  · refine hlaid.linkedBy_program _ rfl hlast rfl none ?_
    apply List.ext_getElem
    · rw [hlen, length_stretch]
    · intro i h1 h2
      have hi : i < script.lines.size := by
        rw [hlen] at h1
        omega
      simp only [stretch, List.getElem_map, List.getElem_range', Script.linkAt, line_linkLines, Nat.zero_add, Nat.one_mul,
        if_pos hi, List.getElem?_eq_getElem h1, Option.getD_some]
  · intro i hi
    rw [line_linkLines, if_pos (show i < script.lines.size by omega)]
    simp only [hsize, Nat.add_lt_add_iff_right]

/-- A program that is arranged has a layout, and the same lines apart from their links. -/
theorem laidOut_of_arrange {script arranged : Script} {last : Nat} (hsize : script.lines.size = last + 1)
    (hlast : script.shapeAt last = .plain) (h : arrange script = .ok arranged) :
    (∃ layout, arranged.LaidOut last layout) ∧ arranged.shapeAt = script.shapeAt := by
  unfold arrange at h
  rw [rows_eq] at h
  simp only [hsize, Nat.add_sub_cancel] at h
  split at h
  · cases h
  · rename_i layout hl
    obtain rfl := Except.ok.inj h
    have hlaid := laid_of_ofRows (fun j hj => by simp [Script.shapeAt_of_le (hsize ▸ hj)]) hl
    exact ⟨⟨layout, laidOut_linkLines hsize hlast hlaid⟩, shapeAt_linkLines script _⟩

/-- The lines before the one that closes a program derive from the grammar exactly when the program is arranged. -/
theorem arrange_isOk_iff {script : Script} {last : Nat} (hsize : script.lines.size = last + 1)
    (hlast : script.shapeAt last = .plain) :
    (∃ arranged, arrange script = .ok arranged) ↔ Spans script.shapeAt .many false 0 last := by
  constructor
  · rintro ⟨arranged, h⟩
    obtain ⟨⟨layout, hlaid⟩, hshape⟩ := laidOut_of_arrange hsize hlast h
    exact hshape ▸ hlaid.laid.spans_last rfl hlaid.last_plain rfl (Nat.zero_le _)
  · intro h
    obtain ⟨layout, hl⟩ := ofRows_of_spans hlast h
    refine ⟨{ script with lines := linkLines script.lines (layout.links none none none) }, ?_⟩
    unfold arrange
    rw [rows_eq]
    simp only [hsize, Nat.add_sub_cancel, hl]

end Program

end LineScript
