import LineScript.Proofs.Load.Arguments
import LineScript.Proofs.Load.WellLinked

/-!
# Lines and labels in range

The links of a loaded program stay within its lines, its labels name lines, and a label that was noted at a line is one of its
labels (`Program.script_inRange_of_load`). Every label is bound to the line that is added next, and a program ends with a line of
its own, so none is left without one.
-/

namespace LineScript

/-- The lines and labels that a program names are there. -/
structure Script.InRange (script : Script) : Prop where
  next_lt : ∀ id next, (script.line id).next = some next → next < script.lines.size
  prev_lt : ∀ id prev, (script.line id).prev = some prev → prev < script.lines.size
  related_lt : ∀ id related, (script.line id).related = some related → related < script.lines.size
  parent_lt : ∀ id parent, (script.line id).parent = some parent → parent < script.lines.size
  target_lt : ∀ label ∈ script.labels.entries, label.target < script.lines.size
  noted_lt : ∀ id label, (script.line id).note = .label label → label < script.labels.entries.size

/-- A label that is found is there. -/
theorem Labels.lt_of_find? {labels : Labels} {name : String} {id : LabelId} (h : labels.find? name = some id) :
    id < labels.entries.size := by
  obtain ⟨hlt, -⟩ := Array.findIdx?_eq_some_iff_getElem.mp h
  exact hlt

namespace Builder

/-- Labels that are bound to a line are those that were there, or are for that line. -/
theorem mem_bindLabels {labels : Labels} {names : List String} {target : LineId} {label : Label}
    (h : label ∈ (bindLabels labels names target).entries) : label ∈ labels.entries ∨ label.target = target := by
  unfold bindLabels at h
  induction names generalizing labels with
  | nil => exact .inl h
  | cons name rest ih =>
    rw [List.foldl_cons] at h
    rcases ih h with h | h
    · cases hinsert : labels.insert name target with
      | none =>
        rw [hinsert] at h
        exact .inl h
      | some inserted =>
        rw [hinsert] at h
        unfold Labels.insert at hinsert
        split at hinsert
        · cases hinsert
        · cases hinsert
          rcases Array.mem_push.mp h with h | rfl
          · exact .inl h
          · exact .inr rfl
    · exact .inr h

/-- Labels that are bound name lines that are there. -/
def LabelsIn (b : Builder) : Prop :=
  ∀ label ∈ b.labels.entries, label.target < b.lines.size

/-- After a line is pushed, bound labels still name lines that are there. -/
theorem labelsIn_push {b b' : Builder} {action : Action} {args : List RawArg} {lineNo : Nat}
    (h : b.push action args lineNo = .ok b') (hb : b.LabelsIn) : b'.LabelsIn := by
  obtain ⟨vars, built, note, note', -, -, rfl⟩ := push_eq_ok h
  intro label hlabel
  rw [Array.size_push]
  rcases mem_bindLabels hlabel with hlabel | hlabel
  · exact Nat.lt_succ_of_lt (hb label hlabel)
  · rw [hlabel]
    exact Nat.lt_succ_self _

end Builder

/-- A line that is neither a brace nor an owner is related to no other. -/
theorem Layout.Placed.related_of_plain {shape : Nat → Shape} {last : Nat} {link : Nat → Link} {p : Part} {layout : Layout}
    {inside parent : Option Nat} {i m : Nat} (h : Placed shape last link p layout inside parent i m) {c : Nat} (hi : i ≤ c)
    (hm : c < m) (hc : shape c = .plain ∨ ∃ action, shape c = .inLoop action) : (link c).related = none := by
  obtain ⟨node, inside', parent', j, k, ⟨hlaid, hl⟩, -, -, -, hst⟩ := Placed.node_at h.laid h.linked hi hm
  cases hst with
  | first =>
    cases hlaid with
    | plain | inLoop => exact congrArg Link.related hl
    | block hs | branch hs | branchElse hs | loop hs => simp [hs] at hc
  | closing =>
    cases hlaid with
    | block _ _ hs => simp [hs] at hc
  | otherwise =>
    cases hlaid with
    | branchElse _ _ _ hs _ _ => simp [hs] at hc

namespace Script.LaidOut

variable {script : Script} {last : Nat} {layout : Layout} (h : script.LaidOut last layout)
include h

/-- The line after a line is one of the script. -/
theorem next_lt {id next : LineId} (hnext : (script.line id).next = some next) : next < script.lines.size := by
  rcases Nat.lt_or_ge last id with hgt | hle
  · rw [h.line_eq_default hgt] at hnext
    cases hnext
  · rw [h.next_eq id hle] at hnext
    split at hnext
    · rename_i hlt
      cases hnext
      exact h.size_eq ▸ Nat.succ_lt_succ hlt
    · cases hnext

/-- The line that a line is related to is one of the script. -/
theorem related_lt {id related : LineId} (hrelated : (script.line id).related = some related) :
    related < script.lines.size := by
  rcases Nat.lt_or_ge last id with hgt | hle
  · rw [h.line_eq_default hgt] at hrelated
    cases hrelated
  have howner (hi : script.IsOwner id) : related < script.lines.size := by
    obtain ⟨_, _, k, -, hk, hkle⟩ := h.owner_body hi
    cases hk.symm.trans hrelated
    exact h.size_eq ▸ Nat.lt_succ_of_le hkle
  have hplain (hshape : script.shapeAt id = .plain ∨ ∃ action, script.shapeAt id = .inLoop action) :
      related < script.lines.size := by
    cases (h.placed.related_of_plain (Nat.zero_le id) (Nat.lt_succ_of_le hle) hshape).symm.trans hrelated
  cases hshape : script.shapeAt id with
  | plain => exact hplain (.inl hshape)
  | inLoop action => exact hplain (.inr ⟨action, hshape⟩)
  | cond => exact howner (.inl ((Program.shape_eq_cond_iff _ _).mp hshape))
  | otherwise => exact howner (.inr (.inl ((Program.shape_eq_otherwise_iff _ _).mp hshape)))
  | loop => exact howner (.inr (.inr ((Program.shape_eq_loop_iff _ _).mp hshape)))
  | opening =>
    obtain ⟨_, e, -, he, -, hrel, -⟩ := h.block_at ((Program.shape_eq_opening_iff _ _).mp hshape)
    cases hrel.symm.trans hrelated
    exact he
  | closing =>
    obtain ⟨b, hb, -, -, hrel⟩ := h.block_of_closing ((Program.shape_eq_closing_iff _ _).mp hshape)
    cases hrel.symm.trans hrelated
    exact h.size_eq ▸ Nat.lt_succ_of_le (Nat.le_trans (Nat.le_of_lt hb) hle)

/-- The line that encloses a line is one of the script. -/
theorem parent_lt {id parent : LineId} (hparent : (script.line id).parent = some parent) : parent < script.lines.size := by
  have hlt := (h.encloses_of_parent hparent).1
  have hle := h.le_last_of_parent hparent
  exact h.size_eq ▸ Nat.lt_succ_of_le (Nat.le_trans (Nat.le_of_lt hlt) hle)

end Script.LaidOut

namespace Program

/-- The labels of a loaded program name lines that are there. -/
theorem target_lt_of_load {commands : CommandSet} {items : List Item} {program : Program}
    (h : load commands items = .ok program) : ∀ label ∈ program.script.labels.entries, label.target < program.script.lines.size := by
  obtain ⟨built, ended, hbuilt, hended, -, hlabels, -, hsize, -⟩ := built_of_load h
  have hbuilt : built.LabelsIn :=
    Builder.addItems_induction (motive := Builder.LabelsIn) Builder.labelsIn_push (fun _ hb => hb) (fun _ hb => hb) hbuilt
      fun _ hlabel => absurd hlabel (Array.not_mem_empty _)
  rw [hlabels, hsize]
  exact Builder.labelsIn_push hended hbuilt

/-- The links and labels of a loaded program stay among its lines. -/
theorem script_inRange_of_load {commands : CommandSet} {items : List Item} {program : Program}
    (h : load commands items = .ok program) : program.script.InRange := by
  obtain ⟨last, layout, hlaid⟩ := laidOut_of_load h
  obtain ⟨last', hsize, -, hprev⟩ := prev_of_load h
  exact {
    next_lt := fun id next => hlaid.next_lt
    prev_lt := fun id prev hid => by
      rcases Nat.lt_or_ge last' id with hgt | hle
      · rw [Script.line_of_le (hsize ▸ hgt)] at hid
        cases hid
      · rw [hprev id hle] at hid
        split at hid
        · cases hid
        · cases hid
          exact hsize ▸ Nat.lt_succ_of_le (Nat.le_trans (Nat.sub_le id 1) hle)
    related_lt := fun id related => hlaid.related_lt
    parent_lt := fun id parent => hlaid.parent_lt
    target_lt := target_lt_of_load h
    noted_lt := fun id label hnote => by
      obtain ⟨-, arg, -, -, -, hfind⟩ := noted_of_load h hnote
      exact Labels.lt_of_find? hfind }

end Program

end LineScript
