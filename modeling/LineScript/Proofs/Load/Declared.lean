import LineScript.Command.Standard
import LineScript.Proofs.Load.Arguments
import Mathlib.Algebra.Ring.Nat
import Mathlib.Data.List.Induction
import Mathlib.Data.List.Pairwise

/-!
# Declared labels

The labels that a program declares, read off its entries, against the labels that it is loaded with. A label names the line added
next, and labels are looked up by their names in lower case (`Labels.find?`). While labels await their line only ASCII case is
disregarded (`Builder.addLabel`), and binding them passes over a name that is taken (`Builder.bindLabels`): of two labels for one
line that differ in more than ASCII case, such as `É` and `é`, the second is lost. No other label is, and whatever its name finds
is bound to its line (`Program.labels_of_load`).
-/

namespace LineScript

/-- The number of lines of a statement. -/
def Statement.lineCount (s : Statement) : Nat :=
  if Text.asciiLower (Text.trim s.keyword) == "repeat" then 2 else 1

/-- The number of lines of an entry. -/
def Item.lineCount : Item → Nat
  | .statement first sameLine => ((first :: sameLine).map Statement.lineCount).sum
  | .label _ _ | .file _ => 0

namespace Label

/-- The label of a name as written, for a line. -/
def named (name : String) (target : LineId) : Label :=
  { name := Text.trim name, key := Text.lower (Text.trim name), target }

/-- The labels that entries declare where `lines` lines come before them. -/
def declared : (lines : Nat) → List Item → List Label
  | _, [] => []
  | lines, .label name _ :: rest => named name lines :: declared lines rest
  | lines, item :: rest => declared (lines + item.lineCount) rest

/-- Labels with one more, unless one of them is found by the same names. -/
def keep (kept : List Label) (label : Label) : List Label :=
  if kept.any (·.key == label.key) then kept else kept ++ [label]

/-- The first of each of the labels that are found by the same names. -/
def firsts (labels : List Label) : List Label :=
  labels.foldl keep []

/-- Two labels, the second of which may follow the first: if they are found by the same names, they are for one line and differ
in more than ASCII case. -/
def MayFollow (earlier later : Label) : Prop :=
  earlier.key = later.key → earlier.target = later.target ∧ Text.sameAscii earlier.name later.name = false

/-- A declared label is found by its name in lower case. -/
theorem key_of_mem_declared {lines : Nat} {items : List Item} {label : Label} (h : label ∈ declared lines items) :
    label.key = Text.lower label.name := by
  fun_induction declared lines items with
  | case1 => cases h
  | case2 lines name lineNo rest ih =>
    rcases List.mem_cons.mp h with rfl | h
    · rfl
    · exact ih h
  | case3 lines item rest _ ih => exact ih h

/-- Labels that are found by the same names are for the same line. -/
theorem target_eq_of_pairwise {labels : List Label} (h : labels.Pairwise MayFollow) {a b : Label} (ha : a ∈ labels)
    (hb : b ∈ labels) (hkey : a.key = b.key) : a.target = b.target := by
  have : Std.Symm fun a b : Label => a.key = b.key → a.target = b.target := ⟨fun a b hab hkey => (hab hkey.symm).symm⟩
  exact (h.imp fun hab hkey => (hab hkey).1).forall_of_forall (fun _ _ _ => rfl) ha hb hkey

/-- Of labels with one more, that one is kept if none before it is found by the same names. -/
theorem firsts_concat (labels : List Label) (label : Label) : firsts (labels ++ [label]) = keep (firsts labels) label := by
  unfold firsts
  rw [List.foldl_append, List.foldl_cons, List.foldl_nil]

/-- A label that is kept is still kept when one more comes. -/
theorem mem_keep {kept : List Label} {label other : Label} (h : other ∈ kept) : other ∈ keep kept label := by
  unfold keep
  split
  · exact h
  · exact List.mem_append_left _ h

/-- A label that is added can be found. -/
theorem exists_mem_keep (kept : List Label) (label : Label) : ∃ other ∈ keep kept label, other.key = label.key := by
  unfold keep
  split
  · rename_i hany
    obtain ⟨other, hother, hkey⟩ := List.any_eq_true.mp hany
    exact ⟨other, hother, eq_of_beq hkey⟩
  · exact ⟨label, List.mem_append_right _ (List.mem_singleton_self _), rfl⟩

/-- For each of the labels the first one that is found by the same names is kept. -/
theorem exists_mem_firsts {labels : List Label} {label : Label} (h : label ∈ labels) :
    ∃ first ∈ firsts labels, first.key = label.key := by
  induction labels using List.reverseRecOn with
  | nil => cases h
  | append_singleton labels last ih =>
    rw [firsts_concat]
    rcases List.mem_append.mp h with h | h
    · obtain ⟨first, hfirst, hkey⟩ := ih h
      exact ⟨first, mem_keep hfirst, hkey⟩
    · rw [List.mem_singleton.mp h]
      exact exists_mem_keep _ _

/-- The labels that are kept are some of the declared ones, in their order. -/
theorem firsts_sublist (labels : List Label) : (firsts labels).Sublist labels := by
  induction labels using List.reverseRecOn with
  | nil => exact .slnil
  | append_singleton labels last ih =>
    rw [firsts_concat, keep]
    split
    · exact ih.trans (List.sublist_append_left _ _)
    · exact ih.append (List.Sublist.refl _)

/-- No two labels that are kept are found by the same names. -/
theorem nodup_firsts (labels : List Label) : ((firsts labels).map (·.key)).Nodup := by
  induction labels using List.reverseRecOn with
  | nil => exact List.nodup_nil
  | append_singleton labels last ih =>
    rw [firsts_concat, keep]
    split
    · exact ih
    · rename_i hany
      rw [List.map_append, List.map_singleton]
      refine List.nodup_append.mpr ⟨ih, List.pairwise_singleton _ _, ?_⟩
      rintro key hkey last' hlast rfl
      obtain ⟨first, hfirst, hkey⟩ := List.mem_map.mp hkey
      rw [← List.mem_singleton.mp hlast] at hany
      exact hany (List.any_eq_true.mpr ⟨first, hfirst, beq_iff_eq.mpr hkey⟩)

/-- All labels are kept exactly when no two of them are found by the same names. -/
theorem firsts_eq_self_iff {labels : List Label} : firsts labels = labels ↔ (labels.map (·.key)).Nodup := by
  constructor
  · intro h
    rw [← h]
    exact nodup_firsts labels
  · intro h
    induction labels using List.reverseRecOn with
    | nil => rfl
    | append_singleton labels last ih =>
      rw [List.map_append, List.map_singleton] at h
      obtain ⟨hlabels, -, hlast⟩ := List.nodup_append.mp h
      rw [firsts_concat, ih hlabels, keep, if_neg]
      intro hany
      obtain ⟨label, hlabel, hkey⟩ := List.any_eq_true.mp hany
      exact hlast _ (List.mem_map_of_mem hlabel) _ (List.mem_singleton_self _) (eq_of_beq hkey)

end Label

namespace Labels

/-- The labels with one more, unless its name is taken. -/
theorem entries_insert (labels : Labels) (name : String) (target : LineId) :
    (((labels.insert name target).map (·.1)).getD labels).entries.toList =
      Label.keep labels.entries.toList { name, key := Text.lower name, target } := by
  have hfind : (labels.find? name).isSome = labels.entries.toList.any (·.key == Text.lower name) := by
    rw [Array.any_toList]
    exact Array.findIdx?_isSome
  simp only [insert, Label.keep, ← hfind]
  cases labels.find? name with
  | some id => rfl
  | none => exact Array.toList_push

/-- A label is found by any name with its key. -/
theorem isSome_find?_iff {labels : Labels} {name : String} :
    (labels.find? name).isSome ↔ ∃ label ∈ labels.entries, label.key = Text.lower name := by
  unfold find?
  rw [Array.findIdx?_isSome, Array.any_eq_true']
  simp

end Labels

namespace Builder

/-- The labels under construction, with those that await their line bound to it. -/
def boundLabels (b : Builder) : Labels :=
  bindLabels b.labels b.pending b.lines.size

/-- The labels under construction are those of `declared`, but for the names that were taken. -/
structure Declares (b : Builder) (declared : List Label) : Prop where
  entries_eq : b.boundLabels.entries.toList = Label.firsts declared
  /-- A label either awaits its line or can be found. -/
  met : ∀ label ∈ declared,
    (label.name ∈ b.pending ∧ label.target = b.lines.size) ∨ ∃ entry ∈ b.labels.entries, entry.key = label.key
  pairwise : declared.Pairwise Label.MayFollow

/-- A program under construction starts without labels. -/
theorem declares_start (commands : CommandSet) : (start commands).Declares [] :=
  ⟨rfl, nofun, .nil⟩

/-- A line that is pushed declares no label. -/
theorem declares_push {b b' : Builder} {declared : List Label} {action : Action} {args : List RawArg} {lineNo : Nat}
    (h : b.push action args lineNo = .ok b') (hb : b.Declares declared) : b'.Declares declared := by
  obtain ⟨vars, built, note, note', -, -, rfl⟩ := push_eq_ok h
  refine ⟨hb.entries_eq, ?_, hb.pairwise⟩
  -- The labels that awaited their line are bound to this one.
  intro label hlabel
  obtain ⟨first, hfirst, hkey⟩ := Label.exists_mem_firsts hlabel
  rw [← hb.entries_eq] at hfirst
  exact .inr ⟨first, Array.mem_toList_iff.mp hfirst, hkey⟩

/-- A label that is added is declared for the next line, and adds no line. -/
theorem declares_addLabel {b b' : Builder} {declared : List Label} {name : String} {lineNo : Nat}
    (h : b.addLabel name lineNo = .ok b') (hb : b.Declares declared) :
    b'.Declares (declared ++ [Label.named name b.lines.size]) ∧ b'.lines.size = b.lines.size := by
  simp only [addLabel] at h
  split at h
  · cases h
  split at h
  · cases h
  rename_i htaken
  obtain ⟨hfind, hpending⟩ := Bool.or_eq_false_iff.mp (Bool.eq_false_iff.mpr htaken)
  cases h
  refine ⟨⟨?entries, ?met, ?pairwise⟩, rfl⟩
  case entries =>
    rw [Label.firsts_concat, ← hb.entries_eq]
    simp only [boundLabels, bindLabels, List.foldl_append, List.foldl_cons, List.foldl_nil]
    exact Labels.entries_insert _ _ _
  case met =>
    intro label hlabel
    rcases List.mem_append.mp hlabel with hlabel | hlabel
    · exact (hb.met label hlabel).imp_left (And.imp_left (List.mem_append_left _))
    · rw [List.mem_singleton.mp hlabel]
      exact .inl ⟨List.mem_append_right _ (List.mem_singleton_self _), rfl⟩
  case pairwise =>
    refine List.pairwise_append.mpr ⟨hb.pairwise, List.pairwise_singleton _ _, ?_⟩
    intro label hlabel last hlast hkey
    rw [List.mem_singleton.mp hlast] at hkey ⊢
    rcases hb.met label hlabel with ⟨hname, htarget⟩ | ⟨entry, hentry, hfound⟩
    · exact ⟨htarget, Bool.eq_false_iff.mpr (List.any_eq_false.mp hpending label.name hname)⟩
    · have hsome := Labels.isSome_find?_iff.mpr ⟨entry, hentry, hfound.trans hkey⟩
      rw [hfind] at hsome
      cases hsome

/-- A push adds one line. -/
theorem size_push {b b' : Builder} {action : Action} {args : List RawArg} {lineNo : Nat}
    (h : b.push action args lineNo = .ok b') : b'.lines.size = b.lines.size + 1 := by
  obtain ⟨vars, built, note, note', -, -, rfl⟩ := push_eq_ok h
  exact Array.size_push _

/-- A statement adds its lines. -/
theorem size_addStatement {b b' : Builder} {s : Statement} {alone : Bool} (h : b.addStatement s alone = .ok b') :
    b'.lines.size = b.lines.size + s.lineCount := by
  unfold Statement.lineCount
  rcases addStatement_eq_ok h with ⟨hrepeat, args, b₁, h₁, h₂⟩ | ⟨hrepeat, action, args, h₁⟩
  · rw [size_push h₂, size_push h₁, if_pos (beq_iff_eq.mpr hrepeat)]
  · rw [size_push h₁, if_neg (fun heq => hrepeat (eq_of_beq heq))]

/-- Statements add their lines. -/
theorem size_addStatements {b b' : Builder} {statements : List Statement} (h : b.addStatements statements = .ok b') :
    b'.lines.size = b.lines.size + (statements.map Statement.lineCount).sum := by
  induction statements generalizing b with
  | nil =>
    cases h
    rfl
  | cons s rest ih =>
    unfold addStatements at h
    obtain ⟨b₁, h₁, h⟩ := bind_eq_ok_iff.mp h
    rw [ih h, size_addStatement h₁, List.map_cons, List.sum_cons, Nat.add_assoc]

/-- Every entry adds the labels that it declares and its lines. -/
theorem declares_addItems {b b' : Builder} {before : List Label} {items : List Item}
    (h : items.foldlM addItem b = .ok b') (hb : b.Declares before) :
    b'.Declares (before ++ Label.declared b.lines.size items) ∧
      b'.lines.size = b.lines.size + (items.map Item.lineCount).sum := by
  induction items generalizing b before with
  | nil =>
    cases h
    exact ⟨by simpa [Label.declared] using hb, rfl⟩
  | cons item rest ih =>
    rw [List.foldlM_cons] at h
    obtain ⟨b₁, h₁, hrest⟩ := bind_eq_ok_iff.mp h
    cases item with
    | label name lineNo =>
      obtain ⟨hb₁, hsize₁⟩ := declares_addLabel h₁ hb
      obtain ⟨hb', hsize⟩ := ih hrest hb₁
      rw [hsize₁, List.append_assoc] at hb'
      refine ⟨hb', ?_⟩
      rw [hsize, hsize₁, List.map_cons, List.sum_cons, Item.lineCount, Nat.zero_add]
    | statement first sameLine =>
      have hsize₁ : b₁.lines.size = b.lines.size + (Item.statement first sameLine).lineCount := size_addStatements h₁
      have hb₁ := addStatements_induction (motive := (Declares · before)) declares_push h₁ hb
      obtain ⟨hb', hsize⟩ := ih hrest hb₁
      rw [hsize₁] at hb' hsize
      refine ⟨hb', ?_⟩
      rw [hsize, List.map_cons, List.sum_cons, Nat.add_assoc]
    | file name =>
      cases h₁
      obtain ⟨hb', hsize⟩ := ih hrest ⟨hb.entries_eq, hb.met, hb.pairwise⟩
      refine ⟨hb', ?_⟩
      rw [hsize, List.map_cons, List.sum_cons, Item.lineCount, Nat.zero_add]
      rfl

end Builder

namespace Program

/-- A program is loaded with the labels that its entries declare, in their order, each for the line that is added next, or for the
`Exit` at the end. It has all of them exactly when no two names are the same in lower case. Names that are the same are accepted only
for one line, and only if they differ in more than ASCII case: then the first one stands for all. Whether or not a label is lost,
its name finds a label for its line. -/
theorem labels_of_load {commands : CommandSet} {items : List Item} {program : Program}
    (h : load commands items = .ok program) :
    (program.script.lines.size = (items.map Item.lineCount).sum + 1 ∧
      (program.script.line (items.map Item.lineCount).sum).action = .exit) ∧
    (program.script.labels.entries.toList = Label.declared 0 items ↔ ((Label.declared 0 items).map (·.key)).Nodup) ∧
    (Label.declared 0 items).Pairwise Label.MayFollow ∧
    program.script.labels.entries.toList = Label.firsts (Label.declared 0 items) ∧
    (program.script.labels.entries.toList.map (·.key)).Nodup ∧
    ∀ label ∈ Label.declared 0 items, ∃ id, program.script.labels.find? label.name = some id ∧
      program.script.labels.target id = label.target := by
  obtain ⟨built, ended, hbuilt, hended, -, hlabels, -, hsize, hline⟩ := built_of_load h
  obtain ⟨hb, hcount⟩ := Builder.declares_addItems hbuilt (Builder.declares_start commands)
  have hcount : built.lines.size = (items.map Item.lineCount).sum := hcount.trans (Nat.zero_add _)
  have hb : built.Declares (Label.declared 0 items) := hb
  rw [Builder.size_push hended] at hsize
  obtain ⟨vars, args, note, note', -, -, rfl⟩ := Builder.push_eq_ok hended
  have hentries : program.script.labels.entries.toList = Label.firsts (Label.declared 0 items) := by
    rw [hlabels]
    exact hb.entries_eq
  refine ⟨⟨by rw [hsize, hcount], ?exit⟩, ?all, hb.pairwise, hentries, ?nodup, ?found⟩
  case exit =>
    obtain ⟨note, prev, next, related, parent, hline⟩ := hline (items.map Item.lineCount).sum
    rw [hline, ← hcount, Array.getElem?_push_size]
    rfl
  case all => rw [hentries, Label.firsts_eq_self_iff]
  case nodup =>
    rw [hentries]
    exact Label.nodup_firsts _
  case found =>
    intro label hlabel
    obtain ⟨first, hfirst, hkey⟩ := Label.exists_mem_firsts hlabel
    rw [← hentries] at hfirst
    have hsome := Labels.isSome_find?_iff.mpr
      ⟨first, Array.mem_toList_iff.mp hfirst, hkey.trans (Label.key_of_mem_declared hlabel)⟩
    obtain ⟨id, hid⟩ := Option.isSome_iff_exists.mp hsome
    refine ⟨id, hid, ?_⟩
    obtain ⟨hlt, hfound, -⟩ := Array.findIdx?_eq_some_iff_getElem.mp hid
    -- The label that is found is a declared one with the same key, so it is for the same line.
    have hmem : program.script.labels.entries[id] ∈ Label.declared 0 items := by
      refine (Label.firsts_sublist _).subset ?_
      rw [← hentries]
      exact Array.mem_toList_iff.mpr (Array.getElem_mem hlt)
    have htarget := Label.target_eq_of_pairwise hb.pairwise hmem hlabel
      ((eq_of_beq hfound).trans (Label.key_of_mem_declared hlabel).symm)
    simpa [Labels.target, Labels.get?, Array.getElem?_eq_getElem hlt] using htarget

/-- Two labels for one line whose names are the same in lower case but not in ASCII case, before a line to run. -/
def accentedTwice : List Item :=
  [.label "É" 1, .label "é" 2, .statement { keyword := "Echo", args := [.plain "x"], lineNo := 3 } []]

/-- The program with two accented labels is loaded with the first of them only. -/
theorem accentedTwice_loads : (match load Standard.commands accentedTwice with
    | .ok program => program.script.labels.entries == #[{ name := "É", key := "é", target := 0 }]
    | .error _ => false) = true := by
  decide +kernel

/-- The second of the two labels is lost, and its name finds the first. -/
theorem labels_of_accentedTwice :
    ∃ program, load Standard.commands accentedTwice = .ok program ∧
      (Label.declared 0 accentedTwice).map (·.name) = ["É", "é"] ∧
      program.script.labels.entries.toList.map (·.name) = ["É"] ∧
      (program.script.labels.entries.toList.map (·.key)).Nodup ∧
      ∃ id, program.script.labels.find? "é" = some id ∧ program.script.labels.target id = 0 := by
  have hloads := accentedTwice_loads
  cases hload : load Standard.commands accentedTwice with
  | error _ =>
    rw [hload] at hloads
    cases hloads
  | ok program =>
    rw [hload] at hloads
    obtain ⟨-, -, -, -, hnodup, hfound⟩ := labels_of_load hload
    refine ⟨program, rfl, by decide +kernel, ?_, hnodup, ?_⟩
    · rw [eq_of_beq hloads]
      rfl
    · exact hfound { name := "é", key := "é", target := 0 } (by decide +kernel)

/-- A program is accepted although two of its labels have one name in lower case, and has only one of them. -/
theorem accentedTwice_loses_label :
    ∃ program, load Standard.commands accentedTwice = .ok program ∧
      program.script.labels.entries.toList ≠ Label.declared 0 accentedTwice ∧
      ¬ ((Label.declared 0 accentedTwice).map (·.key)).Nodup := by
  have hloads := accentedTwice_loads
  cases hload : load Standard.commands accentedTwice with
  | error _ =>
    rw [hload] at hloads
    cases hloads
  | ok program =>
    rw [hload] at hloads
    refine ⟨program, rfl, ?_, by decide +kernel⟩
    rw [eq_of_beq hloads]
    decide +kernel

end Program

end LineScript
