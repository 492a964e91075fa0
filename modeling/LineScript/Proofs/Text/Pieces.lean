import LineScript.Proofs.Text.Numbers

/-!
# Pieces between separators

A list is cut into pieces at the elements that satisfy a test. `Text.splitBy` cuts as `List.splitOnP` does (`Text.splitBy_eq_splitOnP`):
no piece holds a separator, and with the separators between them the pieces are the list again. Trimming takes separators away at the
ends, and with them nothing but blank pieces.
-/

namespace LineScript

namespace Text

section

variable {α : Type} {p : α → Bool}

/-- The pieces of a list are those that the library splits it into. -/
theorem splitBy_eq_splitOnP (cs : List α) : splitBy p cs = cs.splitOnP p := by
  have honto (done : List (List α)) (piece : List α) :
      splitOnto p done piece cs = done.reverse ++ cs.splitOnPPrepend p piece := by
    induction cs generalizing done piece with
    | nil => rw [splitOnto, List.reverse_cons, List.splitOnPPrepend_nil]
    | cons c cs ih =>
      rw [splitOnto, List.splitOnPPrepend_cons_eq_if]
      split
      · rw [ih, List.reverse_cons, List.append_assoc, List.splitOnPPrepend_nil_right]
        rfl
      · exact ih done (c :: piece)
  rw [splitBy, honto, List.splitOnPPrepend_nil_right]
  rfl

/-- A separator ends a piece. -/
theorem splitBy_append {c : α} (hc : p c = true) (cs rest : List α) :
    splitBy p (cs ++ c :: rest) = splitBy p cs ++ splitBy p rest := by
  rw [splitBy_eq_splitOnP, splitBy_eq_splitOnP, splitBy_eq_splitOnP, List.splitOnP_append_cons cs rest hc]

theorem splitBy_ne_nil (cs : List α) : splitBy p cs ≠ [] := by
  rw [splitBy_eq_splitOnP]
  exact List.splitOnP_ne_nil p cs

theorem splitBy_of_forall {cs : List α} (h : ∀ c ∈ cs, p c = false) : splitBy p cs = [cs] := by
  rw [splitBy_eq_splitOnP, List.splitOnP_eq_singleton h]

/-- No piece holds a separator. -/
theorem not_of_mem_splitBy {cs piece : List α} (h : piece ∈ splitBy p cs) : ∀ c ∈ piece, p c = false := by
  rw [splitBy_eq_splitOnP] at h
  induction cs generalizing piece with
  | nil =>
    obtain rfl : piece = [] := List.mem_singleton.mp h
    exact nofun
  | cons d cs ih =>
    rw [List.splitOnP_cons_eq_if_modifyHead] at h
    split at h
    · rcases List.mem_cons.mp h with rfl | h
      · exact nofun
      · exact ih h
    · rename_i hd
      cases hpieces : cs.splitOnP p with
      | nil => exact absurd hpieces (List.splitOnP_ne_nil p cs)
      | cons first pieces =>
        rw [hpieces] at h ih
        rcases List.mem_cons.mp h with rfl | h
        · intro c hc
          rcases List.mem_cons.mp hc with rfl | hc
          · exact Bool.eq_false_iff.mpr hd
          · exact ih List.mem_cons_self c hc
        · exact ih (List.mem_cons_of_mem _ h)

/-- With the separator between them, the pieces are the list again. -/
theorem intercalate_splitBy [BEq α] [LawfulBEq α] (x : α) (cs : List α) : [x].intercalate (splitBy (· == x) cs) = cs := by
  rw [splitBy_eq_splitOnP, ← List.splitOn_eq_splitOnP]
  exact List.intercalate_splitOn x

/-- There is one piece more than there are separators. -/
theorem length_splitOnP (cs : List α) : (cs.splitOnP p).length = cs.countP p + 1 := by
  induction cs with
  | nil => rfl
  | cons c cs ih =>
    rw [List.splitOnP_cons_eq_if_modifyHead, List.countP_cons]
    split
    · rw [List.length_cons, ih]
    · rw [List.length_modifyHead, ih, Nat.add_zero]

/-- Elements that are mapped are cut where the mapped ones are. -/
theorem splitBy_map {β : Type} (f : β → α) (cs : List β) :
    splitBy p (cs.map f) = (splitBy (fun x => p (f x)) cs).map (·.map f) := by
  have honto (done : List (List β)) (piece : List β) : splitOnto p (done.map (·.map f)) (piece.map f) (cs.map f) =
      (splitOnto (fun x => p (f x)) done piece cs).map (·.map f) := by
    induction cs generalizing done piece with
    | nil => simp only [List.map_nil, splitOnto, List.map_reverse, List.map_cons]
    | cons c cs ih =>
      simp only [List.map_cons, splitOnto]
      split
      · rw [← ih, List.map_cons, List.map_reverse]
        rfl
      · rw [← ih, List.map_cons]
  exact honto [] []

/-- A list has a first separator, or none. -/
theorem none_or_first (p : α → Bool) (cs : List α) :
    (∀ x ∈ cs, p x = false) ∨ ∃ before x rest, cs = before ++ x :: rest ∧ (∀ y ∈ before, p y = false) ∧ p x = true := by
  cases hfind : cs.find? p with
  | none =>
    left
    simpa using hfind
  | some x =>
    obtain ⟨hx, before, rest, hcs, hbefore⟩ := List.find?_eq_some_iff_append.mp hfind
    exact .inr ⟨before, x, rest, hcs, fun y hy => by simpa using hbefore y hy, hx⟩

end

/-- Trimming takes separators away, and nothing else. -/
theorem exists_trimList (p : Char → Bool) (cs : List Char) :
    ∃ before after, cs = before ++ trimList p cs ++ after ∧ (∀ c ∈ before, p c = true) ∧ ∀ c ∈ after, p c = true := by
  have htaken (cs : List Char) : ∀ c ∈ cs.takeWhile p, p c = true := List.all_eq_true.mp List.all_takeWhile
  refine ⟨cs.takeWhile p, ((cs.dropWhile p).reverse.takeWhile p).reverse, ?_, htaken cs, ?_⟩
  · rw [trimList, List.append_assoc, ← List.reverse_append, List.takeWhile_append_dropWhile, List.reverse_reverse,
      List.takeWhile_append_dropWhile]
  · intro c hc
    exact htaken _ c (List.mem_reverse.mp hc)

/-- Separators at the ends add blank pieces only. -/
theorem filter_splitBy_trimList (p : Char → Bool) (cs : List Char) :
    (splitBy p (trimList p cs)).filter (!·.isEmpty) = (splitBy p cs).filter (!·.isEmpty) := by
  have hbefore (before rest : List Char) (h : ∀ c ∈ before, p c = true) :
      (splitBy p (before ++ rest)).filter (!·.isEmpty) = (splitBy p rest).filter (!·.isEmpty) := by
    induction before with
    | nil => rfl
    | cons c before ih =>
      have hsplit := splitBy_append (h c List.mem_cons_self) [] (before ++ rest)
      rw [List.nil_append] at hsplit
      rw [List.cons_append, hsplit, List.filter_append, ih fun c hc => h c (List.mem_cons_of_mem _ hc)]
      rfl
  have hafter (cs after : List Char) (h : ∀ c ∈ after, p c = true) :
      (splitBy p (cs ++ after)).filter (!·.isEmpty) = (splitBy p cs).filter (!·.isEmpty) := by
    cases after with
    | nil => rw [List.append_nil]
    | cons c after =>
      have hrest := hbefore after [] fun c hc => h c (List.mem_cons_of_mem _ hc)
      rw [List.append_nil] at hrest
      rw [splitBy_append (h c List.mem_cons_self), List.filter_append, hrest]
      exact List.append_nil _
  obtain ⟨before, after, hcs, hb, ha⟩ := exists_trimList p cs
  conv => rhs; rw [hcs]
  rw [hafter _ after ha, hbefore before _ hb]

end Text

end LineScript
