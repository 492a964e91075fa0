import LineScript.Loop.Fields
import LineScript.Proofs.Expr.Term
import LineScript.Proofs.Text.Pieces
import Mathlib.Data.List.Forall2

/-!
# Loops over fields

A cursor hands out its fields one after the other and then none any more (`FieldCursor.Drains`). With delimiters, the fields are the
pieces between them, stripped at both ends of the characters to omit (`FieldCursor.drains_delimited`). A line of comma-separated
values gives back the values it was written for, whether they stand in quotes or not (`FieldCursor.drains_csvLine`).
-/

namespace LineScript

open Text

/-! ## Pieces and separators -/

/-- Pieces with a separator after each but the last one. -/
def interleaved {α : Type} (pieces : List (List α)) (separators : List α) : List α :=
  (List.zipWith (· ++ ·) pieces (separators.map ([·]) ++ [[]])).flatten

/-- What is left of a piece without some characters at its ends: they are taken off both ends as long as there are any, and nothing
else is. -/
structure Stripped (omitted piece field : List Char) : Prop where
  split : ∃ before after, piece = before ++ field ++ after ∧ (∀ c ∈ before, c ∈ omitted) ∧ ∀ c ∈ after, c ∈ omitted
  head : ∀ c ∈ field.head?, c ∉ omitted
  last : ∀ c ∈ field.getLast?, c ∉ omitted

/-- A piece that is trimmed is stripped. -/
theorem stripped_trimList (omitted piece : List Char) : Stripped omitted piece (trimList omitted.contains piece) := by
  obtain ⟨before, after, hpiece, hbefore, hafter⟩ := exists_trimList omitted.contains piece
  have hkept {c : Char} (hc : omitted.contains c = false) : c ∉ omitted := by simpa using hc
  exact {
    split := ⟨before, after, hpiece, fun c hc => List.contains_iff_mem.mp (hbefore c hc),
      fun c hc => List.contains_iff_mem.mp (hafter c hc)⟩
    head := fun c hc => hkept (not_head?_trimList hc)
    last := fun c hc => hkept (not_getLast?_trimList hc) }

namespace FieldCursor

/-- The fields that a cursor hands out, until there are none and will be none. -/
inductive Drains : FieldCursor → List String → Prop
  | done {c : FieldCursor} (h : c.next = (none, c)) : Drains c []
  | field {c c' : FieldCursor} {field : String} {fields : List String} (h : c.next = (some field, c'))
      (hrest : Drains c' fields) : Drains c (field :: fields)

theorem next_of_done {c : FieldCursor} (h : c.done = true) : c.next = (none, c) :=
  if_pos h

theorem drains_of_done {c : FieldCursor} (h : c.done = true) : Drains c [] :=
  .done (next_of_done h)

/-! ## One field -/

variable {c c' : FieldCursor} {p : Char → Bool}

/-- Without a character to stop at, all that is left is the last field. -/
theorem upTo_last (h : ∀ x ∈ c.rest, p x = false) : c.upTo p = (c.trimmed c.rest, { c with rest := [], done := true }) := by
  have h : ∀ x ∈ c.rest, (!p x) = true := fun x hx => by rw [h x hx]; rfl
  have htake : c.rest.takeWhile (!p ·) = c.rest := by simpa using @List.takeWhile_append_of_pos _ _ c.rest [] h
  have hdrop : c.rest.dropWhile (!p ·) = [] := by simpa using @List.dropWhile_append_of_pos _ _ c.rest [] h
  rw [upTo, htake, hdrop]

/-- A field ends at the first character to stop at, and what follows that character is left. -/
theorem upTo_first {before rest : List Char} {x : Char} (hrest : c.rest = before ++ x :: rest)
    (hbefore : ∀ y ∈ before, p y = false) (hx : p x = true) : c.upTo p = (c.trimmed before, { c with rest }) := by
  have hbefore : ∀ y ∈ before, (!p y) = true := fun y hy => by rw [hbefore y hy]; rfl
  have htake : c.rest.takeWhile (!p ·) = before := by
    rw [hrest, List.takeWhile_append_of_pos hbefore, List.takeWhile_cons, hx]
    exact List.append_nil _
  have hdrop : c.rest.dropWhile (!p ·) = x :: rest := by
    rw [hrest, List.dropWhile_append_of_pos hbefore, List.dropWhile_cons, hx]
    rfl
  rw [upTo, htake, hdrop]

/-- Without characters to omit, a field stays as it is. -/
theorem trimmed_of_omitted_nil (h : c.omitted = []) (field : List Char) : c.trimmed field = .ofList field := by
  rw [trimmed, h, trimList_of_forall fun _ _ => List.contains_nil]

/-! ## Every field takes characters -/

/-- What follows a closing quote is no longer than what was left. -/
theorem length_closeQuote_le (taken cs : List Char) : (closeQuote taken cs).2.length ≤ cs.length := by
  fun_induction closeQuote taken cs with
  | case1 => exact Nat.le_refl _
  | case2 taken rest ih => exact Nat.le_trans ih (by simp only [List.length_cons]; omega)
  | case3 taken rest _ => exact Nat.le_succ _
  | case4 taken c rest _ _ ih => exact Nat.le_succ_of_le ih

/-- A cursor after the one it was: what is left became shorter, or the last field has been read. -/
def Shrinks (c c' : FieldCursor) : Prop :=
  c'.rest.length < c.rest.length ∨ c'.done = true

/-- Reading up to a character leaves less to read, or reads the last field. -/
theorem shrinks_upTo (c : FieldCursor) (p : Char → Bool) : Shrinks c (c.upTo p).2 := by
  have hle := (List.dropWhile_suffix (!p ·) (l := c.rest)).length_le
  rw [upTo]
  split
  · exact .inr rfl
  · rename_i x rest hdrop
    rw [hdrop] at hle
    exact .inl hle

/-- Reading a field in quotes leaves less to read, or reads the last field. -/
theorem shrinks_nextQuoted (c : FieldCursor) : Shrinks c c.nextQuoted.2 := by
  rw [nextQuoted]
  split
  · rename_i rest hrest
    have hclose := length_closeQuote_le [] rest
    have hle := (List.dropWhile_suffix (· != ',') (l := (closeQuote [] rest).2)).length_le
    dsimp only
    split
    · exact .inr rfl
    · rename_i x more hdrop
      rw [hdrop, List.length_cons] at hle
      refine .inl ?_
      rw [hrest, List.length_cons]
      exact Nat.lt_succ_of_le (Nat.le_trans (Nat.le_of_succ_le hle) hclose)
  · exact shrinks_upTo c _

/-- After every field there is less to read, or it was the last one. -/
theorem shrinks_next {field : String} (h : c.next = (some field, c')) : Shrinks c c' := by
  unfold next at h
  split at h
  · cases h
  split at h
  · cases h
    exact shrinks_nextQuoted c
  split at h
  · unfold nextChar at h
    have hle := (List.dropWhile_suffix c.omitted.contains (l := c.rest)).length_le
    split at h
    · cases h
    · rename_i x rest hdrop
      cases h
      rw [hdrop] at hle
      exact .inl hle
  · cases h
    exact shrinks_upTo c _

/-- There is at most one field more than characters. -/
theorem Drains.length_le {fields : List String} (h : Drains c fields) : fields.length ≤ c.rest.length + 1 := by
  induction h with
  | done => exact Nat.zero_le _
  | @field c c' field fields hnext hrest ih =>
    rcases shrinks_next hnext with hlt | hdone
    · exact Nat.succ_le_succ (Nat.le_trans ih hlt)
    · cases hrest with
      | done _ => exact Nat.succ_le_succ (Nat.zero_le _)
      | field hnext' _ => cases (next_of_done hdone).symm.trans hnext'

/-- Asked often enough, a cursor gives all its fields, and has none left then. -/
theorem Drains.drain_eq {fields : List String} (h : Drains c fields) {fuel : Nat} (hfuel : fields.length < fuel)
    (before : List String) : ∃ last, c.drain fuel before = (before.reverse ++ fields, last) ∧ last.next = (none, last) := by
  obtain ⟨fuel, rfl⟩ : ∃ f, fuel = f + 1 := ⟨fuel - 1, by omega⟩
  induction h generalizing fuel before with
  | @done c hnext => exact ⟨c, by rw [drain, hnext, List.append_nil], hnext⟩
  | @field c c' field fields hnext _ ih =>
    rw [List.length_cons] at hfuel
    obtain ⟨fuel, rfl⟩ : ∃ f, fuel = f + 1 := ⟨fuel - 1, by omega⟩
    obtain ⟨last, hdrain, hlast⟩ := ih (field :: before) fuel (Nat.lt_of_succ_lt_succ hfuel)
    rw [List.reverse_cons, List.append_assoc] at hdrain
    exact ⟨last, by rw [drain, hnext]; exact hdrain, hlast⟩

/-- The list of all fields is what a cursor hands out. -/
theorem Drains.toList_eq {fields : List String} (h : Drains c fields) :
    ∃ last, c.toList = (fields, last) ∧ last.next = (none, last) :=
  h.drain_eq (Nat.lt_succ_of_le h.length_le) []

/-! ## Delimiters -/

/-- With delimiters, the next field is read up to one of them. -/
theorem next_delimited (hdone : c.done = false) (hquoted : c.quoted = false) (hdelimiters : c.delimiters ≠ []) :
    c.next = (some (c.upTo c.delimiters.contains).1, (c.upTo c.delimiters.contains).2) := by
  have hsome : c.delimiters.isEmpty = false := by simpa using hdelimiters
  simp only [next, hdone, hquoted, hsome, Bool.false_eq_true, if_false]

/-- The fields of a text with delimiters are the pieces between them. -/
theorem drains_splitOnP (hdone : c.done = false) (hquoted : c.quoted = false) (hdelimiters : c.delimiters ≠ []) :
    Drains c ((c.rest.splitOnP c.delimiters.contains).map c.trimmed) := by
  generalize hlength : c.rest.length = n
  induction n using Nat.strongRecOn generalizing c with
  | ind n ih =>
    have hnext := next_delimited hdone hquoted hdelimiters
    rcases none_or_first c.delimiters.contains c.rest with hnone | ⟨before, x, rest, hrest, hbefore, hx⟩
    · rw [upTo_last hnone] at hnext
      rw [List.splitOnP_eq_singleton hnone]
      exact .field hnext (drains_of_done rfl)
    · rw [upTo_first hrest hbefore hx] at hnext
      rw [hrest, List.splitOnP_append_cons_of_forall_mem hbefore x hx, List.map_cons]
      have hlt : rest.length < n := by
        rw [← hlength, hrest, List.length_append, List.length_cons]
        omega
      exact .field hnext (ih _ hlt (c := { c with rest }) hdone hquoted hdelimiters rfl)

/-- Going through a text with delimiters ends. A blank text has no fields; any other has one more than there are delimiters in it, which
are the pieces between the delimiters, stripped at both ends of the characters to omit. Without such characters, the fields with the
delimiters between them are the text. -/
theorem drains_delimited {delimiters : String} (hsome : delimiters ≠ "") (hother : sameAscii delimiters "csv" = false)
    (input omitted : String) :
    ∃ fields, Drains (start input delimiters omitted) fields ∧ (input = "" → fields = []) ∧
      (input ≠ "" →
        fields.length = input.toList.countP delimiters.toList.contains + 1 ∧
        List.Forall₂ (Stripped omitted.toList) (input.toList.splitOnP delimiters.toList.contains)
          (fields.map String.toList) ∧
        (omitted = "" →
          interleaved (fields.map String.toList) (input.toList.filter delimiters.toList.contains) = input.toList)) := by
  by_cases hblank : input = ""
  · subst hblank
    exact ⟨[], drains_of_done rfl, fun _ => rfl, fun h => absurd rfl h⟩
  have hstart : start input delimiters omitted =
      { rest := input.toList, delimiters := delimiters.toList, omitted := omitted.toList, quoted := false, done := false } := by
    simp [start, hother, hblank]
  have hdelimiters : delimiters.toList ≠ [] := by simpa using hsome
  have hdrains := drains_splitOnP (c := start input delimiters omitted) (by rw [hstart]) (by rw [hstart]) (by rwa [hstart])
  rw [hstart] at hdrains ⊢
  refine ⟨_, hdrains, fun h => absurd h hblank, fun _ => ⟨?_, ?_, fun homitted => ?_⟩⟩
  · rw [List.length_map, length_splitOnP]
  · rw [List.map_map, List.forall₂_map_right_iff, List.forall₂_same]
    intro piece _
    simpa [trimmed] using stripped_trimList omitted.toList piece
  · have hbare : (String.toList ∘ trimmed
        { rest := input.toList, delimiters := delimiters.toList, omitted := omitted.toList, quoted := false, done := false }) =
          id := by
      funext field
      rw [Function.comp_apply, trimmed_of_omitted_nil (by rw [homitted]; rfl), String.toList_ofList]
      rfl
    rw [List.map_map, hbare, List.map_id]
    exact List.splitOnP_spec _

/-- A text with two kinds of delimiters and blanks around its fields is read as five fields. -/
theorem drains_delimited_mixed :
    ",;" ≠ "" ∧ sameAscii ",;" "csv" = false ∧ ∃ fields, Drains (start "a, b ;  ,c c," ",;" " ") fields ∧ fields.length = 5 ∧
      List.Forall₂ (Stripped [' ']) [['a'], [' ', 'b', ' '], [' ', ' '], ['c', ' ', 'c'], []] (fields.map String.toList) := by
  have hsome : ",;" ≠ "" := by decide
  have hother : sameAscii ",;" "csv" = false := by decide
  obtain ⟨fields, hdrains, -, hfields⟩ := drains_delimited hsome hother "a, b ;  ,c c," " "
  obtain ⟨hlength, hstripped, -⟩ := hfields (by decide)
  exact ⟨hsome, hother, fields, hdrains, hlength, hstripped⟩

/-! ## Comma-separated values -/

/-- A value in a line of comma-separated values. A value with a comma, or with a quote at its start, stands in quotes; any other may. -/
structure WrittenField where
  /-- The value. -/
  text : String
  /-- Whether it stands in quotes. -/
  quoted : Bool
  bare : quoted = false → ',' ∉ text.toList ∧ text.toList.head? ≠ some '"'

/-- The characters written for a value. In quotes, its own quotes are doubled. -/
def WrittenField.chars (f : WrittenField) : List Char :=
  if f.quoted then Expr.quote f.text.toList else f.text.toList

/-- A line of values with commas between them. -/
def csvLine (fields : List WrittenField) : String :=
  .ofList ([','].intercalate (fields.map (·.chars)))

/-- The quote that closes a value is found, since quotes in the value are doubled. -/
theorem closeQuote_doubled (cs taken : List Char) {rest : List Char} (hrest : rest.head? ≠ some '"') :
    closeQuote taken (Expr.doubled cs ++ '"' :: rest) = (cs.reverse ++ taken, rest) := by
  induction cs generalizing taken with
  | nil =>
    cases rest with
    | nil => rfl
    | cons c rest =>
      have hc : c ≠ '"' := by simpa using hrest
      simp [Expr.doubled, closeQuote, hc]
  | cons c cs ih =>
    by_cases hc : c = '"'
    · simp [Expr.doubled, hc, closeQuote, ih]
    · simp [Expr.doubled, hc, closeQuote, ih]

/-- A value in quotes that ends the line. -/
theorem nextQuoted_last {cs : List Char} (hrest : c.rest = Expr.quote cs) :
    c.nextQuoted = (.ofList cs, { c with rest := [], done := true }) := by
  have hclose := @closeQuote_doubled cs [] [] (by simp)
  simp [nextQuoted, hrest, Expr.quote, hclose]

/-- A value in quotes with a comma after it. -/
theorem nextQuoted_comma {cs rest : List Char} (hrest : c.rest = Expr.quote cs ++ ',' :: rest) :
    c.nextQuoted = (.ofList cs, { c with rest }) := by
  have hclose := @closeQuote_doubled cs [] (',' :: rest) (by simp)
  simp [nextQuoted, hrest, Expr.quote, hclose]

/-- A value that does not start with a quote ends at the next comma. -/
theorem nextQuoted_bare (h : c.rest.head? ≠ some '"') : c.nextQuoted = c.upTo (· == ',') := by
  rw [nextQuoted]
  split
  · rename_i rest hrest
    rw [hrest] at h
    exact absurd rfl h
  · rfl

namespace WrittenField

variable {f : WrittenField}

/-- A value without quotes holds no comma. -/
theorem bare_eq_false (h : f.quoted = false) : ∀ x ∈ f.text.toList, (x == ',') = false := by
  intro x hx
  exact beq_false_of_ne fun hcomma => (f.bare h).1 (hcomma ▸ hx)

/-- The value that ends a line is read back. -/
theorem nextQuoted_last (hrest : c.rest = f.chars) (homitted : c.omitted = [] ∨ f.quoted = true) :
    c.nextQuoted = (f.text, { c with rest := [], done := true }) := by
  cases hquoted : f.quoted with
  | true =>
    rw [chars, if_pos hquoted] at hrest
    rw [FieldCursor.nextQuoted_last hrest, String.ofList_toList]
  | false =>
    have hnil : c.omitted = [] := homitted.resolve_right (Bool.eq_false_iff.mp hquoted)
    rw [chars, if_neg (Bool.eq_false_iff.mp hquoted)] at hrest
    have hbare := bare_eq_false hquoted
    rw [← hrest] at hbare
    rw [nextQuoted_bare (hrest ▸ (f.bare hquoted).2), upTo_last hbare, trimmed_of_omitted_nil hnil, hrest,
      String.ofList_toList]

/-- A value with a comma after it is read back, and the rest is left. -/
theorem nextQuoted_comma {rest : List Char} (hrest : c.rest = f.chars ++ ',' :: rest)
    (homitted : c.omitted = [] ∨ f.quoted = true) : c.nextQuoted = (f.text, { c with rest }) := by
  cases hquoted : f.quoted with
  | true =>
    rw [chars, if_pos hquoted] at hrest
    rw [FieldCursor.nextQuoted_comma hrest, String.ofList_toList]
  | false =>
    have hnil : c.omitted = [] := homitted.resolve_right (Bool.eq_false_iff.mp hquoted)
    rw [chars, if_neg (Bool.eq_false_iff.mp hquoted)] at hrest
    have hhead : c.rest.head? ≠ some '"' := by
      rw [hrest, List.head?_append]
      cases hfirst : f.text.toList.head? with
      | none => simp
      | some x =>
        have hx := (f.bare hquoted).2
        rw [hfirst] at hx
        exact hx
    rw [nextQuoted_bare hhead, upTo_first hrest (bare_eq_false hquoted) rfl, trimmed_of_omitted_nil hnil,
      String.ofList_toList]

end WrittenField

theorem next_quoted (hdone : c.done = false) (hquoted : c.quoted = true) :
    c.next = (some c.nextQuoted.1, c.nextQuoted.2) := by
  simp only [next, hdone, hquoted, Bool.false_eq_true, if_false, if_true]

/-- A line of values is read back, one value after the other. -/
theorem drains_chars {fields : List WrittenField} (hsome : fields ≠ []) (hdone : c.done = false) (hquoted : c.quoted = true)
    (homitted : c.omitted = [] ∨ ∀ f ∈ fields, f.quoted = true) (hrest : c.rest = [','].intercalate (fields.map (·.chars))) :
    Drains c (fields.map (·.text)) := by
  induction fields generalizing c with
  | nil => exact absurd rfl hsome
  | cons f fields ih =>
    have hfirst : c.omitted = [] ∨ f.quoted = true := homitted.imp_right fun h => h f List.mem_cons_self
    have hnext := next_quoted hdone hquoted
    cases fields with
    | nil =>
      rw [List.map_singleton, List.intercalate_singleton] at hrest
      rw [WrittenField.nextQuoted_last hrest hfirst] at hnext
      exact .field hnext (drains_of_done rfl)
    | cons g fields =>
      rw [List.map_cons, List.map_cons, List.intercalate_cons_cons, List.append_assoc] at hrest
      rw [WrittenField.nextQuoted_comma hrest hfirst] at hnext
      refine .field hnext (ih (List.cons_ne_nil _ _) hdone hquoted ?_ rfl)
      exact homitted.imp_right fun h f hf => h f (List.mem_cons_of_mem _ hf)

/-- A line of values is blank only if it has a single value, which is blank and stands in no quotes. -/
theorem csvLine_ne_empty {fields : List WrittenField} (hsome : fields ≠ [])
    (hblank : ∀ f, fields = [f] → f.text = "" → f.quoted = true) : csvLine fields ≠ "" := by
  intro hline
  have hnil : [','].intercalate (fields.map (·.chars)) = [] := by simpa [csvLine] using hline
  rcases fields with _ | ⟨f, _ | ⟨g, fields⟩⟩
  · exact hsome rfl
  · rw [List.map_singleton, List.intercalate_singleton, WrittenField.chars] at hnil
    split at hnil
    · cases hnil
    · exact absurd (hblank f rfl (by simpa using hnil)) ‹_›
  · rw [List.map_cons, List.map_cons, List.intercalate_cons_cons] at hnil
    simp at hnil

/-- Reading a line of comma-separated values gives the values it was written for, and then none any more. Characters to omit do no
harm where all values stand in quotes. -/
theorem drains_csvLine {delimiters : String} (hcsv : sameAscii delimiters "csv" = true) {fields : List WrittenField}
    (hsome : fields ≠ []) (hblank : ∀ f, fields = [f] → f.text = "" → f.quoted = true) {omitted : String}
    (homitted : omitted = "" ∨ ∀ f ∈ fields, f.quoted = true) :
    Drains (start (csvLine fields) delimiters omitted) (fields.map (·.text)) := by
  have hline : (csvLine fields).isEmpty = false := by simpa using csvLine_ne_empty hsome hblank
  refine drains_chars hsome hline hcsv (homitted.imp_left fun h => ?_) ?_
  · rw [h]
    rfl
  · exact String.toList_ofList

/-- Values with a comma, a quote and nothing in them, some of them in quotes, and one without quotes that holds a quote. -/
def mixedFields : List WrittenField := [
  { text := "x", quoted := false, bare := by decide },
  { text := "a,b", quoted := true, bare := nofun },
  { text := "", quoted := true, bare := nofun },
  { text := "say \"hi\"", quoted := true, bare := nofun },
  { text := "5\"", quoted := false, bare := by decide },
  { text := "", quoted := false, bare := by decide }]

/-- The line of `mixedFields` is read back as its values. -/
theorem drains_mixedFields :
    csvLine mixedFields = "x,\"a,b\",\"\",\"say \"\"hi\"\"\",5\"," ∧
      Drains (start (csvLine mixedFields) "Csv" "") ["x", "a,b", "", "say \"hi\"", "5\"", ""] := by
  have hcsv : sameAscii "Csv" "csv" = true := by decide
  have hsome : mixedFields ≠ [] := List.cons_ne_nil _ _
  have hblank : ∀ f, mixedFields = [f] → f.text = "" → f.quoted = true := fun f hf => by
    have hlength := congrArg List.length hf
    cases hlength
  exact ⟨by decide, drains_csvLine hcsv hsome hblank (.inl rfl)⟩

end FieldCursor

end LineScript
