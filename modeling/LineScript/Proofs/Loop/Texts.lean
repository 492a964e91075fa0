import LineScript.Proofs.Loop.Lines
import LineScript.Proofs.Text.Utf8

/-!
# Texts of lines

A read loop drops nothing of a file but the ends of its lines (`LineCursor.Strewn`), and reads each piece of a line by itself. A line
that is too long is cut by bytes. Where every piece starts between characters the texts are the file's text, but for the ends of
lines; a character that is cut through is replaced twice, so that they are not (`LineCursor.text_kept_iff`).
-/

namespace LineScript

/-- A text without its line feeds and carriage returns. -/
def Text.unbroken (s : String) : String :=
  .ofList (s.toList.filter Utf8.isInLine)

namespace LineCursor

/-- A piece starts inside a character: its first byte goes on with one. -/
def StartsInside (piece : List UInt8) : Prop :=
  ∃ b ∈ piece.head?, Utf8.Continues b

instance (piece : List UInt8) : Decidable (StartsInside piece) :=
  inferInstanceAs (Decidable (∃ b ∈ piece.head?, Utf8.Continues b))

/-- Bytes are some pieces with nothing after each but line feeds and carriage returns. -/
inductive Strewn : List UInt8 → List (List UInt8) → Prop
  | nil : Strewn [] []
  | cons {piece ending rest : List UInt8} {pieces : List (List UInt8)} (hending : ∀ b ∈ ending, b = 10 ∨ b = 13)
    (h : Strewn rest pieces) : Strewn (piece ++ (ending ++ rest)) (piece :: pieces)

/-! ## Nothing is dropped but the ends of lines -/

/-- What is taken off the end of a piece. -/
theorem dropLineEnd_append (bytes : List UInt8) :
    ∃ ending, bytes = dropLineEnd bytes ++ ending ∧ ∀ b ∈ ending, b = 10 ∨ b = 13 := by
  refine ⟨(bytes.reverse.takeWhile fun b => b == 10 || b == 13).reverse, ?_, fun b hb => ?_⟩
  · rw [dropLineEnd, ← List.reverse_append, List.takeWhile_append_dropWhile, List.reverse_reverse]
  · simpa using List.all_eq_true.mp List.all_takeWhile b (List.mem_reverse.mp hb)

/-- As long as bytes may be taken, one is. -/
theorem lt_lineEnd (bytes : ByteArray) {left : Nat} (h : 0 < left) (i : Nat) : i < lineEnd bytes left i := by
  obtain ⟨left, rfl⟩ := Nat.exists_eq_add_one_of_ne_zero (Nat.ne_of_gt h)
  have hrest := (lineEnd_le bytes left (i + 1)).1
  rw [lineEnd]
  split <;> omega

end LineCursor

namespace Reading

open LineCursor

variable {bytes : ByteArray} {r : Reading bytes.size} {taken filled : Nat}

theorem drop_of_getElem? {i : Nat} {b : UInt8} (h : bytes[i]? = some b) :
    bytes.data.toList.drop i = b :: bytes.data.toList.drop (i + 1) := by
  rw [Bytes.getElem?_eq, List.getElem?_eq_some_iff] at h
  obtain ⟨hlt, rfl⟩ := h
  exact List.drop_eq_getElem_cons hlt

/-- A byte before some end is a byte of the array. -/
theorem getElem?_of_byteBefore {stop i : Nat} {b : UInt8} (h : byteBefore bytes stop i = some b) : bytes[i]? = some b := by
  unfold byteBefore at h
  split at h
  · exact h
  · cases h

/-- What is passed over after a full piece is a line feed, a carriage return, or both. -/
theorem passLineEnd_append (taken filled : Nat) :
    ∃ ending, bytes.data.toList.drop taken = ending ++ bytes.data.toList.drop (r.passLineEnd taken filled).1 ∧
      ∀ b ∈ ending, b = 10 ∨ b = 13 := by
  have hboth {filled : Nat} (hreturn : byteBefore bytes filled taken = some 13) (hfeed : bytes[taken + 1]? = some 10) :
      bytes.data.toList.drop taken = [13, 10] ++ bytes.data.toList.drop (taken + 2) := by
    rw [drop_of_getElem? (getElem?_of_byteBefore hreturn), drop_of_getElem? hfeed]
    rfl
  rw [passLineEnd]
  dsimp only
  split
  · rename_i hfeed
    exact ⟨[10], drop_of_getElem? (getElem?_of_byteBefore hfeed), by simp⟩
  split
  · rename_i hreturn
    split
    · split
      · rename_i hfeed
        exact ⟨[13, 10], hboth hreturn (eq_of_beq hfeed), by simp⟩
      · exact ⟨[], rfl, List.forall_mem_nil _⟩
    · split
      · rename_i hfeed
        exact ⟨[13, 10], hboth hreturn (getElem?_of_byteBefore (eq_of_beq hfeed)), by simp⟩
      · exact ⟨[13], drop_of_getElem? (getElem?_of_byteBefore hreturn), by simp⟩
  · exact ⟨[], rfl, List.forall_mem_nil _⟩

/-- Passing over a line end does not go back. -/
theorem le_passLineEnd (taken filled : Nat) : taken ≤ (r.passLineEnd taken filled).1 := by
  rw [passLineEnd]
  dsimp only
  split
  · exact Nat.le_succ taken
  split
  · split <;> split <;> first | exact Nat.le_refl taken | exact Nat.le_add_right taken _
  · exact Nat.le_refl taken

/-- As long as the file goes on there is a piece. What follows it up to the next one ends its line. -/
theorem piece?_append (h : InWindow bytes.size taken filled) (hmore : taken < bytes.size) :
    ∃ piece place ending, r.piece? taken filled = some (piece, place) ∧ taken < place.1 ∧
      bytes.data.toList.drop taken = piece ++ (ending ++ bytes.data.toList.drop place.1) ∧ ∀ b ∈ ending, b = 10 ∨ b = 13 := by
  have hpos : 0 < maxLine := by decide
  have hlt : taken < lineEnd bytes (min maxLine (bytes.size - taken)) taken := lt_lineEnd bytes (by omega) taken
  obtain ⟨filled', hwindow, hpiece⟩ := piece?_spec (r := r) h rfl hlt
  generalize lineEnd bytes (min maxLine (bytes.size - taken)) taken = stop at *
  obtain ⟨front, hfront, hfrontEnds⟩ := dropLineEnd_append ((bytes.data.toList.drop taken).take (stop - taken))
  have htaken : bytes.data.toList.drop taken =
      (bytes.data.toList.drop taken).take (stop - taken) ++ bytes.data.toList.drop stop := by
    have hsplit := List.take_append_drop (stop - taken) (bytes.data.toList.drop taken)
    rw [List.drop_drop, Nat.add_sub_cancel' (Nat.le_of_lt hlt)] at hsplit
    exact hsplit.symm
  -- after a full piece a line end may be passed over
  obtain ⟨place, back, hplace, hle, hback, hbackEnds⟩ : ∃ place back,
      (if stop - taken == maxLine && bytes[stop - 1]? != some 10 then r.passLineEnd stop filled' else (stop, filled')) = place ∧
      stop ≤ place.1 ∧ bytes.data.toList.drop stop = back ++ bytes.data.toList.drop place.1 ∧ ∀ b ∈ back, b = 10 ∨ b = 13 := by
    split
    · obtain ⟨back, hback, hends⟩ := passLineEnd_append (r := r) stop filled'
      exact ⟨_, back, rfl, le_passLineEnd stop filled', hback, hends⟩
    · exact ⟨_, [], rfl, Nat.le_refl _, rfl, nofun⟩
  refine ⟨_, place, front ++ back, by rw [hpiece, ← hplace], Nat.lt_of_lt_of_le hlt hle, ?_, fun b hb => ?_⟩
  · rw [List.append_assoc, ← hback, ← List.append_assoc, ← hfront]
    exact htaken
  · exact (List.mem_append.mp hb).elim (hfrontEnds b) (hbackEnds b)

/-- Where there is no piece, the file is at its end. -/
theorem drop_eq_nil_of_piece? (h : InWindow bytes.size taken filled) (hnone : r.piece? taken filled = none) :
    bytes.data.toList.drop taken = [] := by
  by_cases hmore : taken < bytes.size
  · obtain ⟨_, _, _, hpiece, -⟩ := piece?_append (r := r) h hmore
    cases hnone.symm.trans hpiece
  · exact List.drop_eq_nil_of_le (Nat.not_lt.mp hmore)

/-- The pieces that are taken are what the file holds, but for the ends of lines. -/
theorem strewn_of_takes {c : Option (Nat × Nat)} {pieces : List (List UInt8)} (htakes : r.Takes c pieces) :
    ∀ place ∈ c, InWindow bytes.size place.1 place.2 → Strewn (bytes.data.toList.drop place.1) pieces := by
  induction htakes with
  | @done c c' hnext _ =>
    rintro place rfl h
    have hnone : r.piece? place.1 place.2 = none := by
      rw [next] at hnext
      split at hnext
      · assumption
      · cases hnext
    rw [drop_eq_nil_of_piece? h hnone]
    exact .nil
  | @piece c c' piece pieces hnext _ ih =>
    rintro place rfl h
    rw [next] at hnext
    split at hnext
    · cases hnext
    · rename_i found after hpiece
      cases hnext
      have hmore : place.1 < bytes.size := by
        refine Nat.not_le.mp fun hend => ?_
        have hnone := piece?_end (r := r) (List.drop_eq_nil_of_le hend) h
        cases hnone.symm.trans hpiece
      obtain ⟨_, _, ending, hfound, -, hdrop, hends⟩ := piece?_append (r := r) h hmore
      cases hfound.symm.trans hpiece
      rw [hdrop]
      exact .cons hends (ih after rfl (inWindow_piece? h hpiece))

/-- A file is taken piece by piece up to its end. -/
theorem exists_takes (h : InWindow bytes.size taken filled) : ∃ pieces, r.Takes (some (taken, filled)) pieces := by
  generalize hleft : bytes.size - taken = left
  induction left using Nat.strongRecOn generalizing taken filled with
  | ind left ih =>
    by_cases hmore : taken < bytes.size
    · obtain ⟨piece, place, _, hpiece, hlt, -⟩ := piece?_append (r := r) h hmore
      obtain ⟨pieces, htakes⟩ := ih (bytes.size - place.1) (by omega) (inWindow_piece? h hpiece) rfl
      exact ⟨piece :: pieces, .piece (by rw [next, hpiece]) htakes⟩
    · exact ⟨[], takes_end h (List.drop_eq_nil_of_le (Nat.not_lt.mp hmore))⟩

end Reading

/-! ## What is lost of a character -/

namespace LineCursor

variable {content : List UInt8} {pieces : List (List UInt8)}

/-- The text of all pieces. -/
theorem toList_join (pieces : List (List UInt8)) :
    (String.join (pieces.map text)).toList = pieces.flatMap fun piece => (Utf8.read piece).done.reverse := by
  rw [String.toList_join, List.flatMap_map]
  simp only [text, String.toList_ofList]

/-- There is a character for each byte that starts one, and one more for each piece that starts inside a character. -/
theorem starts_le_join (h : Strewn content pieces) :
    content.countP Utf8.starts + pieces.countP StartsInside ≤
      (pieces.flatMap fun piece => (Utf8.read piece).done.reverse).countP Utf8.isInLine := by
  induction h with
  | nil => exact Nat.le_refl _
  | @cons piece ending rest pieces hending _ ih =>
    have hpiece : piece.countP Utf8.starts + (if StartsInside piece then 1 else 0) ≤ _ := Utf8.starts_le_read piece
    have hnone : ending.countP Utf8.starts = 0 := by
      refine List.countP_eq_zero.mpr fun b hb => ?_
      rcases hending b hb with rfl | rfl <;> decide
    rw [List.countP_append, List.countP_append, hnone, List.countP_cons, List.flatMap_cons, List.countP_append,
      List.countP_reverse]
    simp only [decide_eq_true_eq]
    omega

/-- What is kept of a text is cut between characters. -/
theorem not_startsInside_of_kept {s : String} (h : Strewn (Utf8.encode s.toList) pieces)
    (hkept : Text.unbroken (String.join (pieces.map text)) = Text.unbroken s) : ∀ piece ∈ pieces, ¬ StartsInside piece := by
  have hcount := starts_le_join h
  have hsame := congrArg List.length (String.ofList_injective hkept)
  rw [toList_join, ← List.countP_eq_length_filter, ← List.countP_eq_length_filter] at hsame
  rw [hsame, Utf8.countP_encode] at hcount
  have hnone : pieces.countP StartsInside = 0 := by omega
  exact fun piece hpiece => by simpa using List.countP_eq_zero.mp hnone piece hpiece

/-- Where no piece starts inside a character, bytes go on with one that starts a character. -/
theorem head?_of_strewn (h : Strewn content pieces) (hpieces : ∀ piece ∈ pieces, ¬ StartsInside piece) :
    ∀ b ∈ content.head?, ¬ Utf8.Continues b := by
  induction h with
  | nil => exact nofun
  | @cons piece ending rest pieces hending _ ih =>
    have hrest := ih fun piece hpiece => hpieces piece (List.mem_cons_of_mem _ hpiece)
    intro b hb hcontinues
    cases piece with
    | cons c piece => exact hpieces (c :: piece) List.mem_cons_self ⟨b, hb, hcontinues⟩
    | nil =>
      cases ending with
      | nil => exact hrest b hb hcontinues
      | cons c ending =>
        obtain rfl : c = b := Option.some.inj hb
        rcases hending c List.mem_cons_self with rfl | rfl
        · exact absurd hcontinues (by decide)
        · exact absurd hcontinues (by decide)

/-- The ends of lines are characters that are dropped. -/
theorem filter_of_ending {cs : List Char} (h : ∀ b ∈ Utf8.encode cs, b = 10 ∨ b = 13) : cs.filter Utf8.isInLine = [] := by
  have hnone : (Utf8.encode cs).countP Utf8.starts = 0 := by
    refine List.countP_eq_zero.mpr fun b hb => ?_
    rcases h b hb with rfl | rfl <;> decide
  rw [Utf8.countP_encode, List.countP_eq_length_filter] at hnone
  exact List.eq_nil_of_length_eq_zero hnone

/-- A text that is cut between characters is kept, but for the ends of lines. -/
theorem kept_of_not_startsInside {cs : List Char} (h : Strewn (Utf8.encode cs) pieces)
    (hpieces : ∀ piece ∈ pieces, ¬ StartsInside piece) :
    (pieces.flatMap fun piece => (Utf8.read piece).done.reverse).filter Utf8.isInLine = cs.filter Utf8.isInLine := by
  generalize hcontent : Utf8.encode cs = content at h
  induction h generalizing cs with
  | nil =>
    exact (@filter_of_ending cs (by rw [hcontent]; exact nofun)).symm
  | @cons piece ending rest pieces hending hrest ih =>
    have hothers : ∀ piece ∈ pieces, ¬ StartsInside piece := fun piece hpiece => hpieces piece (List.mem_cons_of_mem _ hpiece)
    rw [← List.append_assoc] at hcontent
    obtain ⟨front, back, rfl, hfront, hback⟩ := Utf8.exists_encode_of_append hcontent (head?_of_strewn hrest hothers)
    -- the line end after the piece starts with a character of its own
    have hends : ∀ b ∈ ending.head?, ¬ Utf8.Continues b := by
      intro b hb
      rcases hending b (List.mem_of_head? hb) with rfl | rfl <;> decide
    obtain ⟨line, end_, rfl, rfl, rfl⟩ := Utf8.exists_encode_of_append hfront.symm hends
    rw [List.flatMap_cons, Utf8.read_encode, List.filter_append, ih hothers hback.symm, List.filter_append, List.filter_append,
      filter_of_ending hending, List.append_nil]

/-! ## Lines that are not too long -/

/-- No stretch between line feeds is too long for a piece. -/
def Short (content : List UInt8) : Prop :=
  ∀ line ∈ content.splitOn 10, line.length ≤ maxLine

instance (content : List UInt8) : Decidable (Short content) :=
  inferInstanceAs (Decidable (∀ line ∈ content.splitOn 10, line.length ≤ maxLine))

/-- A file without long lines goes on after a line feed. -/
theorem Short.cases {content : List UInt8} (h : Short content) :
    (10 ∉ content ∧ content.length ≤ maxLine) ∨
      ∃ line rest, content = line ++ 10 :: rest ∧ 10 ∉ line ∧ line.length ≤ maxLine ∧ Short rest := by
  rcases Text.none_or_first (· == 10) content with hnone | ⟨line, b, rest, rfl, hline, hb⟩
  · have hbare : 10 ∉ content := fun hfeed => absurd (hnone 10 hfeed) (by decide)
    have hsplit : content.splitOn 10 = [content] := by
      rw [List.splitOn_eq_splitOnP, List.splitOnP_eq_singleton (beq_feed_of_bare hbare)]
    exact .inl ⟨hbare, h content (by rw [hsplit]; exact List.mem_singleton_self _)⟩
  · obtain rfl : b = 10 := eq_of_beq hb
    have hbare : 10 ∉ line := fun hfeed => absurd (hline 10 hfeed) (by decide)
    have hsplit : (line ++ 10 :: rest).splitOn 10 = line :: rest.splitOn 10 := by
      rw [List.splitOn_eq_splitOnP, List.splitOn_eq_splitOnP,
        List.splitOnP_append_cons_of_forall_mem (beq_feed_of_bare hbare) 10 rfl]
    rw [Short, hsplit] at h
    exact .inr ⟨line, rest, rfl, hbare, h line List.mem_cons_self, fun other hother => h other (List.mem_cons_of_mem _ hother)⟩

end LineCursor

namespace Reading

open LineCursor

variable {bytes : ByteArray} {r : Reading bytes.size} {taken filled : Nat}

/-- Without long lines the next piece is a line, and the one after it starts after a line feed or there is none. -/
theorem drop_of_short (h : InWindow bytes.size taken filled) {piece : List UInt8} {place : Nat × Nat}
    (hpiece : r.piece? taken filled = some (piece, place)) (hshort : Short (bytes.data.toList.drop taken)) :
    bytes.data.toList.drop place.1 = [] ∨
      Short (bytes.data.toList.drop place.1) ∧
        ∃ line, bytes.data.toList.drop taken = line ++ 10 :: bytes.data.toList.drop place.1 := by
  rcases hshort.cases with ⟨hbare, hlength⟩ | ⟨line, rest, hdrop, hbare, hlength, hrest⟩
  · have hsome : bytes.data.toList.drop taken ≠ [] := by
      intro hnil
      cases (piece?_end hnil h).symm.trans hpiece
    obtain ⟨filled', -, hlast⟩ := piece?_last (r := r) h rfl hbare hsome hlength
    cases hlast.symm.trans hpiece
    exact .inl (by rw [← List.drop_drop, List.drop_length])
  · -- a line of just the greatest size is a full piece, and its line feed is passed over
    have hplace : place.1 = taken + line.length + 1 := by
      rcases Nat.lt_or_eq_of_le hlength with hfits | hfull
      · obtain ⟨filled', -, hfeed⟩ := piece?_feed (r := r) h hdrop hbare hfits
        cases hfeed.symm.trans hpiece
        rfl
      · obtain ⟨filled', -, hfeed⟩ := piece?_full (r := r) h hdrop (.feed rest) hbare hfull
        cases hfeed.symm.trans hpiece
        rfl
    have hnext : bytes.data.toList.drop place.1 = rest := by
      rw [hplace, Nat.add_assoc, ← List.drop_drop, hdrop, List.append_cons]
      exact List.drop_left' (by simp)
    exact .inr ⟨hnext ▸ hrest, line, hnext ▸ hdrop⟩

/-- Without long lines every piece starts where a character does. -/
theorem not_startsInside_of_short {c : Option (Nat × Nat)} {pieces : List (List UInt8)} (htakes : r.Takes c pieces) :
    ∀ place ∈ c, InWindow bytes.size place.1 place.2 → ∀ cs, bytes.data.toList.drop place.1 = Utf8.encode cs →
      Short (bytes.data.toList.drop place.1) → ∀ piece ∈ pieces, ¬ StartsInside piece := by
  induction htakes with
  | done => exact fun _ _ _ _ _ _ _ hpiece => absurd hpiece List.not_mem_nil
  | @piece c c' piece pieces hnext hrest ih =>
    rintro place rfl h cs hcs hshort
    rw [next] at hnext
    split at hnext
    · cases hnext
    · rename_i found after hpiece
      cases hnext
      have hstrewn := strewn_of_takes (r := r) (.piece (by rw [next, hpiece]) hrest) place rfl h
      have hothers : ∀ piece ∈ pieces, ¬ StartsInside piece := by
        have hwindow := inWindow_piece? h hpiece
        rcases drop_of_short h hpiece hshort with hend | ⟨hmore, line, hline⟩
        · exact ih after rfl hwindow [] hend (by rw [hend]; decide)
        · obtain ⟨cs', hcs'⟩ := Utf8.exists_encode_of_feed (hcs.symm.trans hline)
          exact ih after rfl hwindow cs' hcs' hmore
      refine List.forall_mem_cons.mpr ⟨?_, hothers⟩
      rintro ⟨b, hb, hcontinues⟩
      refine Utf8.head?_encode cs b ?_ hcontinues
      rw [← hcs]
      generalize bytes.data.toList.drop place.1 = content at hstrewn
      cases hstrewn with
      | cons _ _ =>
        obtain ⟨tail, rfl⟩ := List.head?_eq_some_iff.mp hb
        rfl

end Reading

/-! ## Lines without ends -/

namespace LineCursor

/-- Bytes without line ends have their returns paired. -/
theorem Bare.returnsPaired {content : List UInt8} (h : Bare content) : ReturnsPaired content := by
  rintro before rest rfl
  exact absurd rfl (h 13 (by simp)).2

/-- A full piece is cut off. -/
theorem cut_append {front back : List UInt8} (hfull : front.length = maxLine) (hsome : back ≠ []) :
    cut (front ++ back) = front :: cut back := by
  have hlong : ¬ (front ++ back).length ≤ maxLine := by
    have hpos := List.length_pos_iff.mpr hsome
    rw [List.length_append]
    omega
  rw [cut, if_neg hlong, List.take_left' hfull, List.drop_left' hfull]

end LineCursor

/-! ## Texts that are handed out -/

namespace LineCursor

/-- What a read loop hands out of a file is the file's text, but for the ends of lines, exactly if no piece starts inside a character.
The pieces are found however the window is filled, and the cursor's own window is one way. Where no stretch between two line feeds is
longer than 65535 bytes, no piece does. -/
theorem text_kept_iff (s : String) (bytes : ByteArray) (hbytes : s.toUTF8 = bytes) :
    (∀ r : Reading bytes.size, (∃ pieces, r.Takes (some (0, 0)) pieces) ∧ ∀ pieces, r.Takes (some (0, 0)) pieces →
      (Text.unbroken (String.join (pieces.map text)) = Text.unbroken s ↔ ∀ piece ∈ pieces, ¬ StartsInside piece) ∧
      (Short bytes.data.toList → ∀ piece ∈ pieces, ¬ StartsInside piece)) ∧
    ∀ (files : Files) (path name : String) (names : List String), files.find path = .ok (.entry names (.file name bytes)) →
      ∃ pieces, (ownReading bytes.size).Takes (some (0, 0)) pieces ∧ Drains files (start files path) (pieces.map text) := by
  have hcontent : bytes.data.toList = Utf8.encode s.toList := hbytes ▸ Utf8.toUTF8_data s
  have hwindow : Reading.InWindow bytes.size 0 0 := ⟨Nat.le_refl 0, Nat.zero_le _⟩
  refine ⟨fun r => ⟨Reading.exists_takes hwindow, fun pieces htakes => ⟨?_, ?_⟩⟩, fun files path name names hfind => ?_⟩
  · have hstrewn := Reading.strewn_of_takes htakes (0, 0) rfl hwindow
    rw [List.drop_zero, hcontent] at hstrewn
    refine ⟨not_startsInside_of_kept hstrewn, fun hpieces => ?_⟩
    rw [Text.unbroken, Text.unbroken, toList_join, kept_of_not_startsInside hstrewn hpieces]
  · exact fun hshort => Reading.not_startsInside_of_short htakes (0, 0) rfl hwindow s.toList hcontent hshort
  · obtain ⟨pieces, htakes⟩ := Reading.exists_takes (r := ownReading bytes.size) hwindow
    have hstart : start files path = reading names (some (0, 0)) := by
      rw [start, hfind]
      rfl
    rw [hstart]
    refine ⟨pieces, htakes, drains_of_takes (content?_of_find hfind) htakes ?_⟩
    rintro place ⟨⟩
    exact hwindow

/-- The lines of a file with characters of several bytes are handed out whole. -/
theorem text_kept_accented :
    let bytes := "né\r\n\n→ü".toUTF8
    let files : Files := ⟨[.file "f" bytes]⟩
    files.find "f" = .ok (.entry ["f"] (.file "f" bytes)) ∧
      ∃ texts, Drains files (start files "f") texts ∧ Text.unbroken (String.join texts) = "né→ü" := by
  intro bytes files
  have hfind : files.find "f" = .ok (.entry ["f"] (.file "f" bytes)) := by rfl
  obtain ⟨hkept, hdrains⟩ := text_kept_iff "né\r\n\n→ü" bytes rfl
  obtain ⟨pieces, htakes, hdrains⟩ := hdrains files "f" "f" ["f"] hfind
  obtain ⟨hiff, hshort⟩ := (hkept (ownReading bytes.size)).2 pieces htakes
  exact ⟨hfind, pieces.map text, hdrains, (hiff.mpr (hshort (by decide))).trans (by decide)⟩

/-- A line of 65534 bytes and a character of two. -/
def cutThrough : List Char :=
  List.replicate 65534 'a' ++ ['é']

/-- The bytes of `cutThrough` are as many letters as fit before a character of two bytes. -/
theorem encode_cutThrough : Utf8.encode cutThrough = List.replicate 65534 97 ++ [0xC3, 0xA9] := by
  have hletters (n : Nat) : Utf8.encode (List.replicate n 'a') = List.replicate n 97 := by
    induction n with
    | zero => rfl
    | succ n ih =>
      rw [List.replicate_succ, Utf8.encode_cons, ih, List.replicate_succ]
      rfl
  rw [cutThrough, Utf8.encode_append, hletters]
  rfl

/-- No byte of it ends a line. -/
theorem bare_cutThrough : Bare (Utf8.encode cutThrough) := by
  intro b hb
  rw [encode_cutThrough, List.mem_append] at hb
  rcases hb with hletter | hlast
  · rw [List.eq_of_mem_replicate hletter]
    decide
  · obtain rfl | rfl : b = 0xC3 ∨ b = 0xA9 := by simpa using hlast
    · decide
    · decide

/-- The character's second byte is a piece of its own. -/
theorem cut_cutThrough : (lines (Utf8.encode cutThrough)).flatMap cut = [List.replicate 65534 97 ++ [0xC3], [0xA9]] := by
  have hsome : List.replicate 65534 97 ++ [(0xC3 : UInt8), 0xA9] ≠ [] := List.append_ne_nil_of_right_ne_nil _ (List.cons_ne_nil _ _)
  have hfull : (List.replicate 65534 (97 : UInt8) ++ [0xC3]).length = maxLine := by
    rw [List.length_append, List.length_replicate]
    rfl
  have hbare := bare_cutThrough
  rw [encode_cutThrough] at hbare ⊢
  rw [lines_last hbare.not_feed hsome, dropReturn_bare hbare, List.flatMap_singleton, List.append_cons,
    cut_append hfull (List.cons_ne_nil _ _), cut_short (by decide)]

/-- The two bytes of the character go to two pieces, and each is replaced. -/
theorem text_not_kept :
    let bytes := (String.ofList cutThrough).toUTF8
    let files : Files := ⟨[.file "f" bytes]⟩
    files.find "f" = .ok (.entry ["f"] (.file "f" bytes)) ∧
      ∃ texts, Drains files (start files "f") texts ∧
        Text.unbroken (String.join texts) ≠ Text.unbroken (String.ofList cutThrough) := by
  have hcontent := Utf8.toUTF8_data (String.ofList cutThrough)
  generalize (String.ofList cutThrough).toUTF8 = bytes at hcontent ⊢
  intro _ files
  have hfind : files.find "f" = .ok (.entry ["f"] (.file "f" bytes)) := by rfl
  have hpaired : ReturnsPaired bytes.data.toList := by
    rw [hcontent, String.toList_ofList]
    exact bare_cutThrough.returnsPaired
  have htakes := (ownReading bytes.size).takes_lines hpaired
  rw [hcontent, String.toList_ofList, cut_cutThrough] at htakes
  have hwindow : ∀ place ∈ some (0, 0), Reading.InWindow bytes.size place.1 place.2 := by
    rintro place ⟨⟩
    exact ⟨Nat.le_refl 0, Nat.zero_le _⟩
  refine ⟨hfind, _, drains_of_takes (content?_of_find hfind) htakes hwindow, fun hkept => ?_⟩
  have hstrewn := Reading.strewn_of_takes htakes (0, 0) rfl (hwindow _ rfl)
  rw [List.drop_zero, hcontent] at hstrewn
  exact not_startsInside_of_kept hstrewn hkept [0xA9] (List.mem_cons_of_mem _ (List.mem_singleton_self _)) (by decide)

end LineCursor

end LineScript
