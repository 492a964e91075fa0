import LineScript.Loop.Lines
import LineScript.Proofs.Files.Paths

/-!
# Loops over lines

A read loop takes the bytes of a file through a window, and looks one or two bytes ahead after a piece of the greatest size. How the
window is filled is up to the system (`Reading`), and the cursor's own window is one way (`LineCursor.nextPiece_eq`). In a file whose
carriage returns all stand directly before a line feed, it makes no difference: the pieces are the lines, each cut at every 65535
bytes (`Reading.takes_lines`), and that is what a loop hands out (`LineCursor.hands_out_lines`).
-/

namespace LineScript

open Text

/-! ## Bytes -/

namespace Bytes

/-- A byte of an array is that of its list. -/
theorem getElem?_eq (bytes : ByteArray) (i : Nat) : bytes[i]? = bytes.data.toList[i]? := by
  rw [Array.getElem?_toList]
  by_cases h : i < bytes.size
  · rw [getElem?_pos bytes i h, getElem?_pos bytes.data i h]
    rfl
  · rw [getElem?_neg bytes i h, getElem?_neg bytes.data i h]

theorem toListLoop_eq (bytes : ByteArray) (i : Nat) (done : List UInt8) :
    ByteArray.toList.loop bytes i done = done.reverse ++ bytes.data.toList.drop i := by
  rw [ByteArray.toList.loop]
  by_cases hi : i < bytes.size
  · have hlt : i < bytes.data.toList.length := hi
    have hget : bytes.get! i = bytes.data.toList[i] := getElem!_pos bytes.data i hi
    rw [if_pos hi, toListLoop_eq bytes (i + 1), List.reverse_cons, List.append_assoc, List.singleton_append,
      List.drop_eq_getElem_cons hlt, hget]
  · rw [if_neg hi, List.drop_eq_nil_of_le (Nat.not_lt.mp hi), List.append_nil]
termination_by bytes.size - i

theorem toList_eq (bytes : ByteArray) : bytes.toList = bytes.data.toList :=
  toListLoop_eq bytes 0 []

/-- The bytes between two positions are taken from the list. -/
theorem toList_extract (bytes : ByteArray) (start stop : Nat) :
    (bytes.extract start stop).toList = (bytes.data.toList.drop start).take (stop - start) := by
  rw [toList_eq, ByteArray.data_extract, Array.toList_extract, List.extract_eq_take_drop]

/-- A byte of what is left of some bytes. -/
theorem getElem?_of_drop {bytes : ByteArray} {i : Nat} {rest : List UInt8} (h : bytes.data.toList.drop i = rest) (j : Nat) :
    bytes[i + j]? = rest[j]? := by
  rw [getElem?_eq, ← h, List.getElem?_drop]

/-- From a position on there are as many bytes as are left. -/
theorem size_sub_of_drop {bytes : ByteArray} {i : Nat} {rest : List UInt8} (h : bytes.data.toList.drop i = rest) :
    bytes.size - i = rest.length := by
  rw [← h, List.length_drop, Array.length_toList]
  rfl

end Bytes

/-! ## Windows -/

/-- A byte before some end is at a position before it. -/
theorem LineCursor.lt_of_byteBefore {bytes : ByteArray} {stop i : Nat} {b : UInt8} (h : byteBefore bytes stop i = some b) :
    i < stop := by
  by_cases hlt : i < stop
  · exact hlt
  · rw [byteBefore, if_neg hlt] at h
    cases h

/-- A way to read a file of some size through a window: where the window ends once it was filled at a position. Something is read
as long as the file goes on. -/
structure Reading (size : Nat) where
  /-- The end of the window that is filled at a position. -/
  fill : Nat → Nat
  reads : ∀ i < size, i < fill i
  within : ∀ i ≤ size, i ≤ fill i ∧ fill i ≤ size

namespace Reading

variable {bytes : ByteArray} (r : Reading bytes.size)

/-- The end of the window with a byte to show, if there is one: an empty window is filled. -/
def ahead (taken filled : Nat) : Nat :=
  if taken < filled then filled else r.fill taken

/-- Takes bytes until a line feed was taken, at most `left` of them: where they end, and the end of the window then. -/
def takeLine : (left taken filled : Nat) → Nat × Nat
  | 0, taken, filled => (taken, filled)
  | left + 1, taken, filled =>
    let filled := r.ahead taken filled
    if filled ≤ taken then (taken, filled)
    else if bytes[taken]? == some 10 then (taken + 1, filled)
    else takeLine left (taken + 1) filled

/-- Passes over a line end that comes next, as far as the window shows it. A carriage return at the end of the window is taken
before the line feed is looked for. -/
def passLineEnd (taken filled : Nat) : Nat × Nat :=
  let filled := r.ahead taken filled
  if LineCursor.byteBefore bytes filled taken = some 10 then (taken + 1, filled)
  else if LineCursor.byteBefore bytes filled taken = some 13 then
    if taken + 1 < filled then
      if bytes[taken + 1]? == some 10 then (taken + 2, filled) else (taken, filled)
    else
      let filled := r.ahead (taken + 1) filled
      if LineCursor.byteBefore bytes filled (taken + 1) == some 10 then (taken + 2, filled) else (taken + 1, filled)
  else (taken, filled)

/-- The next piece of a file, if there is one, with the new position and the end of the window. -/
def piece? (taken filled : Nat) : Option (List UInt8 × Nat × Nat) :=
  let (stop, filled) := r.takeLine LineCursor.maxLine taken filled
  if stop ≤ taken then none
  else
    let full := stop - taken == LineCursor.maxLine && bytes[stop - 1]? != some 10
    let (next, filled) := if full then r.passLineEnd stop filled else (stop, filled)
    some (LineCursor.dropLineEnd (bytes.extract taken stop).toList, next, filled)

/-- The next piece of a file that is read from a position on, with the end of the window there. A file is closed when it has no more
pieces. -/
def next : Option (Nat × Nat) → Option (List UInt8) × Option (Nat × Nat)
  | none => (none, none)
  | some (taken, filled) =>
    match r.piece? taken filled with
    | none => (none, none)
    | some (piece, place) => (some piece, some place)

/-- The pieces that are taken until there are none and will be none. -/
inductive Takes : Option (Nat × Nat) → List (List UInt8) → Prop
  | done {c c' : Option (Nat × Nat)} (h : r.next c = (none, c')) (hover : r.next c' = (none, c')) : Takes c []
  | piece {c c' : Option (Nat × Nat)} {piece : List UInt8} {pieces : List (List UInt8)} (h : r.next c = (some piece, c'))
      (hrest : Takes c' pieces) : Takes c (piece :: pieces)

/-! ### Bytes that are taken -/

variable {r} {taken filled left : Nat} {body rest : List UInt8}

/-- A position of a file, and the end of a window that holds it. -/
structure InWindow (size taken filled : Nat) : Prop where
  le : taken ≤ filled
  within : filled ≤ size

/-- A position stays in its window when the window is filled ahead. -/
theorem inWindow_ahead (h : InWindow bytes.size taken filled) : InWindow bytes.size taken (r.ahead taken filled) := by
  unfold ahead
  split
  · exact h
  · have hfilled : taken = filled := Nat.le_antisymm h.le (Nat.not_lt.mp ‹_›)
    have hwithin := r.within taken (hfilled ▸ h.within)
    exact ⟨hwithin.1, hwithin.2⟩

/-- As long as the file goes on, there is a byte to show. -/
theorem lt_ahead (filled : Nat) (hmore : taken < bytes.size) : taken < r.ahead taken filled := by
  unfold ahead
  split
  · assumption
  · exact r.reads taken hmore

/-- A window that was filled shows the byte at the position, if the file has one there. -/
theorem byteBefore_ahead (taken filled : Nat) :
    LineCursor.byteBefore bytes (r.ahead taken filled) taken = bytes[taken]? := by
  unfold LineCursor.byteBefore
  split
  · rfl
  · rename_i hshown
    have hend : ¬ taken < bytes.size := fun hmore => hshown (lt_ahead filled hmore)
    exact (getElem?_neg bytes taken hend).symm

/-- Where a line ends does not hang on the window. -/
theorem takeLine_spec (left : Nat) (h : InWindow bytes.size taken filled) :
    (r.takeLine left taken filled).1 = LineCursor.lineEnd bytes (min left (bytes.size - taken)) taken ∧
      InWindow bytes.size (r.takeLine left taken filled).1 (r.takeLine left taken filled).2 := by
  induction left generalizing taken filled with
  | zero =>
    rw [Nat.zero_min]
    exact ⟨rfl, h⟩
  | succ left ih =>
    have hahead := inWindow_ahead (r := r) h
    rw [takeLine]
    by_cases hend : taken < bytes.size
    · have hlt := lt_ahead (r := r) filled hend
      have hmin : min (left + 1) (bytes.size - taken) = min left (bytes.size - (taken + 1)) + 1 := by omega
      rw [if_neg (Nat.not_le.mpr hlt), hmin, LineCursor.lineEnd]
      split
      · exact ⟨rfl, hlt, hahead.within⟩
      · exact ih ⟨hlt, hahead.within⟩
    · have hzero : bytes.size - taken = 0 := Nat.sub_eq_zero_of_le (Nat.not_lt.mp hend)
      rw [if_pos (Nat.le_trans hahead.within (Nat.not_lt.mp hend)), hzero, Nat.min_zero]
      exact ⟨rfl, hahead⟩

/-- A line that has no line feed where it may end ends there. -/
theorem lineEnd_bare (hdrop : bytes.data.toList.drop taken = body ++ rest) (hbare : 10 ∉ body) :
    LineCursor.lineEnd bytes body.length taken = taken + body.length := by
  induction body generalizing taken with
  | nil => rfl
  | cons b body ih =>
    have hb := Bytes.getElem?_of_drop hdrop 0
    have htail : bytes.data.toList.drop (taken + 1) = body ++ rest := by
      rw [← List.drop_drop, hdrop]
      rfl
    rw [List.mem_cons, not_or] at hbare
    rw [List.length_cons, LineCursor.lineEnd, if_neg, ih htail hbare.2, Nat.add_assoc, Nat.add_comm 1]
    rw [Nat.add_zero] at hb
    simpa [hb] using Ne.symm hbare.1

/-- A line ends after its first line feed. -/
theorem lineEnd_feed (left : Nat) (hdrop : bytes.data.toList.drop taken = body ++ 10 :: rest) (hbare : 10 ∉ body)
    (hleft : body.length < left) :
    LineCursor.lineEnd bytes left taken = taken + body.length + 1 := by
  obtain ⟨left, rfl⟩ : ∃ n, left = n + 1 := ⟨left - 1, by omega⟩
  induction body generalizing taken left with
  | nil =>
    have hb := Bytes.getElem?_of_drop hdrop 0
    rw [Nat.add_zero] at hb
    rw [LineCursor.lineEnd, if_pos (by simp [hb])]
    rfl
  | cons b body ih =>
    have hb := Bytes.getElem?_of_drop hdrop 0
    have htail : bytes.data.toList.drop (taken + 1) = body ++ 10 :: rest := by
      rw [← List.drop_drop, hdrop]
      rfl
    rw [List.mem_cons, not_or] at hbare
    rw [List.length_cons] at hleft ⊢
    obtain ⟨left, rfl⟩ : ∃ n, left = n + 1 := ⟨left - 1, by omega⟩
    rw [LineCursor.lineEnd, if_neg, ih htail hbare.2 left (by omega)]
    · omega
    · rw [Nat.add_zero] at hb
      simpa [hb] using Ne.symm hbare.1

/-! ### One piece -/

/-- There is a piece as long as bytes are taken. It is followed by a line end only if it has the greatest size and none of its own. -/
theorem piece?_spec (h : InWindow bytes.size taken filled) {stop : Nat}
    (hstop : LineCursor.lineEnd bytes (min LineCursor.maxLine (bytes.size - taken)) taken = stop) (hlt : taken < stop) :
    ∃ filled', InWindow bytes.size stop filled' ∧
      r.piece? taken filled =
        (let after := if stop - taken == LineCursor.maxLine && bytes[stop - 1]? != some 10 then r.passLineEnd stop filled'
          else (stop, filled')
        some (LineCursor.dropLineEnd ((bytes.data.toList.drop taken).take (stop - taken)), after)) := by
  obtain ⟨hend, hwindow⟩ := takeLine_spec (r := r) LineCursor.maxLine h
  rw [hstop] at hend
  rw [hend] at hwindow
  refine ⟨_, hwindow, ?_⟩
  simp only [piece?, hend, Bytes.toList_extract]
  rw [if_neg (Nat.not_le.mpr hlt)]

/-- The line end that comes next: a line feed, a carriage return with a line feed, or none, where the line goes on or the file
ends. -/
inductive Ending : List UInt8 → List UInt8 → Prop
  | feed (more : List UInt8) : Ending [10] more
  | both (more : List UInt8) : Ending [13, 10] more
  | none {more : List UInt8} (h : ∀ b ∈ more.head?, b ≠ 10 ∧ b ≠ 13) : Ending [] more

/-- A line end that comes next is passed over, wherever the window ends. -/
theorem passLineEnd_spec (h : InWindow bytes.size taken filled) {ending more : List UInt8} (hending : Ending ending more)
    (hdrop : bytes.data.toList.drop taken = ending ++ more) :
    ∃ filled', r.passLineEnd taken filled = (taken + ending.length, filled') ∧
      InWindow bytes.size (taken + ending.length) filled' := by
  have hahead := inWindow_ahead (r := r) h
  have hfirst := byteBefore_ahead (r := r) taken filled
  have hget := Bytes.getElem?_of_drop hdrop
  have hsize (n : Nat) (hn : n < (ending ++ more).length) : taken + n < bytes.size :=
    Nat.add_lt_of_lt_sub' (Bytes.size_sub_of_drop hdrop ▸ hn)
  rw [← Nat.add_zero taken, hget 0, Nat.add_zero] at hfirst
  cases hending with
  | feed =>
    refine ⟨r.ahead taken filled, ?_, lt_ahead filled (hsize 0 (by simp)), hahead.within⟩
    simp only [passLineEnd, hfirst]
    rfl
  | both =>
    have hsecond : bytes[taken + 1]? = some 10 := hget 1
    by_cases hshown : taken + 1 < r.ahead taken filled
    · refine ⟨r.ahead taken filled, ?_, hshown, hahead.within⟩
      simp only [passLineEnd, hfirst, hsecond, hshown]
      rfl
    · -- The window ends between the two: it is filled again.
      have hwindow : InWindow bytes.size (taken + 1) (r.ahead taken filled) :=
        ⟨lt_ahead filled (hsize 0 (by simp)), hahead.within⟩
      have hagain := inWindow_ahead (r := r) hwindow
      refine ⟨r.ahead (taken + 1) (r.ahead taken filled), ?_, lt_ahead _ (hsize 1 (by simp)), hagain.within⟩
      simp only [passLineEnd, hfirst, hshown, byteBefore_ahead, hsecond]
      rfl
  | none hother =>
    refine ⟨r.ahead taken filled, ?_, hahead⟩
    cases more with
    | nil =>
      simp only [passLineEnd, hfirst]
      rfl
    | cons b more =>
      obtain ⟨hfeed, hreturn⟩ := hother b rfl
      simp only [passLineEnd, hfirst, List.nil_append, List.getElem?_cons_zero]
      rw [if_neg (mt Option.some.inj hfeed), if_neg (mt Option.some.inj hreturn)]
      rfl

/-- What is passed over was shown. -/
theorem inWindow_passLineEnd (h : InWindow bytes.size taken filled) :
    InWindow bytes.size (r.passLineEnd taken filled).1 (r.passLineEnd taken filled).2 := by
  have hahead := inWindow_ahead (r := r) h
  rw [passLineEnd]
  dsimp only
  by_cases hfeed : LineCursor.byteBefore bytes (r.ahead taken filled) taken = some 10
  · rw [if_pos hfeed]
    exact ⟨LineCursor.lt_of_byteBefore hfeed, hahead.within⟩
  rw [if_neg hfeed]
  by_cases hreturn : LineCursor.byteBefore bytes (r.ahead taken filled) taken = some 13
  · rw [if_pos hreturn]
    have hwindow : InWindow bytes.size (taken + 1) (r.ahead taken filled) := ⟨LineCursor.lt_of_byteBefore hreturn, hahead.within⟩
    have hagain := inWindow_ahead (r := r) hwindow
    split
    · rename_i hmore
      split
      · exact ⟨hmore, hahead.within⟩
      · exact hahead
    · split
      · exact ⟨LineCursor.lt_of_byteBefore (eq_of_beq ‹_›), hagain.within⟩
      · exact hagain
  · rw [if_neg hreturn]
    exact hahead

/-- After a piece, the position is in the window. -/
theorem inWindow_piece? (h : InWindow bytes.size taken filled) {piece : List UInt8} {place : Nat × Nat}
    (hpiece : r.piece? taken filled = some (piece, place)) : InWindow bytes.size place.1 place.2 := by
  have hwindow := (takeLine_spec (r := r) LineCursor.maxLine h).2
  rw [piece?] at hpiece
  dsimp only at hpiece
  split at hpiece
  · cases hpiece
  · obtain ⟨-, rfl⟩ := Prod.mk.inj (Option.some.inj hpiece)
    dsimp only
    split
    · exact inWindow_passLineEnd hwindow
    · exact hwindow

/-- A place in its window moves to one in its window. -/
theorem inWindow_next {c : Option (Nat × Nat)} (h : ∀ place ∈ c, InWindow bytes.size place.1 place.2) :
    ∀ place ∈ (r.next c).2, InWindow bytes.size place.1 place.2 := by
  intro place hplace
  cases c with
  | none => cases hplace
  | some before =>
    rw [next] at hplace
    split at hplace
    · cases hplace
    · rename_i piece after hpiece
      obtain rfl : after = place := Option.some.inj hplace
      exact inWindow_piece? (h before rfl) hpiece

/-! ### Pieces by what they hold -/

/-- A piece with its line feed. -/
theorem piece?_feed (h : InWindow bytes.size taken filled) (hdrop : bytes.data.toList.drop taken = body ++ 10 :: rest)
    (hbare : 10 ∉ body) (hshort : body.length < LineCursor.maxLine) :
    ∃ filled', InWindow bytes.size (taken + body.length + 1) filled' ∧
      r.piece? taken filled = some (LineCursor.dropLineEnd (body ++ [10]), taken + body.length + 1, filled') := by
  have hsize := Bytes.size_sub_of_drop hdrop
  rw [List.length_append, List.length_cons] at hsize
  have hstop := lineEnd_feed (min LineCursor.maxLine (bytes.size - taken)) hdrop hbare (by omega)
  obtain ⟨filled', hwindow, hpiece⟩ := piece?_spec (r := r) h hstop (by omega)
  have hlast : bytes[taken + body.length + 1 - 1]? = some 10 := by
    rw [Nat.add_sub_cancel, Bytes.getElem?_of_drop hdrop]
    simp
  have htaken : taken + body.length + 1 - taken = body.length + 1 := by omega
  refine ⟨filled', hwindow, ?_⟩
  rw [hpiece, hlast, htaken, hdrop, List.append_cons, List.take_left' (by simp)]
  simp

/-- A piece without a line feed: it has the greatest size, or it is the last one. -/
theorem piece?_bare (h : InWindow bytes.size taken filled) (hdrop : bytes.data.toList.drop taken = body ++ rest)
    (hbare : 10 ∉ body) (hsome : body ≠ []) (hlength : min LineCursor.maxLine (body ++ rest).length = body.length) :
    ∃ filled', InWindow bytes.size (taken + body.length) filled' ∧
      r.piece? taken filled =
        some (LineCursor.dropLineEnd body, if body.length = LineCursor.maxLine then r.passLineEnd (taken + body.length) filled'
          else (taken + body.length, filled')) := by
  have hpos : 0 < body.length := List.length_pos_iff.mpr hsome
  have hleft : min LineCursor.maxLine (bytes.size - taken) = body.length := by rw [Bytes.size_sub_of_drop hdrop, hlength]
  have hstop := lineEnd_bare hdrop hbare
  rw [← hleft] at hstop
  obtain ⟨filled', hwindow, hpiece⟩ := piece?_spec (r := r) h hstop (by omega)
  have hlast : bytes[taken + body.length - 1]? ≠ some 10 := by
    have hget := Bytes.getElem?_of_drop hdrop (body.length - 1)
    rw [← Nat.add_sub_assoc hpos, List.getElem?_append_left (by omega)] at hget
    rw [hget]
    exact fun hfeed => hbare (List.mem_of_getElem? hfeed)
  rw [hleft] at hpiece hwindow
  refine ⟨filled', hwindow, ?_⟩
  rw [hpiece, Nat.add_sub_cancel_left, hdrop, List.take_left' rfl, bne_iff_ne.mpr hlast, Bool.and_true]
  simp only [beq_iff_eq]

/-- A piece of the greatest size, with the line end that comes next. -/
theorem piece?_full (h : InWindow bytes.size taken filled) {ending more : List UInt8}
    (hdrop : bytes.data.toList.drop taken = body ++ (ending ++ more)) (hending : Ending ending more) (hbare : 10 ∉ body)
    (hfull : body.length = LineCursor.maxLine) :
    ∃ filled', InWindow bytes.size (taken + body.length + ending.length) filled' ∧
      r.piece? taken filled = some (LineCursor.dropLineEnd body, taken + body.length + ending.length, filled') := by
  have hpos : 0 < LineCursor.maxLine := by decide
  have hsome : body ≠ [] := List.length_pos_iff.mp (hfull ▸ hpos)
  obtain ⟨filled', hwindow, hpiece⟩ :=
    piece?_bare (r := r) h hdrop hbare hsome (by rw [List.length_append, hfull]; exact Nat.min_eq_left (Nat.le_add_right _ _))
  have hnext : bytes.data.toList.drop (taken + body.length) = ending ++ more := by
    rw [← List.drop_drop, hdrop, List.drop_left' rfl]
  obtain ⟨filled'', hpass, hwindow'⟩ := passLineEnd_spec (r := r) hwindow hending hnext
  exact ⟨filled'', hwindow', by rw [hpiece, if_pos hfull, hpass]⟩

/-- A piece at the end of a file. -/
theorem piece?_last (h : InWindow bytes.size taken filled) (hdrop : bytes.data.toList.drop taken = body) (hbare : 10 ∉ body)
    (hsome : body ≠ []) (hshort : body.length ≤ LineCursor.maxLine) :
    ∃ filled', InWindow bytes.size (taken + body.length) filled' ∧
      r.piece? taken filled = some (LineCursor.dropLineEnd body, taken + body.length, filled') := by
  rw [← List.append_nil body] at hdrop
  rcases Nat.lt_or_eq_of_le hshort with hlt | hfull
  · obtain ⟨filled', hwindow, hpiece⟩ :=
      piece?_bare (r := r) h hdrop hbare hsome (by rw [List.append_nil]; exact Nat.min_eq_right hshort)
    exact ⟨filled', hwindow, by rw [hpiece, if_neg (Nat.ne_of_lt hlt)]⟩
  · exact piece?_full h hdrop (.none nofun : Ending [] []) hbare hfull

/-- At the end of the file there is no piece. -/
theorem piece?_end (hdrop : bytes.data.toList.drop taken = []) (h : InWindow bytes.size taken filled) :
    r.piece? taken filled = none := by
  have hstop := (takeLine_spec (r := r) LineCursor.maxLine h).1
  rw [Bytes.size_sub_of_drop hdrop, List.length_nil, Nat.min_zero, LineCursor.lineEnd] at hstop
  simp only [piece?, hstop]
  rw [if_pos (Nat.le_refl _)]

end Reading

/-! ## Lines -/

namespace LineCursor

/-- Bytes that neither end a line nor are taken off its end. -/
def Bare (line : List UInt8) : Prop :=
  ∀ b ∈ line, b ≠ 10 ∧ b ≠ 13

/-- Every carriage return stands alone, directly before a line feed. -/
def ReturnsPaired (content : List UInt8) : Prop :=
  ∀ before rest, content = before ++ 13 :: rest → rest.head? = some 10

theorem ReturnsPaired.nil : ReturnsPaired [] := by
  intro before rest hsplit
  cases before <;> cases hsplit

/-- A byte in front keeps the returns paired if it is no return, or if a line feed comes next. -/
theorem ReturnsPaired.cons {b : UInt8} {rest : List UInt8} (h : b = 13 → rest.head? = some 10) (hrest : ReturnsPaired rest) :
    ReturnsPaired (b :: rest) := by
  intro before after hsplit
  cases before with
  | nil =>
    obtain ⟨rfl, rfl⟩ := List.cons.inj hsplit
    exact h rfl
  | cons c before => exact hrest before after (List.cons.inj hsplit).2

/-- A line without the carriage return before its line feed. -/
def dropReturn (line : List UInt8) : List UInt8 :=
  if line.getLast? = some 13 then line.dropLast else line

/-- The lines of a file: what stands between its line feeds, each without the carriage return before the line feed. Nothing is no line
after the last line feed. -/
def lines (content : List UInt8) : List (List UInt8) :=
  let pieces := content.splitOn 10
  (if pieces.getLast? = some [] then pieces.dropLast else pieces).map dropReturn

/-- A line cut at every 65535 bytes. -/
def cut (line : List UInt8) : List (List UInt8) :=
  if line.length ≤ maxLine then [line] else line.take maxLine :: cut (line.drop maxLine)
termination_by line.length
decreasing_by
  rw [List.length_drop]
  have hpos : 0 < maxLine := by decide
  omega

variable {line rest : List UInt8}

/-- A line of at most the greatest size is not cut. -/
theorem cut_short (h : line.length ≤ maxLine) : cut line = [line] := by
  rw [cut, if_pos h]

/-- All pieces but the last have the greatest size, and the last one is empty only if the line is. -/
theorem cut_eq (line : List UInt8) :
    ∃ full last, cut line = full ++ [last] ∧ line = full.flatten ++ last ∧ (∀ piece ∈ full, piece.length = maxLine) ∧
      last.length ≤ maxLine ∧ (last = [] → line = []) := by
  induction line using cut.induct with
  | case1 line hshort => exact ⟨[], line, cut_short hshort, rfl, nofun, hshort, id⟩
  | case2 line hlong ih =>
    obtain ⟨full, last, hcut, hline, hfull, hlast, hempty⟩ := ih
    refine ⟨line.take maxLine :: full, last, ?_, ?_, ?_, hlast, ?_⟩
    · rw [cut, if_neg hlong, hcut, List.cons_append]
    · rw [List.flatten_cons, List.append_assoc, ← hline, List.take_append_drop]
    · rintro piece (_ | ⟨_, hpiece⟩)
      · exact List.length_take_of_le (Nat.le_of_not_le hlong)
      · exact hfull piece hpiece
    · exact fun hnil => absurd (List.drop_eq_nil_iff.mp (hempty hnil)) hlong

/-- A bare line holds no line feed. -/
theorem Bare.not_feed (h : Bare line) : 10 ∉ line :=
  fun hfeed => (h 10 hfeed).1 rfl

/-- What is left of a bare line is bare. -/
theorem Bare.mono (h : Bare line) (hrest : rest ⊆ line) : Bare rest :=
  fun b hb => h b (hrest hb)

theorem dropReturn_bare (h : Bare line) : dropReturn line = line :=
  if_neg fun hlast => (h 13 (List.mem_of_getLast? hlast)).2 rfl

theorem dropReturn_return (line : List UInt8) : dropReturn (line ++ [13]) = line := by
  rw [dropReturn, List.getLast?_concat, if_pos rfl, List.dropLast_concat]

theorem beq_feed_of_bare (h : 10 ∉ line) : ∀ b ∈ line, (b == 10) = false :=
  fun _ hb => beq_false_of_ne fun hfeed => h (hfeed ▸ hb)

/-- Bytes without line feeds are one line, without the return at their end. -/
theorem lines_last (h : 10 ∉ line) (hsome : line ≠ []) : lines line = [dropReturn line] := by
  have hsplit : line.splitOn 10 = [line] := by
    rw [List.splitOn_eq_splitOnP, List.splitOnP_eq_singleton (beq_feed_of_bare h)]
  rw [lines, hsplit, List.getLast?_singleton, if_neg (by simpa using hsome)]
  rfl

/-- A line feed ends a line, and the other lines come after it. -/
theorem lines_feed (h : 10 ∉ line) (rest : List UInt8) : lines (line ++ 10 :: rest) = dropReturn line :: lines rest := by
  have hsplit : (line ++ 10 :: rest).splitOn 10 = line :: rest.splitOn 10 := by
    rw [List.splitOn_eq_splitOnP, List.splitOn_eq_splitOnP,
      List.splitOnP_append_cons_of_forall_mem (beq_feed_of_bare h) 10 rfl]
  have hne : rest.splitOn 10 ≠ [] := by
    rw [List.splitOn_eq_splitOnP]
    exact List.splitOnP_ne_nil _ _
  obtain ⟨piece, pieces, hpieces⟩ := List.exists_cons_of_ne_nil hne
  rw [lines, lines, hsplit, hpieces, List.getLast?_cons_cons]
  split
  · rw [List.dropLast_cons_of_ne_nil (List.cons_ne_nil _ _)]
    rfl
  · rfl

/-- A file whose carriage returns are paired is made of lines that end with a line feed, with or without a carriage return before it,
and perhaps a last line without an end. -/
theorem lines_induction {motive : List UInt8 → Prop} (nil : motive [])
    (last : ∀ line, Bare line → line ≠ [] → motive line)
    (feed : ∀ line rest, Bare line → motive rest → motive (line ++ 10 :: rest))
    (both : ∀ line rest, Bare line → motive rest → motive (line ++ 13 :: 10 :: rest)) {content : List UInt8}
    (h : ReturnsPaired content) : motive content := by
  generalize hlength : content.length = n
  induction n using Nat.strongRecOn generalizing content with
  | ind n ih =>
    rcases none_or_first (· == 10) content with hnone | ⟨before, b, rest, hcontent, hbefore, hb⟩
    · -- Without a line feed there is no carriage return either.
      have hbare : Bare content := by
        refine fun b hb => ⟨ne_of_beq_false (hnone b hb), ?_⟩
        rintro rfl
        obtain ⟨front, back, hsplit⟩ := List.append_of_mem hb
        have hfeed := List.mem_of_head? (h front back hsplit)
        exact absurd (hnone 10 (hsplit ▸ by simp [hfeed])) (by decide)
      by_cases hsome : content = []
      · exact hsome ▸ nil
      · exact last content hbare hsome
    · obtain rfl : b = 10 := eq_of_beq hb
      have hfeeds : ∀ b ∈ before, b ≠ 10 := fun b hb => ne_of_beq_false (hbefore b hb)
      have hrest : motive rest := by
        refine ih rest.length ?_ (fun front back hsplit => ?_) rfl
        · rw [← hlength, hcontent, List.length_append, List.length_cons]
          omega
        · exact h (before ++ 10 :: front) back (by rw [hcontent, hsplit]; simp)
      by_cases hreturn : 13 ∈ before
      · obtain ⟨line, back, hsplit, hline⟩ := List.eq_append_cons_of_mem hreturn
        have hhead := h line (back ++ 10 :: rest) (by rw [hcontent, hsplit]; simp)
        have hback : back = [] := by
          cases back with
          | nil => rfl
          | cons c back =>
            obtain rfl : c = 10 := by simpa using hhead
            exact absurd rfl (hfeeds 10 (by simp [hsplit]))
        rw [hcontent, hsplit, hback, List.append_assoc]
        refine both line rest (fun b hb => ⟨hfeeds b (by simp [hsplit, hb]), ?_⟩) hrest
        rintro rfl
        exact hline hb
      · refine hcontent ▸ feed before rest (fun b hb => ⟨hfeeds b hb, ?_⟩) hrest
        rintro rfl
        exact hreturn hb

/-- Dropping line ends leaves a bare line. -/
theorem dropLineEnd_bare (h : Bare line) (ending : List UInt8) (hending : ∀ b ∈ ending, b = 10 ∨ b = 13) :
    dropLineEnd (line ++ ending) = line := by
  have hdrop : ∀ b ∈ ending.reverse, (b == 10 || b == 13) = true := by
    intro b hb
    simpa using hending b (List.mem_reverse.mp hb)
  have hkept : line.reverse.dropWhile (fun b => b == 10 || b == 13) = line.reverse := by
    cases hline : line.reverse with
    | nil => rfl
    | cons b bs =>
      have hb : b ∈ line := List.mem_reverse.mp (hline ▸ List.mem_cons_self)
      have hkeep : (b == 10 || b == 13) = false := by simpa using h b hb
      rw [List.dropWhile_cons, if_neg (Bool.eq_false_iff.mp hkeep)]
  rw [dropLineEnd, List.reverse_append, List.dropWhile_append_of_pos hdrop, hkept, List.reverse_reverse]

theorem dropLineEnd_self (h : Bare line) : dropLineEnd line = line := by
  have hnone := dropLineEnd_bare h [] nofun
  rwa [List.append_nil] at hnone

end LineCursor

namespace Reading

open LineCursor

variable {bytes : ByteArray} {r : Reading bytes.size} {taken filled : Nat} {line ending more : List UInt8}

/-- A line that is not too long is a piece, and its end is passed over with it. -/
theorem piece?_line (h : InWindow bytes.size taken filled) (hdrop : bytes.data.toList.drop taken = line ++ (ending ++ more))
    (hbare : Bare line) (hending : Ending ending more) (hlast : ending = [] → more = [] ∧ line ≠ [])
    (hshort : line.length ≤ maxLine) :
    ∃ filled', InWindow bytes.size (taken + line.length + ending.length) filled' ∧
      r.piece? taken filled = some (line, taken + line.length + ending.length, filled') := by
  rcases Nat.lt_or_eq_of_le hshort with hlt | hfull
  · cases hending with
    | feed =>
      have hpiece := piece?_feed (r := r) h hdrop hbare.not_feed hlt
      rwa [dropLineEnd_bare hbare _ (by simp)] at hpiece
    | both =>
      -- The carriage return counts for the size of the piece, the line feed may or may not fit.
      have hreturn : 10 ∉ line ++ [13] := by simpa using hbare.not_feed
      have hlength : taken + (line ++ [13]).length + 1 = taken + line.length + 2 := by
        rw [List.length_append, List.length_singleton]
        omega
      have hdrop : bytes.data.toList.drop taken = line ++ [13] ++ 10 :: more := by rw [hdrop]; simp
      rcases Nat.lt_or_eq_of_le hlt with hfits | hsplit
      · have hpiece := piece?_feed (r := r) h hdrop hreturn (by simpa using hfits)
        rwa [hlength, List.append_assoc, dropLineEnd_bare hbare _ (by simp)] at hpiece
      · have hpiece := piece?_full (r := r) h hdrop (.feed more) hreturn (by simpa using hsplit)
        rwa [List.length_singleton, hlength, dropLineEnd_bare hbare _ (by simp)] at hpiece
    | none =>
      obtain ⟨rfl, hsome⟩ := hlast rfl
      rw [List.append_nil, List.append_nil] at hdrop
      have hpiece := piece?_last (r := r) h hdrop hbare.not_feed hsome hshort
      rwa [dropLineEnd_self hbare] at hpiece
  · have hpiece := piece?_full (r := r) h hdrop hending hbare.not_feed hfull
    rwa [dropLineEnd_self hbare] at hpiece

/-- A line that is too long goes on after a piece of the greatest size, so there is no line end to pass over. -/
theorem piece?_long (h : InWindow bytes.size taken filled) (hdrop : bytes.data.toList.drop taken = line ++ more)
    (hbare : Bare line) (hlong : maxLine < line.length) :
    ∃ filled', InWindow bytes.size (taken + maxLine) filled' ∧
      r.piece? taken filled = some (line.take maxLine, taken + maxLine, filled') ∧
      bytes.data.toList.drop (taken + maxLine) = line.drop maxLine ++ more := by
  have htaken : (line.take maxLine).length = maxLine := List.length_take_of_le (Nat.le_of_lt hlong)
  have hbody : Bare (line.take maxLine) := hbare.mono (List.take_subset _ _)
  obtain ⟨b, tail, htail⟩ : ∃ b tail, line.drop maxLine = b :: tail :=
    List.exists_cons_of_ne_nil (mt List.drop_eq_nil_iff.mp (Nat.not_le.mpr hlong))
  have hgoes : Ending [] (line.drop maxLine ++ more) := by
    refine .none fun c hc => hbare c (List.drop_subset maxLine _ ?_)
    rw [htail] at hc ⊢
    obtain rfl : b = c := by simpa using hc
    exact List.mem_cons_self
  have hdrop : bytes.data.toList.drop taken = line.take maxLine ++ ([] ++ (line.drop maxLine ++ more)) := by
    rw [hdrop, List.nil_append, ← List.append_assoc, List.take_append_drop]
  obtain ⟨filled', hwindow, hpiece⟩ := piece?_full (r := r) h hdrop hgoes hbody.not_feed htaken
  rw [htaken, List.length_nil, Nat.add_zero] at hwindow hpiece
  rw [dropLineEnd_self hbody] at hpiece
  refine ⟨filled', hwindow, hpiece, ?_⟩
  rw [← List.drop_drop, hdrop, List.drop_left' htaken, List.nil_append]

/-- A line is taken piece by piece, and its end with the last one. -/
theorem takes_line {pieces : List (List UInt8)} (h : InWindow bytes.size taken filled)
    (hdrop : bytes.data.toList.drop taken = line ++ (ending ++ more)) (hbare : Bare line) (hending : Ending ending more)
    (hlast : ending = [] → more = [] ∧ line ≠ [])
    (hrest : ∀ filled', InWindow bytes.size (taken + line.length + ending.length) filled' →
      r.Takes (some (taken + line.length + ending.length, filled')) pieces) :
    r.Takes (some (taken, filled)) (cut line ++ pieces) := by
  generalize hlength : line.length = n
  induction n using Nat.strongRecOn generalizing taken filled line with
  | ind n ih =>
    by_cases hshort : line.length ≤ maxLine
    · obtain ⟨filled', hwindow, hpiece⟩ := piece?_line (r := r) h hdrop hbare hending hlast hshort
      rw [cut_short hshort]
      exact .piece (by rw [next, hpiece]) (hrest filled' hwindow)
    · have hlong := Nat.not_le.mp hshort
      have hpos : 0 < maxLine := by decide
      have hsum : taken + maxLine + (line.drop maxLine).length = taken + line.length := by
        rw [List.length_drop]
        omega
      obtain ⟨filled', hwindow, hpiece, hnext⟩ := piece?_long (r := r) h hdrop hbare hlong
      rw [cut, if_neg hshort]
      refine .piece (by rw [next, hpiece])
        (ih (n - maxLine) (by omega) hwindow hnext (hbare.mono (List.drop_subset _ _)) (fun hnil => ?_) ?_ ?_)
      · exact ⟨(hlast hnil).1, mt List.drop_eq_nil_iff.mp hshort⟩
      · rwa [hsum]
      · rw [List.length_drop, hlength]

/-- From the end of the file nothing is taken. -/
theorem takes_end (h : InWindow bytes.size taken filled) (hdrop : bytes.data.toList.drop taken = []) :
    r.Takes (some (taken, filled)) [] :=
  .done (by rw [next, piece?_end hdrop h]) rfl

/-- In a file whose carriage returns are paired, the pieces are the lines, each cut at every 65535 bytes. -/
theorem takes_lines (r : Reading bytes.size) (hpaired : ReturnsPaired bytes.data.toList) :
    r.Takes (some (0, 0)) ((lines bytes.data.toList).flatMap cut) := by
  have hdrop {taken : Nat} {line ending rest : List UInt8} (h : bytes.data.toList.drop taken = line ++ (ending ++ rest)) :
      bytes.data.toList.drop (taken + line.length + ending.length) = rest := by
    rw [← List.drop_drop, ← List.drop_drop, h, List.drop_left' rfl, List.drop_left' rfl]
  refine lines_induction (motive := fun content => ∀ taken filled, InWindow bytes.size taken filled →
    bytes.data.toList.drop taken = content → r.Takes (some (taken, filled)) ((lines content).flatMap cut))
    ?nil ?last ?feed ?both hpaired 0 0 ⟨Nat.le_refl 0, Nat.zero_le _⟩ List.drop_zero
  case nil => exact fun taken filled h hend => takes_end h hend
  case last =>
    intro line hbare hsome taken filled h hline
    have hparts : bytes.data.toList.drop taken = line ++ ([] ++ []) := by rw [hline, List.append_nil, List.append_nil]
    rw [lines_last hbare.not_feed hsome, dropReturn_bare hbare]
    exact takes_line h hparts hbare (.none nofun) (fun _ => ⟨rfl, hsome⟩) fun filled' h' => takes_end h' (hdrop hparts)
  case feed =>
    intro line rest hbare ih taken filled h hline
    have hparts : bytes.data.toList.drop taken = line ++ ([10] ++ rest) := hline
    rw [lines_feed hbare.not_feed, dropReturn_bare hbare]
    exact takes_line h hparts hbare (.feed rest) nofun fun filled' h' => ih _ _ h' (hdrop hparts)
  case both =>
    intro line rest hbare ih taken filled h hline
    have hparts : bytes.data.toList.drop taken = line ++ ([13, 10] ++ rest) := hline
    have hreturn : 10 ∉ line ++ [13] := by simpa using hbare.not_feed
    rw [List.append_cons line 13, lines_feed hreturn, dropReturn_return]
    exact takes_line h hparts hbare (.both rest) nofun fun filled' h' => ih _ _ h' (hdrop hparts)

end Reading

/-! ## The cursor's own window -/

namespace LineCursor

/-- A window that is filled with 8192 bytes at once, as long as there are that many. -/
def ownReading (size : Nat) : Reading size where
  fill i := min size (i + windowSize)
  reads i hi := by
    have hpos : 0 < windowSize := by decide
    omega
  within i hi := by omega

variable {bytes : ByteArray} {taken filled left : Nat}

/-- The cursor's own window is filled when it is used up, by as many bytes as it holds or as the file has. -/
theorem ahead_ownReading (h : taken ≤ filled) :
    (ownReading bytes.size).ahead taken filled = if filled == taken then min bytes.size (filled + windowSize) else filled := by
  unfold Reading.ahead
  by_cases heq : filled = taken
  · rw [if_neg (by omega), if_pos (beq_iff_eq.mpr heq), heq]
    rfl
  · rw [if_pos (by omega), if_neg (mt beq_iff_eq.mp heq)]

/-- The cursor passes over a line end as its way of reading does. -/
theorem skipLineEnd_eq (h : taken ≤ filled) :
    skipLineEnd bytes taken filled = (ownReading bytes.size).passLineEnd taken filled := by
  rw [skipLineEnd, Reading.passLineEnd, ahead_ownReading h]
  generalize (if filled == taken then min bytes.size (filled + windowSize) else filled) = shown
  dsimp only
  split
  · rename_i hfeed
    rw [if_pos hfeed]
  · rename_i hreturn
    have hfeed : ¬ byteBefore bytes shown taken = some 10 := by
      rw [hreturn]
      decide
    rw [if_neg hfeed, if_pos hreturn]
    by_cases hmore : taken + 1 < shown
    · rw [if_pos hmore, if_pos hmore]
    · -- The carriage return is the last byte shown.
      have hlt : taken < shown := lt_of_byteBefore hreturn
      have hfilled : (shown == taken + 1) = true := beq_iff_eq.mpr (by omega)
      rw [if_neg hmore, if_neg hmore, ahead_ownReading hlt, if_pos hfilled]
  · rename_i hfeed hreturn
    rw [if_neg hfeed, if_neg hreturn]

/-- A line ends after as many bytes as may be taken, or before. -/
theorem lineEnd_le (bytes : ByteArray) (left i : Nat) : i ≤ lineEnd bytes left i ∧ lineEnd bytes left i ≤ i + left := by
  induction left generalizing i with
  | zero => exact ⟨Nat.le_refl i, Nat.le_refl i⟩
  | succ left ih =>
    have hrest := ih (i + 1)
    rw [lineEnd]
    split <;> omega

/-- A window that is filled far enough is not filled again. -/
theorem refill_of_le {target size : Nat} (h : target ≤ filled) : refill filled target size = filled :=
  if_pos h

/-- A window that does not show all up to `target` is filled once, and again as long as it does not. -/
theorem refill_once {target size : Nat} (h : filled < target) (hwithin : target ≤ size) :
    refill filled target size = refill (min size (filled + windowSize)) target size := by
  rw [refill, refill, if_neg (Nat.not_le.mpr h), windowSize]
  split <;> omega

/-- Filling a window up to a position beyond the one taken fills it ahead first. -/
theorem refill_ahead {target : Nat} (h : Reading.InWindow bytes.size taken filled) (hlt : taken < target)
    (hwithin : target ≤ bytes.size) :
    refill filled target bytes.size = refill ((ownReading bytes.size).ahead taken filled) target bytes.size := by
  have hle := h.le
  rw [ahead_ownReading hle]
  split
  · rename_i hempty
    exact refill_once (eq_of_beq hempty ▸ hlt) hwithin
  · rfl

/-- The window is filled as often as what was taken needs. -/
theorem refill_takeLine (left : Nat) (h : Reading.InWindow bytes.size taken filled) :
    ((ownReading bytes.size).takeLine left taken filled).2 =
      refill filled ((ownReading bytes.size).takeLine left taken filled).1 bytes.size := by
  induction left generalizing taken filled with
  | zero => exact (refill_of_le h.le).symm
  | succ left ih =>
    have hahead := Reading.inWindow_ahead (r := ownReading bytes.size) h
    have hle := h.le
    have hwithin := h.within
    rw [Reading.takeLine]
    by_cases hend : taken < bytes.size
    · have hlt := Reading.lt_ahead (r := ownReading bytes.size) filled hend
      rw [if_neg (Nat.not_le.mpr hlt)]
      split
      · rw [refill_ahead h (Nat.lt_succ_self taken) hend, refill_of_le hlt]
      · have hnext : Reading.InWindow bytes.size (taken + 1) ((ownReading bytes.size).ahead taken filled) := ⟨hlt, hahead.within⟩
        obtain ⟨hstop, hwindow⟩ := Reading.takeLine_spec (r := ownReading bytes.size) left hnext
        have htaken := (lineEnd_le bytes (min left (bytes.size - (taken + 1))) (taken + 1)).1
        rw [ih hnext, refill_ahead h (by omega) (Nat.le_trans hwindow.le hwindow.within)]
    · have hall : (ownReading bytes.size).ahead taken filled = filled := by
        rw [ahead_ownReading hle]
        split <;> omega
      rw [hall, if_pos (by omega), refill_of_le hle]

/-- A line ends with a line feed, or after all bytes that may be taken. -/
theorem lineEnd_eq_or (bytes : ByteArray) (left i : Nat) :
    lineEnd bytes left i = i + left ∨ bytes[lineEnd bytes left i - 1]? = some 10 := by
  induction left generalizing i with
  | zero => exact .inl rfl
  | succ left ih =>
    rw [lineEnd]
    split
    · rename_i hfeed
      exact .inr (eq_of_beq hfeed)
    · exact (ih (i + 1)).imp_left fun heq => by omega

/-- What stops neither at a line feed nor at the greatest size stops at the end of the file. -/
theorem lineEnd_atEnd (h : taken ≤ bytes.size) {stop : Nat}
    (hstop : lineEnd bytes (min maxLine (bytes.size - taken)) taken = stop)
    (hatEnd : (!(stop - taken == maxLine && bytes[stop - 1]? != some 10) && bytes[stop - 1]? != some 10) = true) :
    stop = bytes.size := by
  rw [Bool.and_eq_true, Bool.not_eq_true'] at hatEnd
  obtain ⟨hshort, hfeed⟩ := hatEnd
  rw [hfeed, Bool.and_true, beq_eq_false_iff_ne] at hshort
  have hlength := (lineEnd_eq_or bytes (min maxLine (bytes.size - taken)) taken).resolve_right (hstop ▸ bne_iff_ne.mp hfeed)
  omega

/-- The cursor takes its pieces through a window of its own. -/
theorem nextPiece_eq (h : Reading.InWindow bytes.size taken filled) :
    nextPiece bytes taken filled = (ownReading bytes.size).piece? taken filled := by
  obtain ⟨hstop, hwindow⟩ := Reading.takeLine_spec (r := ownReading bytes.size) maxLine h
  have hfilled := refill_takeLine maxLine h
  rw [hstop] at hwindow hfilled
  have hends := lineEnd_atEnd (Nat.le_trans h.le h.within) rfl
  simp only [nextPiece, Reading.piece?, hstop]
  generalize lineEnd bytes (min maxLine (bytes.size - taken)) taken = stop at *
  have hshown : refill filled (if (!(stop - taken == maxLine && bytes[stop - 1]? != some 10) && bytes[stop - 1]? != some 10) = true
      then bytes.size else stop) bytes.size = ((ownReading bytes.size).takeLine maxLine taken filled).2 := by
    rw [hfilled]
    split
    · rw [← hends ‹_›]
    · rfl
  rw [hshown, skipLineEnd_eq hwindow.le]

/-! ## Lines that are handed out -/

/-- The text of a piece. -/
def text (piece : List UInt8) : String :=
  .ofList (Utf8.read piece).done.reverse

/-- The lines that a cursor hands out until there are none and will be none. -/
inductive Drains (files : Files) : LineCursor → List String → Prop
  | done {c c' : LineCursor} (h : next files c = .ok (none, c')) (hover : next files c' = .ok (none, c')) : Drains files c []
  | line {c c' : LineCursor} {line : String} {lines : List String} (h : next files c = .ok (some line, c'))
      (hrest : Drains files c' lines) : Drains files c (line :: lines)

variable {files : Files} {names : List String}

/-- A file that is read from a position on, or was closed. -/
def reading (names : List String) : Option (Nat × Nat) → LineCursor
  | none => closed
  | some (taken, filled) => file names taken filled

/-- The cursor hands out the texts of the pieces. -/
theorem next_reading (hcontent : files.content? names = some bytes) {c : Option (Nat × Nat)}
    (h : ∀ place ∈ c, Reading.InWindow bytes.size place.1 place.2) :
    next files (reading names c) =
      .ok (((ownReading bytes.size).next c).1.map text, reading names ((ownReading bytes.size).next c).2) := by
  cases c with
  | none => rfl
  | some place =>
    have hpiece := nextPiece_eq (h place rfl)
    rw [reading, next, Reading.next, hcontent, Option.getD_some, hpiece]
    split
    · rename_i hnone
      simp only [hnone]
      rfl
    · rename_i hsome
      simp only [hsome]
      rfl

/-- The pieces that the cursor's own reading takes drain the cursor, as texts. -/
theorem drains_of_takes (hcontent : files.content? names = some bytes) {c : Option (Nat × Nat)} {pieces : List (List UInt8)}
    (htakes : (ownReading bytes.size).Takes c pieces) (h : ∀ place ∈ c, Reading.InWindow bytes.size place.1 place.2) :
    Drains files (reading names c) (pieces.map text) := by
  induction htakes with
  | done hnone hover =>
    have hnext := next_reading hcontent h
    have hwindow := Reading.inWindow_next (r := ownReading bytes.size) h
    rw [hnone] at hnext hwindow
    have hagain := next_reading hcontent hwindow
    rw [hover] at hagain
    exact .done hnext hagain
  | piece hsome _ ih =>
    have hnext := next_reading hcontent h
    have hwindow := Reading.inWindow_next (r := ownReading bytes.size) h
    rw [hsome] at hnext hwindow
    exact .line hnext (ih hwindow)

/-- The content of a file is found where its path leads. -/
theorem content?_of_find {path name : String} (h : files.find path = .ok (.entry names (.file name bytes))) :
    files.content? names = some bytes := by
  obtain ⟨-, -, hnode⟩ := Files.find_eq_entry.mp h
  rw [Files.content?, hnode]

/-- In a file whose carriage returns all stand directly before a line feed, the pieces are the lines, each cut at every 65535 bytes,
however the window is filled, and a read loop hands out their texts. -/
theorem hands_out_lines (bytes : ByteArray) (h : ReturnsPaired bytes.data.toList) :
    (∀ r : Reading bytes.size, r.Takes (some (0, 0)) ((lines bytes.data.toList).flatMap cut)) ∧
      ∀ (files : Files) (path name : String) (names : List String),
        files.find path = .ok (.entry names (.file name bytes)) →
          Drains files (start files path) (((lines bytes.data.toList).flatMap cut).map text) := by
  refine ⟨fun r => r.takes_lines h, fun files path name names hfind => ?_⟩
  have hstart : start files path = reading names (some (0, 0)) := by
    rw [start, hfind]
    rfl
  rw [hstart]
  refine drains_of_takes (content?_of_find hfind) (Reading.takes_lines _ h) ?_
  intro place hplace
  obtain rfl := Option.some.inj hplace
  exact ⟨Nat.le_refl 0, Nat.zero_le _⟩

/-- The file `a\r\n\nb` has the lines `a`, nothing and `b`. -/
theorem hands_out_lines_mixed :
    let bytes : ByteArray := ⟨#[97, 13, 10, 10, 98]⟩
    let files : Files := ⟨[.file "f" bytes]⟩
    (ReturnsPaired bytes.data.toList ∧ ∀ r : Reading bytes.size, r.Takes (some (0, 0)) [[97], [], [98]]) ∧
      files.find "f" = .ok (.entry ["f"] (.file "f" bytes)) ∧ Drains files (start files "f") ["a", "", "b"] := by
  intro bytes files
  have hpaired : ReturnsPaired bytes.data.toList :=
    .cons (by decide) (.cons (by decide) (.cons (by decide) (.cons (by decide) (.cons (by decide) .nil))))
  have hcut : (lines bytes.data.toList).flatMap cut = [[97], [], [98]] := by
    have hlines : lines bytes.data.toList = [[97], [], [98]] := by decide
    rw [hlines, List.flatMap_cons, List.flatMap_cons, List.flatMap_cons, cut_short (by decide), cut_short (by decide),
      cut_short (by decide)]
    rfl
  have hfind : files.find "f" = .ok (.entry ["f"] (.file "f" bytes)) := by rfl
  have htexts : ([[97], [], [98]] : List (List UInt8)).map text = ["a", "", "b"] := by decide
  have hlines := hands_out_lines bytes hpaired
  rw [hcut, htexts] at hlines
  exact ⟨⟨hpaired, hlines.1⟩, hfind, hlines.2 files "f" "f" ["f"] hfind⟩

end LineCursor

end LineScript
