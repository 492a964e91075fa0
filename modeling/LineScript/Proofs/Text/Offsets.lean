import LineScript.Text.Basic

/-!
# Sizes and offsets

An offset in a text counts the bytes of the characters before it. Lemmas about offsets take a text as a list of characters that
falls into parts: cutting at the size of the first part gives that part (`Text.cut?_append`), and the part after it is the slice
from that size on (`Text.slice?_eq`).
-/

namespace LineScript

namespace Text

/-- The bytes of a text are added to those counted before. -/
theorem byteSize_foldl (cs : List Char) (n : Nat) : cs.foldl (fun n c => n + c.utf8Size) n = n + byteSize cs := by
  unfold byteSize
  induction cs generalizing n with
  | nil => rfl
  | cons c cs ih => rw [List.foldl_cons, List.foldl_cons, ih, ih (0 + c.utf8Size), Nat.zero_add, Nat.add_assoc]

theorem byteSize_cons (c : Char) (cs : List Char) : byteSize (c :: cs) = c.utf8Size + byteSize cs := by
  rw [byteSize, List.foldl_cons, byteSize_foldl, Nat.zero_add]

theorem byteSize_append (cs ds : List Char) : byteSize (cs ++ ds) = byteSize cs + byteSize ds := by
  induction cs with
  | nil => exact (Nat.zero_add _).symm
  | cons c cs ih => rw [List.cons_append, byteSize_cons, byteSize_cons, ih, Nat.add_assoc]

theorem byteSize_reverse (cs : List Char) : byteSize cs.reverse = byteSize cs := by
  induction cs with
  | nil => rfl
  | cons c cs ih => rw [List.reverse_cons, byteSize_append, ih, byteSize_cons, byteSize_cons, Nat.add_comm]; rfl

theorem byteSize_pos {cs : List Char} (h : cs ≠ []) : 0 < byteSize cs := by
  obtain ⟨c, rest, rfl⟩ := List.exists_cons_of_ne_nil h
  rw [byteSize_cons]
  exact Nat.lt_of_lt_of_le c.utf8Size_pos (Nat.le_add_right _ _)

/-- The characters of a text have as many bytes as the text. -/
theorem utf8ByteSize_ofList (cs : List Char) : (String.ofList cs).utf8ByteSize = byteSize cs := by
  induction cs with
  | nil => rfl
  | cons c cs ih =>
    have hsplit : String.ofList (c :: cs) = String.singleton c ++ String.ofList cs := by
      rw [String.singleton_eq_ofList, ← String.ofList_append]
      rfl
    rw [hsplit, String.utf8ByteSize_append, String.utf8ByteSize_singleton, ih, byteSize_cons]

theorem byteSize_toList (s : String) : byteSize s.toList = s.utf8ByteSize := by
  rw [← utf8ByteSize_ofList, String.ofList_toList]

/-- A cut after as many bytes as the first part has is between the two parts. -/
theorem cutOnto_append (taken lead cs : List Char) :
    cutOnto taken (lead ++ cs) (byteSize lead) = some (taken.reverse ++ lead, cs) := by
  induction lead generalizing taken with
  | nil => simp [byteSize, cutOnto]
  | cons c lead ih =>
    have hpos := c.utf8Size_pos
    obtain ⟨n, hn⟩ : ∃ n, byteSize (c :: lead) = n + 1 := ⟨byteSize (c :: lead) - 1, by rw [byteSize_cons]; omega⟩
    have hrest : n + 1 - c.utf8Size = byteSize lead := by rw [← hn, byteSize_cons]; omega
    have hfits : c.utf8Size ≤ n + 1 := by rw [← hn, byteSize_cons]; omega
    rw [hn, List.cons_append, cutOnto, if_pos hfits, hrest, ih, List.reverse_cons, List.append_assoc]
    rfl

/-- Cutting after a number of bytes takes off the characters that have so many. -/
theorem cut?_append (lead cs : List Char) : cut? (lead ++ cs) (byteSize lead) = some (lead, cs) :=
  cutOnto_append [] lead cs

/-- Characters that stand in a text are cut out of it by their offsets. -/
theorem slice?_eq {s : String} {before part after : List Char} (h : s.toList = before ++ (part ++ after)) :
    slice? s (byteSize before) (byteSize before + byteSize part) = some (.ofList part) := by
  have horder : ¬ byteSize before + byteSize part < byteSize before := Nat.not_lt.mpr (Nat.le_add_right _ _)
  simp only [slice?, if_neg horder, h, cut?_append, Nat.add_sub_cancel_left, Option.bind_eq_bind, Option.bind_some]
  rfl

theorem withOffsets_cons (start : Nat) (c : Char) (cs : List Char) :
    withOffsets start (c :: cs) = (start, c) :: withOffsets (start + c.utf8Size) cs := by
  have honto (cs : List Char) (done : List (Nat × Char)) (start : Nat) :
      (cs.foldl (fun (acc : List (Nat × Char) × Nat) c => ((acc.2, c) :: acc.1, acc.2 + c.utf8Size)) (done, start)).1 =
        (cs.foldl (fun (acc : List (Nat × Char) × Nat) c => ((acc.2, c) :: acc.1, acc.2 + c.utf8Size)) ([], start)).1 ++
          done := by
    induction cs generalizing done start with
    | nil => rfl
    | cons c cs ih =>
      rw [List.foldl_cons, List.foldl_cons, ih, ih [(start, c)], List.append_assoc]
      rfl
  rw [withOffsets, List.foldl_cons, honto, List.reverse_append]
  rfl

theorem map_snd_withOffsets (start : Nat) (cs : List Char) : (withOffsets start cs).map (·.2) = cs := by
  induction cs generalizing start with
  | nil => rfl
  | cons c cs ih => rw [withOffsets_cons, List.map_cons, ih]

theorem snd_mem_of_mem_withOffsets {start : Nat} {cs : List Char} {x : Nat × Char} (h : x ∈ withOffsets start cs) :
    x.2 ∈ cs := by
  induction cs generalizing start with
  | nil => cases h
  | cons c cs ih =>
    rw [withOffsets_cons] at h
    rcases List.mem_cons.mp h with rfl | h
    · exact List.mem_cons_self
    · exact List.mem_cons_of_mem _ (ih h)

/-- Offsets grow. -/
theorem pairwise_withOffsets (start : Nat) (cs : List Char) :
    (withOffsets start cs).Pairwise (·.1 ≤ ·.1) ∧ ∀ x ∈ withOffsets start cs, start ≤ x.1 := by
  induction cs generalizing start with
  | nil => exact ⟨.nil, nofun⟩
  | cons c cs ih =>
    obtain ⟨hsorted, hfrom⟩ := ih (start + c.utf8Size)
    have hlater : ∀ x ∈ withOffsets (start + c.utf8Size) cs, start ≤ x.1 := fun x hx => by
      have := hfrom x hx
      omega
    rw [withOffsets_cons]
    refine ⟨.cons hlater hsorted, fun x hx => ?_⟩
    rcases List.mem_cons.mp hx with rfl | hx
    · exact Nat.le_refl _
    · exact hlater x hx

end Text

end LineScript
