import LineScript.Loop.Keys
import LineScript.Proofs.Text.Lower
import LineScript.Proofs.Text.Pieces
import LineScript.Proofs.Variables.Names
import Mathlib.Data.List.Induction

/-!
# Paths of keys

A path consists of parts with backslashes between them. Where no part is blank, the parts can be read back from the path
(`Registry.parts_path`), the key above is the path of all parts but the last one (`Registry.isWithin_path_iff`), and the
lower-case form of a path is that of its parts (`Registry.normal_path`). Any other text that is taken for a path holds a blank
part.
-/

namespace LineScript

open Text

/-! ## Parts -/

namespace Registry

/-- Cuts a path at its last backslash. -/
theorem exists_parentPath {s : String} (h : has s '\\' = true) :
    ∃ last : String, '\\' ∉ last.toList ∧ s = parentPath s ++ "\\" ++ last := by
  have hslash : '\\' ∈ s.toList.reverse := by simpa [has] using h
  have hwhole := List.takeWhile_append_dropWhile (p := (· != '\\')) (l := s.toList.reverse)
  have htaken : ∀ c ∈ s.toList.reverse.takeWhile (· != '\\'), (c != '\\') = true := List.all_eq_true.mp List.all_takeWhile
  cases hrest : s.toList.reverse.dropWhile (· != '\\') with
  | nil =>
    rw [hrest, List.append_nil] at hwhole
    rw [← hwhole] at hslash
    exact absurd (htaken _ hslash) (by decide)
  | cons c rest =>
    have hc : c = '\\' := by
      have hnot := List.head?_dropWhile_not (· != '\\') s.toList.reverse
      rw [hrest] at hnot
      simpa using hnot
    refine ⟨.ofList (s.toList.reverse.takeWhile (· != '\\')).reverse, ?_, String.toList_injective ?_⟩
    · rw [String.toList_ofList, List.mem_reverse]
      intro hmem
      exact absurd (htaken _ hmem) (by decide)
    · have hlist := congrArg List.reverse hwhole
      rw [hrest, hc, List.reverse_append, List.reverse_reverse, List.reverse_cons] at hlist
      simp only [parentPath, hrest, List.drop_succ_cons, List.drop_zero, String.toList_append, String.toList_ofList]
      exact hlist.symm

/-- The path above a last part is what stands before its backslash. -/
theorem parentPath_append (above : String) {last : String} (h : '\\' ∉ last.toList) :
    parentPath (above ++ "\\" ++ last) = above := by
  have hlist : (above ++ "\\" ++ last).toList.reverse = last.toList.reverse ++ '\\' :: above.toList.reverse := by simp
  have hlast : ∀ c ∈ last.toList.reverse, (c != '\\') = true := by
    intro c hc
    refine bne_iff_ne.mpr fun hslash => h ?_
    exact hslash ▸ List.mem_reverse.mp hc
  rw [parentPath, hlist, List.dropWhile_append_of_pos hlast, List.dropWhile_cons_of_neg (by decide)]
  simp

/-- A text is made by putting one part after the other. -/
theorem cut_induction {motive : String → Prop} (single : ∀ s : String, '\\' ∉ s.toList → motive s)
    (concat : ∀ above last : String, '\\' ∉ last.toList → motive above → motive (above ++ "\\" ++ last)) (s : String) :
    motive s := by
  induction hn : s.toList.length using Nat.strongRecOn generalizing s with
  | _ n ih =>
    by_cases hhas : has s '\\' = true
    · obtain ⟨last, hlast, hs⟩ := exists_parentPath hhas
      have hlength : (parentPath s).toList.length < n := by
        rw [← hn]
        conv => rhs; rw [hs]
        simp
      rw [hs]
      exact concat _ last hlast (ih _ hlength _ rfl)
    · exact single s (by simpa [has] using hhas)

/-- A text without backslashes is one piece. -/
theorem splitBy_single {s : String} (h : '\\' ∉ s.toList) : splitBy (· == '\\') s.toList = [s.toList] := by
  refine splitBy_of_forall fun c hc => Bool.eq_false_iff.mpr fun hslash => h ?_
  rwa [← eq_of_beq hslash]

/-- The pieces of a text that goes on with a backslash and a last part are those before and that part. -/
theorem splitBy_concat (above : String) {last : String} (h : '\\' ∉ last.toList) :
    splitBy (· == '\\') (above ++ "\\" ++ last).toList = splitBy (· == '\\') above.toList ++ [last.toList] := by
  have hlist : (above ++ "\\" ++ last).toList = above.toList ++ '\\' :: last.toList := by simp
  rw [hlist, splitBy_append rfl, splitBy_single h]

/-- A part of a path: it is not blank and holds no backslash. -/
structure Part where
  /-- Its text. -/
  text : String
  /-- It is not blank. -/
  nonblank : text ≠ ""
  /-- It is a single part. -/
  single : '\\' ∉ text.toList

theorem Part.ext {a b : Part} (h : a.text = b.text) : a = b := by
  cases a
  cases b
  cases h
  rfl

/-- A part in lower case. -/
def Part.lower (part : Part) : Part :=
  ⟨Text.lower part.text, mt lower_eq_empty_iff.mp part.nonblank, not_mem_lower part.single⟩

/-- The path of some parts. -/
def path (ps : List Part) : String :=
  ps.foldl (fun above part => KeyCursor.join above part.text) ""

/-- The path of some parts and one more is that of the parts, joined with it. -/
theorem path_concat (ps : List Part) (part : Part) : path (ps ++ [part]) = KeyCursor.join (path ps) part.text := by
  rw [path, List.foldl_append]
  rfl

/-- Only the path of no parts is blank. -/
theorem path_eq_empty_iff {ps : List Part} : path ps = "" ↔ ps = [] := by
  refine ⟨fun h => ?_, fun h => by rw [h]; rfl⟩
  induction ps using List.reverseRecOn with
  | nil => rfl
  | append_singleton ps part _ =>
    rw [path_concat, KeyCursor.join] at h
    split at h
    · exact absurd h part.nonblank
    · simp at h

/-- A name is joined to a path with a backslash between them. -/
theorem join_of_ne_empty {above : String} (h : above ≠ "") (name : String) :
    KeyCursor.join above name = above ++ "\\" ++ name := by
  rw [KeyCursor.join, if_neg (by simpa using h)]

theorem join_empty (name : String) : KeyCursor.join "" name = name := rfl

/-- A path goes on with a backslash. -/
theorem path_append {ps qs : List Part} (hps : ps ≠ []) (hqs : qs ≠ []) : path (ps ++ qs) = path ps ++ "\\" ++ path qs := by
  have hne : path ps ≠ "" := mt path_eq_empty_iff.mp hps
  induction qs using List.reverseRecOn with
  | nil => exact absurd rfl hqs
  | append_singleton qs part ih =>
    by_cases hqs : qs = []
    · subst hqs
      rw [List.nil_append, path_concat, join_of_ne_empty hne]
      rfl
    · have happ : path (ps ++ qs) ≠ "" := mt path_eq_empty_iff.mp (by simp [hps])
      rw [← List.append_assoc, path_concat, join_of_ne_empty happ, path_concat,
        join_of_ne_empty (mt path_eq_empty_iff.mp hqs), ih hqs]
      simp only [String.append_assoc]

/-- The lower case of a path is the path of its parts in lower case. -/
theorem lower_path (ps : List Part) : Text.lower (path ps) = path (ps.map Part.lower) := by
  induction ps using List.reverseRecOn with
  | nil => rfl
  | append_singleton ps part ih =>
    rw [List.map_append, List.map_singleton, path_concat, path_concat, ← ih]
    by_cases hps : path ps = ""
    · rw [hps]
      rfl
    · rw [join_of_ne_empty hps, join_of_ne_empty (mt lower_eq_empty_iff.mp hps), lower_backslash]
      rfl

/-- The pieces of a path are its parts. -/
theorem splitBy_path {ps : List Part} (h : ps ≠ []) :
    splitBy (· == '\\') (path ps).toList = ps.map fun part => part.text.toList := by
  induction ps using List.reverseRecOn with
  | nil => exact absurd rfl h
  | append_singleton ps part ih =>
    by_cases hps : ps = []
    · subst hps
      exact splitBy_single part.single
    · rw [path_concat, join_of_ne_empty (mt path_eq_empty_iff.mp hps), splitBy_concat _ part.single, ih hps]
      simp

theorem toList_ne_nil (part : Part) : part.text.toList ≠ [] :=
  fun h => part.nonblank (String.toList_eq_nil_iff.mp h)

/-- The parts of a path are read back from it. -/
theorem parts_path (ps : List Part) : parts (path ps) = ps.map Part.text := by
  by_cases hps : ps = []
  · subst hps
    rfl
  · rw [parts, splitBy_path hps, List.filter_eq_self.mpr, List.map_map]
    · exact List.map_congr_left fun part _ => String.ofList_toList
    · rintro _ hpart
      obtain ⟨part, -, rfl⟩ := List.mem_map.mp hpart
      simpa using toList_ne_nil part

/-- Different parts have different paths. -/
theorem path_injective {ps qs : List Part} (h : path ps = path qs) : ps = qs := by
  have hparts := congrArg parts h
  rw [parts_path, parts_path] at hparts
  exact (List.map_inj_right fun _ _ => Part.ext).mp hparts

/-- The texts between backslashes are parts, where they are not blank. -/
theorem exists_parts (key : String) : ∃ ps : List Part, parts key = ps.map Part.text := by
  have hpart : ∀ text ∈ parts key, text ≠ "" ∧ '\\' ∉ text.toList := by
    intro text htext
    obtain ⟨piece, hpiece, rfl⟩ := List.mem_map.mp htext
    rw [List.mem_filter] at hpiece
    refine ⟨by simpa using hpiece.2, fun hslash => ?_⟩
    rw [String.toList_ofList] at hslash
    exact absurd (not_of_mem_splitBy hpiece.1 _ hslash) (by decide)
  refine ⟨(parts key).attach.map fun text => ⟨text.1, (hpart _ text.2).1, (hpart _ text.2).2⟩, ?_⟩
  rw [List.map_map]
  exact (List.attach_map_subtype_val _).symm

/-! ## Blank parts -/

/-- Whether a path holds a blank part, as it does if it is blank. -/
def holdsBlank (path : String) : Bool :=
  (splitBy (· == '\\') path.toList).any (·.isEmpty)

/-- The path of some parts holds no blank part. -/
theorem holdsBlank_path {ps : List Part} (h : ps ≠ []) : holdsBlank (path ps) = false := by
  rw [holdsBlank, splitBy_path h, List.any_map, List.any_eq_false]
  intro part _
  simpa using toList_ne_nil part

theorem isEmpty_toList (s : String) : s.toList.isEmpty = s.isEmpty := by
  rw [Bool.eq_iff_iff, List.isEmpty_iff, String.isEmpty_iff, String.toList_eq_nil_iff]

/-- A text without backslashes holds a blank part only if it is blank. -/
theorem holdsBlank_single {s : String} (h : '\\' ∉ s.toList) : holdsBlank s = s.isEmpty := by
  rw [holdsBlank, splitBy_single h, List.any_cons, List.any_nil, Bool.or_false, isEmpty_toList]

/-- A blank part is either before the last backslash or is the last part. -/
theorem holdsBlank_concat (above : String) {last : String} (h : '\\' ∉ last.toList) :
    holdsBlank (above ++ "\\" ++ last) = (holdsBlank above || last.isEmpty) := by
  rw [holdsBlank, splitBy_concat above h, List.any_append, List.any_cons, List.any_nil, Bool.or_false, isEmpty_toList]
  rfl

/-- A path without blank parts consists of parts. -/
theorem exists_path {s : String} (h : holdsBlank s = false) : ∃ ps, ps ≠ [] ∧ path ps = s := by
  induction s using cut_induction with
  | single s hs =>
    rw [holdsBlank_single hs] at h
    exact ⟨[⟨s, by simpa using h, hs⟩], by simp, rfl⟩
  | concat above last hlast ih =>
    rw [holdsBlank_concat above hlast, Bool.or_eq_false_iff] at h
    obtain ⟨ps, hps, hpath⟩ := ih h.1
    refine ⟨ps ++ [⟨last, by simpa using h.2, hlast⟩], by simp, ?_⟩
    rw [path_concat, join_of_ne_empty (mt path_eq_empty_iff.mp hps), hpath]

/-- Blank parts stay blank in lower case, and no others become blank. -/
theorem holdsBlank_lower (s : String) : holdsBlank (Text.lower s) = holdsBlank s := by
  have hempty (s : String) : (Text.lower s).isEmpty = s.isEmpty := by
    rw [Bool.eq_iff_iff, String.isEmpty_iff, String.isEmpty_iff, lower_eq_empty_iff]
  induction s using cut_induction with
  | single s hs => rw [holdsBlank_single hs, holdsBlank_single (not_mem_lower hs), hempty]
  | concat above last hlast ih =>
    rw [lower_backslash, holdsBlank_concat _ hlast, holdsBlank_concat _ (not_mem_lower hlast), ih, hempty]

/-! ## Texts taken for paths -/

/-- Whether no backslash stands at either end of a text. -/
def Trimmed (s : String) : Prop :=
  trimBy (· == '\\') s = s

/-- A trimmed text neither starts nor ends with a backslash. -/
theorem Trimmed.ne_backslash {s : String} (h : Trimmed s) :
    (∀ c, s.toList.head? = some c → c ≠ '\\') ∧ ∀ c, s.toList.getLast? = some c → c ≠ '\\' := by
  have hlist : trimList (· == '\\') s.toList = s.toList := by
    conv => rhs; rw [← h]
    rw [trimBy, String.toList_ofList]
  constructor
  · intro c hc
    rw [← hlist] at hc
    exact ne_of_beq_false (not_head?_trimList (p := (· == '\\')) hc)
  · intro c hc
    rw [← hlist] at hc
    exact ne_of_beq_false (not_getLast?_trimList (p := (· == '\\')) hc)

/-- A text that neither starts nor ends with a backslash is trimmed. -/
theorem trimmed_of_ne {s : String} (hhead : ∀ c, s.toList.head? = some c → c ≠ '\\')
    (hlast : ∀ c, s.toList.getLast? = some c → c ≠ '\\') : Trimmed s := by
  rw [Trimmed, trimBy, trimList_eq_self (fun c hc => beq_false_of_ne (hhead c hc)) fun c hc => beq_false_of_ne (hlast c hc),
    String.ofList_toList]

/-- A text is trimmed after the backslashes at its ends were taken off. -/
theorem trimmed_trimBy (s : String) : Trimmed (trimBy (· == '\\') s) := by
  rw [Trimmed, trimBy, trimBy, String.toList_ofList, trimList_trimList fun _ h => h]

/-- A path of parts is trimmed. -/
theorem trimmed_path (ps : List Part) : Trimmed (path ps) := by
  have hpart {part : Part} {c : Char} (hc : c ∈ part.text.toList) : c ≠ '\\' := fun h => part.single (h ▸ hc)
  refine trimmed_of_ne ?_ ?_
  · cases ps with
    | nil => exact nofun
    | cons part ps =>
      obtain ⟨rest, hrest⟩ : ∃ rest, (path (part :: ps)).toList = part.text.toList ++ rest := by
        by_cases hps : ps = []
        · exact ⟨[], by rw [hps, List.append_nil]; rfl⟩
        · refine ⟨'\\' :: (path ps).toList, ?_⟩
          rw [← List.singleton_append, path_append (List.cons_ne_nil _ _) hps]
          simp [path, join_empty]
      intro c hc
      obtain ⟨d, ds, hpieces⟩ := List.exists_cons_of_ne_nil (toList_ne_nil part)
      rw [hrest, hpieces] at hc
      cases hc
      exact hpart (hpieces ▸ List.mem_cons_self)
  · induction ps using List.reverseRecOn with
    | nil => exact nofun
    | append_singleton ps part _ =>
      obtain ⟨front, hfront⟩ : ∃ front, (path (ps ++ [part])).toList = front ++ part.text.toList := by
        rw [path_concat, KeyCursor.join]
        split
        · exact ⟨[], rfl⟩
        · exact ⟨(path ps).toList ++ ['\\'], by simp⟩
      intro c hc
      rw [hfront, List.getLast?_append] at hc
      cases hlast : part.text.toList.getLast? with
      | none => exact absurd (List.getLast?_eq_none_iff.mp hlast) (toList_ne_nil part)
      | some d =>
        rw [hlast] at hc
        cases hc
        exact hpart (List.mem_of_getLast? hlast)

/-- A text without backslashes at its ends has none there in lower case. -/
theorem Trimmed.lower {s : String} (h : Trimmed s) : Trimmed (Text.lower s) := by
  refine trimmed_of_ne ?_ ?_
  · rintro c hc rfl
    exact h.ne_backslash.1 _ (head?_of_lower hc) rfl
  · rintro c hc rfl
    exact h.ne_backslash.2 _ (getLast?_of_lower hc) rfl

/-- A path of parts is filed under its parts in lower case. -/
theorem normal_path (ps : List Part) : normal (path ps) = path (ps.map Part.lower) := by
  rw [normal, trimmed_path, lower_path]

theorem normal_empty : normal "" = "" :=
  normal_path []

/-- The parts of a key are those of its trimmed text. -/
theorem parts_trimBy (key : String) : parts (trimBy (· == '\\') key) = parts key := by
  rw [parts, trimBy, String.toList_ofList, filter_splitBy_trimList]
  rfl

/-! ## Keys directly within others -/

/-- Whether a path is directly below another one, as the registry decides it. -/
def isWithin (above s : String) : Bool :=
  if has s '\\' then parentPath s == above else above.isEmpty

/-- A path of parts is directly below the path of all its parts but the last one, and below no other path of parts. -/
theorem isWithin_path_iff {as ps : List Part} {part : Part} : isWithin (path as) (path (ps ++ [part])) = true ↔ ps = as := by
  by_cases hps : ps = []
  · subst hps
    have hhas : has (path ([] ++ [part])) '\\' = false := by simpa [has, path, KeyCursor.join] using part.single
    rw [isWithin, hhas, if_neg Bool.false_ne_true, String.isEmpty_iff, path_eq_empty_iff]
    exact eq_comm
  · have hpath : path (ps ++ [part]) = path ps ++ "\\" ++ part.text := by
      rw [path_concat, join_of_ne_empty (mt path_eq_empty_iff.mp hps)]
    have hhas : has (path (ps ++ [part])) '\\' = true := by
      rw [hpath]
      simp [has]
    rw [isWithin, hhas, if_pos rfl, hpath, parentPath_append _ part.single, beq_iff_eq]
    exact ⟨path_injective, fun h => h ▸ rfl⟩

/-- A blank part hides a key from the key above it. Only a blank path is found, and that directly below itself. -/
theorem isWithin_of_holdsBlank {as : List Part} {s : String} (htrimmed : Trimmed s) (hblank : holdsBlank s = true) :
    isWithin (path as) s = true ↔ as = [] ∧ s = "" := by
  constructor
  · intro h
    by_cases hhas : has s '\\' = true
    · obtain ⟨last, hlast, hs⟩ := exists_parentPath hhas
      rw [isWithin, if_pos hhas, beq_iff_eq] at h
      rw [h] at hs
      have hlist : s.toList = (path as).toList ++ '\\' :: last.toList := by
        rw [hs]
        simp
      by_cases has : as = []
      · subst has
        exact absurd rfl (htrimmed.ne_backslash.1 '\\' (by rw [hlist]; rfl))
      · have hne : last ≠ "" := by
          rintro rfl
          exact htrimmed.ne_backslash.2 '\\' (by rw [hlist]; simp) rfl
        have hpath : path (as ++ [⟨last, hne, hlast⟩]) = s := by
          rw [path_concat, join_of_ne_empty (mt path_eq_empty_iff.mp has), hs]
        rw [← hpath, holdsBlank_path (by simp)] at hblank
        cases hblank
    · rw [isWithin, if_neg hhas, String.isEmpty_iff, path_eq_empty_iff] at h
      refine ⟨h, Classical.byContradiction fun hne => ?_⟩
      have hslash : '\\' ∉ s.toList := by simpa [has] using hhas
      rw [show s = path [⟨s, hne, hslash⟩] from rfl, holdsBlank_path (by simp)] at hblank
      cases hblank
  · rintro ⟨rfl, rfl⟩
    rfl

end Registry

end LineScript
