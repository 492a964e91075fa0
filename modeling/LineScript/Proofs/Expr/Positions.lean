import LineScript.Expr.Function
import LineScript.Proofs.Text.Places
import Mathlib

/-!
# Positions in texts

`InStr` finds the first place at or after a position where a text stands in another one, and `SubStr` takes what is left of a text
from a position on. What `InStr` finds is what `SubStr` takes, as long as case matters. Without regard to case `InStr` counts the
characters of the lower-case form, so it finds what `SubStr` takes just in the texts whose lower-case form keeps their places
(`Function.inStr_subStr`), and points beyond others (`Function.inStr_misses_dottedCapital`).
-/

namespace LineScript

namespace Text

theorem drop_cons_of_lt {c : Char} {cs : List Char} {i p : Nat} (h : i < p) : (c :: cs).drop (p - i) = cs.drop (p - (i + 1)) := by
  obtain ⟨k, rfl⟩ := Nat.exists_eq_add_of_lt h
  rw [show i + k + 1 - i = k + 1 by omega, show i + k + 1 - (i + 1) = k by omega, List.drop_succ_cons]

/-- What is found is the first place where something stands. -/
theorem findFrom_eq_some {needle : List Char} {i : Nat} {cs : List Char} {p : Nat} (h : findFrom needle i cs = some p) :
    i ≤ p ∧ needle <+: cs.drop (p - i) ∧ ∀ q, i ≤ q → q < p → ¬ needle <+: cs.drop (q - i) := by
  induction cs generalizing i with
  | nil =>
    rw [findFrom] at h
    split at h
    · rename_i hempty
      cases h
      exact ⟨Nat.le_refl _, by rw [List.isEmpty_iff.mp hempty]; exact List.nil_prefix, fun q hi hq => absurd hi (Nat.not_le.mpr hq)⟩
    · cases h
  | cons c cs ih =>
    rw [findFrom] at h
    split at h
    · rename_i hprefix
      cases h
      rw [Nat.sub_self]
      exact ⟨Nat.le_refl _, List.isPrefixOf_iff_prefix.mp hprefix, fun q hi hq => absurd hi (Nat.not_le.mpr hq)⟩
    · rename_i hprefix
      obtain ⟨hi, hfound, hfirst⟩ := ih h
      refine ⟨Nat.le_of_succ_le hi, by rwa [drop_cons_of_lt hi], fun q hq hlt => ?_⟩
      rcases Nat.lt_or_eq_of_le hq with hlater | rfl
      · rw [drop_cons_of_lt hlater]
        exact hfirst q hlater hlt
      · rw [Nat.sub_self]
        exact fun hhere => hprefix (List.isPrefixOf_iff_prefix.mpr hhere)

/-- Where nothing is found nothing stands. -/
theorem findFrom_eq_none {needle : List Char} {i : Nat} {cs : List Char} (h : findFrom needle i cs = none) (k : Nat) :
    ¬ needle <+: cs.drop k := by
  induction cs generalizing i k with
  | nil =>
    rw [findFrom] at h
    split at h
    · cases h
    · rename_i hempty
      rw [List.drop_nil, List.prefix_nil]
      exact fun hnil => hempty (List.isEmpty_iff.mpr hnil)
  | cons c cs ih =>
    rw [findFrom] at h
    split at h
    · cases h
    · rename_i hprefix
      cases k with
      | zero => exact fun hhere => hprefix (List.isPrefixOf_iff_prefix.mpr hhere)
      | succ k => exact ih h k

end Text

namespace Function

/-- The characters that are compared: those of the text, or of its lower-case form. -/
def compared (caseSensitive : Bool) (s : String) : List Char :=
  if caseSensitive then s.toList else (Text.lower s).toList

/-- Whether what is left of a text from a position on begins with a text. -/
def StandsAt (caseSensitive : Bool) (hay needle : String) (p : Nat) : Prop :=
  compared caseSensitive needle <+: compared caseSensitive (part hay p none)

/-- Whether a position is the first one at or after `start` that has a property, or zero if none up to `last` has it. -/
def IsFirst (holds : Nat → Prop) (start last p : Nat) : Prop :=
  (0 < p → start ≤ p ∧ holds p ∧ ∀ q, start ≤ q → q < p → ¬ holds q) ∧
    (p = 0 → ∀ q, start ≤ q → q ≤ last → ¬ holds q)

/-- Whether `InStr` gives the first position at or after `start` where `SubStr` takes something that begins with the text. -/
def FindsFirst (caseSensitive : Bool) (hay needle : String) (start : Nat) : Prop :=
  IsFirst (StandsAt caseSensitive hay needle) start hay.length (position hay needle caseSensitive start)

section

variable {hay needle : String} {caseSensitive : Bool} {start : Nat}

/-- The part of a text from a position on is what is left after the characters before it. -/
theorem part_of_pos (hay : String) {p : Nat} (hp : 1 ≤ p) : part hay p none = .ofList (hay.toList.drop (p - 1)) := by
  have hfirst : (if 1 ≤ (p : Int) then (p : Int) - 1 else max 0 (hay.toList.length - 1 + p)) = (p - 1 : Nat) := by
    split <;> omega
  simp only [part, hfirst, Int.ofNat_le, Int.toNat_natCast]
  split
  · rename_i hbeyond
    rw [List.drop_eq_nil_of_le hbeyond]
  · rw [List.take_of_length_le]
    rw [List.length_drop]
    omega

/-- A needle that is not blank has characters to compare. -/
theorem compared_ne_nil (h : needle ≠ "") (caseSensitive : Bool) : compared caseSensitive needle ≠ [] := by
  cases caseSensitive with
  | true => exact mt String.toList_eq_nil_iff.mp h
  | false => exact mt (String.toList_eq_nil_iff.mp ·) (mt Text.lower_eq_empty_iff.mp h)

/-- What is first by one predicate is first by another one that says the same from the start on. -/
theorem IsFirst.congr {holds holds' : Nat → Prop} {last p : Nat} (h : IsFirst holds start last p)
    (hsame : ∀ q, start ≤ q → (holds q ↔ holds' q)) : IsFirst holds' start last p := by
  refine ⟨fun hpos => ?_, fun hzero q hq hlast => mt (hsame q hq).mpr (h.2 hzero q hq hlast)⟩
  obtain ⟨hle, hfound, hfirst⟩ := h.1 hpos
  exact ⟨hle, (hsame p hle).mp hfound, fun q hq hlt => mt (hsame q hq).mpr (hfirst q hq hlt)⟩

/-- The position of a needle is where its compared form is first found in that of the text. -/
theorem position_eq (hneedle : needle ≠ "") : position hay needle caseSensitive start =
    (Text.findFrom (compared caseSensitive needle) start ((compared caseSensitive hay).drop (start - 1))).getD 0 := by
  have hsome := compared_ne_nil hneedle caseSensitive
  unfold compared at hsome ⊢
  simp only [position, List.isEmpty_iff, if_neg hsome]
  split
  · rename_i hfind
    rw [hfind]
    rfl
  · rename_i hfind
    rw [hfind]
    rfl

/-- `InStr` gives the first place where what is compared stands. -/
theorem position_isFirst (hneedle : needle ≠ "") (hstart : 1 ≤ start) (last : Nat) :
    IsFirst (fun q => compared caseSensitive needle <+: (compared caseSensitive hay).drop (q - 1)) start last
      (position hay needle caseSensitive start) := by
  have hsearch : IsFirst
      (fun q => compared caseSensitive needle <+: ((compared caseSensitive hay).drop (start - 1)).drop (q - start)) start last
      (position hay needle caseSensitive start) := by
    rw [position_eq hneedle]
    cases hfind : Text.findFrom (compared caseSensitive needle) start ((compared caseSensitive hay).drop (start - 1)) with
    | some p =>
      have hfound := Text.findFrom_eq_some hfind
      exact ⟨fun _ => hfound, fun hzero => absurd (hzero ▸ hfound.1) (Nat.not_le.mpr hstart)⟩
    | none => exact ⟨fun hpos => absurd hpos (Nat.lt_irrefl 0), fun _ q _ _ => Text.findFrom_eq_none hfind (q - start)⟩
  refine hsearch.congr fun q hq => ?_
  rw [List.drop_drop, show start - 1 + (q - start) = q - 1 by omega]

/-- `InStr` finds what `SubStr` takes if the characters that are compared of the end of a text are the end of those of the text. -/
theorem findsFirst_of_drop (hneedle : needle ≠ "") (hstart : 1 ≤ start)
    (hdrop : ∀ k, compared caseSensitive (.ofList (hay.toList.drop k)) = (compared caseSensitive hay).drop k) :
    FindsFirst caseSensitive hay needle start := by
  refine (position_isFirst hneedle hstart hay.length).congr fun q hq => ?_
  rw [StandsAt, part_of_pos hay (Nat.le_trans hstart hq), hdrop]

/-- A place where something stands in the lower-case form, though not in what `SubStr` takes, is found all the same. -/
theorem not_findsFirst {k : Nat} (hneedle : needle ≠ "")
    (hfound : compared caseSensitive needle <+: (compared caseSensitive hay).drop k)
    (hmissing : ¬ compared caseSensitive needle <+: compared caseSensitive (.ofList (hay.toList.drop k))) :
    ¬ FindsFirst caseSensitive hay needle (k + 1) := by
  intro hfinds
  have hfirst := @position_isFirst hay needle caseSensitive (k + 1) hneedle (Nat.le_add_left 1 k) (k + 1)
  have hpos : 0 < position hay needle caseSensitive (k + 1) :=
    Nat.pos_of_ne_zero fun hzero => hfirst.2 hzero (k + 1) (Nat.le_refl _) (Nat.le_refl _) hfound
  obtain ⟨hle, -, hnone⟩ := hfirst.1 hpos
  have hplace : position hay needle caseSensitive (k + 1) = k + 1 :=
    Nat.le_antisymm (Nat.not_lt.mp fun hlt => hnone (k + 1) (Nat.le_refl _) hlt hfound) hle
  have hstands := (hfinds.1 hpos).2.1
  rw [hplace, StandsAt, part_of_pos hay (Nat.le_add_left 1 k)] at hstands
  exact hmissing hstands

/-- A text in which `InStr` finds what `SubStr` takes without regard to case keeps its places. -/
theorem keepsPlaces_of_findsFirst (h : ∀ needle start, needle ≠ "" → 1 ≤ start → FindsFirst false hay needle start) :
    Text.KeepsPlaces hay.toList := by
  have hdotted : '\u0130' ∉ hay.toList := by
    -- otherwise the last character of the lower-case form lies beyond the text
    intro hmem
    obtain ⟨needle, x, hneedle, hlast⟩ := Text.exists_needle_of_last (List.ne_nil_of_mem hmem)
    have hlength := Text.length_lower hay
    have hcount := List.count_pos_iff.mpr hmem
    have hsome : needle ≠ "" := by
      rintro rfl
      cases hneedle
    refine not_findsFirst hsome ?_ ?_ (h needle _ hsome (Nat.le_add_left 1 ((Text.lower hay).toList.length - 1)))
    · exact ⟨[], (List.append_nil _).trans (hneedle.trans hlast.symm)⟩
    · change ¬ (Text.lower needle).toList <+: _
      rw [hneedle, List.drop_eq_nil_of_le (by omega)]
      exact fun hprefix => absurd (List.prefix_nil.mp hprefix) (List.cons_ne_nil _ _)
  refine ⟨hdotted, fun before after hhay hends => ?_⟩
  obtain ⟨⟨rest, hfound⟩, rest', hpart⟩ := Text.drop_lower_of_endsWord hhay hdotted hends
  have hneedle : (Text.lower "ς").toList = ['ς'] := by decide +kernel
  refine not_findsFirst (by decide) ?_ ?_ (h "ς" (before.length + 1) (by decide) (Nat.le_add_left 1 before.length))
  · change (Text.lower "ς").toList <+: (Text.lower hay).toList.drop _
    rw [hneedle, hfound]
    exact ⟨rest, rfl⟩
  · change ¬ (Text.lower "ς").toList <+: (Text.lower _).toList
    rw [hneedle, hpart, List.cons_prefix_cons]
    exact fun hsame => absurd hsame.1 (by decide)

/-- Called on a text, `InStr` gives the position of the needle from the start on. -/
theorem call_inStr (hay needle : String) (mode : Value) {start : Int64} (hstart : 1 ≤ start.toInt) :
    call "InStr" [.text hay, .text needle, mode, .int start] =
      .ok (.int (Int64.ofNat (position hay needle mode.isTrue start.toInt.toNat))) := by
  change Except.ok (Value.int (Int64.ofNat (position hay needle mode.isTrue (max 1 start.toInt).toNat))) = _
  rw [Int.max_eq_right hstart]

/-- Called on a text and a position, `SubStr` gives the part from there on. -/
theorem call_subStr (hay : String) {p : Nat} (hp : p < 2 ^ 63) :
    call "SubStr" [.text hay, .int (Int64.ofNat p)] = .ok (.text (part hay p none)) := by
  change Except.ok (Value.text (part hay (Int64.ofNat p).toInt none)) = _
  rw [Int64.toInt_ofNat_of_lt hp]

/-- Where case matters `InStr` finds what `SubStr` takes. Where it does not, that is so just in the texts that keep their places. -/
theorem inStr_subStr (hay : String) :
    (∀ needle start, needle ≠ "" → 1 ≤ start → FindsFirst true hay needle start) ∧
    ((∀ needle start, needle ≠ "" → 1 ≤ start → FindsFirst false hay needle start) ↔ Text.KeepsPlaces hay.toList) ∧
    (∀ (needle : String) (mode : Value) (start : Int64), 1 ≤ start.toInt →
      call "InStr" [.text hay, .text needle, mode, .int start] =
        .ok (.int (Int64.ofNat (position hay needle mode.isTrue start.toInt.toNat)))) ∧
    ∀ p : Nat, p < 2 ^ 63 → call "SubStr" [.text hay, .int (Int64.ofNat p)] = .ok (.text (part hay p none)) := by
  refine ⟨fun needle start hneedle hstart => ?_, ⟨keepsPlaces_of_findsFirst, fun hkeeps needle start hneedle hstart => ?_⟩, ?_, ?_⟩
  · exact findsFirst_of_drop hneedle hstart fun k => String.toList_ofList
  · exact findsFirst_of_drop hneedle hstart fun k => (hkeeps.drop_lower k).symm
  · exact fun needle mode start hstart => call_inStr hay needle mode hstart
  · exact fun p hp => call_subStr hay hp

/-- A needle in capitals is found in a text of small letters beyond ASCII. -/
theorem inStr_subStr_of_capitals :
    FindsFirst false "Żółw" "ÓŁ" 1 ∧ call "InStr" [.text "Żółw", .text "ÓŁ", .text "", .int 1] = .ok (.int 2) ∧
      call "SubStr" [.text "Żółw", .int 2] = .ok (.text "ółw") := by
  have hplaces : Text.KeepsPlaces "Żółw".toList := Text.keepsPlaces_of_not_mem (by decide) (by decide)
  obtain ⟨-, hfinds, hinStr, hsubStr⟩ := inStr_subStr "Żółw"
  refine ⟨hfinds.mpr hplaces "ÓŁ" 1 (by decide) (Nat.le_refl 1), (hinStr "ÓŁ" (.text "") 1 (by decide)).trans ?_, ?_⟩
  · exact congrArg (fun p : Nat => Except.ok (Value.int (Int64.ofNat p))) (by decide +kernel)
  · exact (hsubStr 2 (by decide)).trans (congrArg (fun s => Except.ok (Value.text s)) (by decide +kernel))

/-- A dotted capital I is two characters in lower case, so what comes after it is found one place too late. -/
theorem inStr_misses_dottedCapital :
    call "InStr" [.text "\u0130b", .text "b", .text "", .int 1] = .ok (.int 3) ∧
      call "SubStr" [.text "\u0130b", .int 3] = .ok (.text "") := by
  refine ⟨(call_inStr _ _ _ (by decide)).trans ?_, (call_subStr _ (p := 3) (by decide)).trans ?_⟩
  · exact congrArg (fun p : Nat => Except.ok (Value.int (Int64.ofNat p))) (by decide +kernel)
  · exact congrArg (fun s => Except.ok (Value.text s)) (by decide +kernel)

end

end Function

end LineScript
