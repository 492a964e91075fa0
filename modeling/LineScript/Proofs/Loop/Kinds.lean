import LineScript.Load.Builder
import LineScript.Loop.Context
import LineScript.Proofs.Text.Numbers

/-!
# Kinds of loops

What a loop goes through is decided by its first argument: when the program is loaded if that is a literal (`Builder.loopKind`), and
when the loop starts otherwise (`LoopContext.kindOf`). Each time the text is asked whether it is an integer, but in another way. The
kinds are the same but for hexadecimal digits, which count at the start only, and for the least integer, which counts at the load
only (`LoopContext.kinds_agree_iff`).
-/

namespace LineScript

open Text

/-! ## Rounds of a counting loop -/

namespace LoopContext

/-- A loop makes at least some rounds, with the files and the registry that each of them finds. -/
def Makes (found : Nat → Files × Registry) : Nat → LoopContext → Prop
  | 0, _ => True
  | k + 1, loop => ∃ loop', loop.advance (found loop.index).1 (found loop.index).2 = .ok (true, loop') ∧ Makes found k loop'

variable {loop : LoopContext} {rounds : Option Int64}

/-- A counting loop goes on while its rounds are fewer than the count, and for ever without one. -/
theorem advance_count (h : loop.cursor = .count rounds) (files : Files) (reg : Registry) :
    loop.advance files reg = .ok (if rounds.all fun n => (loop.index : Int) < n.toInt then
      (true, { loop with index := loop.index + 1, current := .none }) else (false, loop)) := by
  obtain ⟨kind, index, current, cursor⟩ := loop
  obtain rfl : cursor = .count rounds := h
  cases rounds with
  | none => rfl
  | some n =>
    by_cases hn : (index : Int) < n.toInt
    all_goals
      simp only [advance, nextItem, Option.all_some, hn, decide_true, decide_false, if_true, Bool.false_eq_true, if_false, bind,
        Except.bind]
      rfl

/-- A counting loop makes the rounds that are left of its number, and there is no end to them if it has none. -/
theorem makes_iff (h : loop.cursor = .count rounds) (found : Nat → Files × Registry) (k : Nat) :
    Makes found k loop ↔ ∀ n, rounds = some n → k ≤ (n.toInt - loop.index).toNat := by
  induction k generalizing loop with
  | zero => simp [Makes]
  | succ k ih =>
    rw [Makes, advance_count h]
    by_cases hmore : rounds.all fun n => (loop.index : Int) < n.toInt
    · have ih := @ih { loop with index := loop.index + 1, current := .none } h
      rw [if_pos hmore]
      constructor
      · rintro ⟨_, ⟨⟩, hmakes⟩ n rfl
        have hn := ih.mp hmakes n rfl
        simp only [Option.all_some, decide_eq_true_eq] at hmore
        simp only at hn
        omega
      · intro hle
        refine ⟨_, rfl, ih.mpr fun n hn => ?_⟩
        have hn := hle n hn
        simp only
        omega
    · rw [if_neg hmore]
      refine ⟨fun ⟨_, hadvance, _⟩ => (nomatch hadvance), fun hle => absurd ?_ hmore⟩
      cases rounds with
      | none => rfl
      | some n =>
        have hn := hle n rfl
        simp only [Option.all_some, decide_eq_true_eq]
        omega

end LoopContext

/-! ## Registry roots -/

namespace RegRoot

/-- Every name of a root starts with the same letter. -/
theorem head?_of_ofName? {s : String} (h : (ofName? s).isSome = true) :
    ∃ c, (trim s).toList.head? = some c ∧ c.toUpper = 'H' := by
  have hnames : ∀ name ∈ names, name.1.toList.head? = some 'H' := by decide
  obtain ⟨name, hname, hsame⟩ := List.lookup_isSome_iff.mp h
  have hhead := hnames name hname
  rw [← beq_iff_eq.mp hsame, asciiUpper, String.toList_ofList, List.head?_map] at hhead
  exact Option.map_eq_some_iff.mp hhead

/-- What starts with a sign or with a digit names no root. -/
theorem ofName?_trim_eq_none {s : String}
    (h : (unsigned (trim s).toList).1 = true ∨ Number.IsHexadecimal (unsigned (trim s).toList).2) :
    ofName? (trim s) = none := by
  refine Option.not_isSome_iff_eq_none.mp fun hroot => ?_
  obtain ⟨c, hhead, hc⟩ := head?_of_ofName? hroot
  rw [trim_trim] at hhead
  have hunsigned : unsigned (trim s).toList = (false, (trim s).toList) := by
    refine unsigned_of_head? fun d hd => ?_
    obtain rfl := Option.some.inj (hhead.symm.trans hd)
    constructor <;> rintro rfl <;> revert hc <;> decide
  rw [hunsigned] at h
  rcases h with h | ⟨mark, digits, htext, -⟩
  · cases h
  · simp only at htext
    rw [htext] at hhead
    obtain rfl := Option.some.inj hhead
    revert hc
    decide

end RegRoot

/-! ## Kinds -/

/-- The kind of a loop over a trimmed text, given whether that is taken for an integer. -/
def LoopKind.given (integer : Bool) (text : String) : LoopKind :=
  if text.isEmpty || integer then .count else if (RegRoot.ofName? text).isSome then .registry else .file

namespace LoopKind

/-- What is given is a count if it is blank or an integer. -/
theorem given_eq_count_iff {integer : Bool} {text : String} :
    given integer text = .count ↔ text.isEmpty = true ∨ integer = true := by
  unfold given
  cases hroot : (RegRoot.ofName? text).isSome <;> cases integer <;> cases text.isEmpty <;> simp

/-- A loop over what starts as a number, but is not taken for an integer, goes through files. -/
theorem given_false {s : String}
    (h : (unsigned (trim s).toList).1 = true ∨ Number.IsHexadecimal (unsigned (trim s).toList).2) :
    given false (trim s) = .file := by
  have hblank : (trim s).isEmpty = false := by
    refine Bool.eq_false_iff.mpr fun hblank => ?_
    rw [String.isEmpty_iff.mp hblank] at h
    rcases h with h | ⟨mark, digits, h, -⟩ <;> cases h
  rw [given, hblank, RegRoot.ofName?_trim_eq_none h]
  rfl

end LoopKind

/-- A literal that is not the word of another kind is asked at the load whether it is an integer. -/
theorem Builder.loopKind_eq {first : Arg} (hliteral : first.isLiteral = true)
    (hparse : sameAscii (trim first.text) "parse" = false) (hread : sameAscii (trim first.text) "read" = false) :
    loopKind first = .given (intBetween? leastInt greatestInt (trim first.text)).isSome (trim first.text) := by
  simp only [loopKind, hliteral, hparse, hread, LoopKind.given, Bool.not_true, Bool.false_eq_true, if_false]

namespace LoopContext

/-- Every text is asked at the start whether it is an integer, in decimal or in hexadecimal digits. -/
theorem exists_kindOf_eq (s : String) :
    ∃ integer, kindOf s = .given integer (trim s) ∧
      (integer = true ↔ Number.IsHexadecimal (unsigned (trim s).toList).2 ∨
        ∃ n : Nat, natOfDigits? (unsigned (trim s).toList).2 = some n ∧ (n : Int) ≤ greatestInt) := by
  refine ⟨_, rfl, ?_⟩
  rw [← Number.exists_int_iff, ← Number.ofText?_trim]
  split
  · rename_i n h
    exact ⟨fun _ => ⟨n, h⟩, fun _ => rfl⟩
  · rename_i h
    exact ⟨nofun, fun ⟨n, hn⟩ => absurd hn (h n)⟩

/-- A loop that starts with its kind yet to be decided starts as one of the kind that its first argument gives it. -/
theorem start_unknown (files : Files) (first : String) (rest : List String) :
    start files .unknown (first :: rest) = start files (kindOf first) (first :: rest) := by
  have hknown : (kindOf first == .unknown) = false := by
    obtain ⟨integer, hkind, -⟩ := exists_kindOf_eq first
    rw [hkind, LoopKind.given]
    split
    · rfl
    · split <;> rfl
  simp only [start, hknown, List.getElem?_cons_zero, Option.getD_some]
  rfl

/-- A loop that counts makes as many rounds as the text says that is read when the program is loaded, unless that is the least
integer. -/
theorem roundsOf_eq {s : String}
    (h : (trim s).isEmpty = true ∨ (intBetween? leastInt greatestInt (trim s)).isSome = true)
    (hleast : intOfDigits? (trim s).toList ≠ some leastInt) :
    (roundsOf s).map Int64.toInt = intBetween? leastInt greatestInt (trim s) := by
  by_cases hblank : (trim s).isEmpty = true
  · rw [roundsOf, String.isEmpty_iff.mp hblank]
    rfl
  have hsome := h.resolve_left hblank
  obtain ⟨n, hn, hle⟩ := (isSome_intBetween?_iff.mp hsome).resolve_left hleast
  obtain ⟨m, hm⟩ := Option.isSome_iff_exists.mp hsome
  have hvalue : (if (unsigned (trim s).toList).1 = true then -(n : Int) else n) = m := by
    have hvalue := (Option.filter_eq_some_iff.mp hm).1
    rw [intOfDigits?_eq, hn] at hvalue
    exact Option.some.inj hvalue
  have hread : Number.ofText? (trim s) = some (.int (Int64.ofInt m)) := by
    rw [Number.ofText?_trim, Number.ofUnsigned?_of_natOfDigits? hn, if_pos hle, hvalue]
  have hrange : -2 ^ 63 ≤ m ∧ m < 2 ^ 63 := by
    have hgreatest : greatestInt = 9223372036854775807 := rfl
    split at hvalue <;> omega
  simp only [roundsOf, hblank, hread, hm, Number.toInt64, Bool.false_eq_true, if_false, Option.map_some]
  rw [Int64.toInt_ofInt_of_le hrange.1 hrange.2]

section

variable {first : Arg} (hliteral : first.isLiteral = true) (hparse : sameAscii (trim first.text) "parse" = false)
  (hread : sameAscii (trim first.text) "read" = false)
include hliteral hparse hread

/-- Hexadecimal digits are an integer at the start only. -/
theorem kinds_of_isHexadecimal (h : Number.IsHexadecimal (unsigned (trim first.text).toList).2) :
    Builder.loopKind first = .file ∧ kindOf first.text = .count := by
  obtain ⟨integer, hlate, hinteger⟩ := exists_kindOf_eq first.text
  have hnone := Number.natOfDigits?_of_isHexadecimal h
  have hnot : (intBetween? leastInt greatestInt (trim first.text)).isSome = false := by
    refine Bool.eq_false_iff.mpr fun hsome => ?_
    rcases isSome_intBetween?_iff.mp hsome with hleast | ⟨n, hn, -⟩
    · obtain ⟨-, n, hn, -⟩ := natOfDigits?_of_least hleast
      cases hnone.symm.trans hn
    · cases hnone.symm.trans hn
  constructor
  · rw [Builder.loopKind_eq hliteral hparse hread, hnot, LoopKind.given_false (.inr h)]
  · rw [hlate, LoopKind.given_eq_count_iff]
    exact .inr (hinteger.mpr (.inl h))

/-- The least integer is one at the load only. -/
theorem kinds_of_least (h : intOfDigits? (trim first.text).toList = some leastInt) :
    Builder.loopKind first = .count ∧ kindOf first.text = .file := by
  obtain ⟨integer, hlate, hinteger⟩ := exists_kindOf_eq first.text
  obtain ⟨hsign, n, hn, hlt⟩ := natOfDigits?_of_least h
  have hnot : integer = false := by
    refine Bool.eq_false_iff.mpr fun htrue => ?_
    rcases hinteger.mp htrue with hhex | ⟨m, hm, hle⟩
    · cases hn.symm.trans (Number.natOfDigits?_of_isHexadecimal hhex)
    · obtain rfl := Option.some.inj (hn.symm.trans hm)
      omega
  constructor
  · rw [Builder.loopKind_eq hliteral hparse hread, LoopKind.given_eq_count_iff]
    exact .inr (isSome_intBetween?_iff.mpr (.inl h))
  · rw [hlate, hnot, LoopKind.given_false (.inl hsign)]

/-- Every other text is an integer at the load if it is one at the start. -/
theorem loopKind_eq_kindOf (hhex : ¬ Number.IsHexadecimal (unsigned (trim first.text).toList).2)
    (hleast : intOfDigits? (trim first.text).toList ≠ some leastInt) : Builder.loopKind first = kindOf first.text := by
  obtain ⟨integer, hlate, hinteger⟩ := exists_kindOf_eq first.text
  have hsame : (intBetween? leastInt greatestInt (trim first.text)).isSome = integer := by
    rw [Bool.eq_iff_iff, isSome_intBetween?_iff, hinteger, or_iff_right hhex, or_iff_right hleast]
  rw [Builder.loopKind_eq hliteral hparse hread, hlate, hsame]

end

/-- For a literal that is not the word of another kind, the kind of loop found when the program is loaded is the one found when the
loop starts, unless the text is an integer in hexadecimal digits or the least one: a loop over the first goes through files when
it is a literal and counts otherwise, and the other way round for the second. Where both find the same kind the loop starts the same
way, and a loop that counts makes the rounds of its integer, or has no end if its argument is blank. -/
theorem kinds_agree_iff (first : Arg) (hliteral : first.isLiteral = true)
    (hparse : sameAscii (trim first.text) "parse" = false) (hread : sameAscii (trim first.text) "read" = false) :
    (Builder.loopKind first = kindOf first.text ↔
      ¬ Number.IsHexadecimal (unsigned (trim first.text).toList).2 ∧ intOfDigits? (trim first.text).toList ≠ some leastInt) ∧
    (Number.IsHexadecimal (unsigned (trim first.text).toList).2 →
      Builder.loopKind first = .file ∧ kindOf first.text = .count) ∧
    (intOfDigits? (trim first.text).toList = some leastInt → Builder.loopKind first = .count ∧ kindOf first.text = .file) ∧
    (Builder.loopKind first = kindOf first.text → ∀ files rest,
      start files (Builder.loopKind first) (first.text :: rest) = start files .unknown (first.text :: rest)) ∧
    (Builder.loopKind first = .count → kindOf first.text = .count → ∀ files rest, ∃ loop,
      start files .count (first.text :: rest) = .ok loop ∧ start files .unknown (first.text :: rest) = .ok loop ∧
      ∀ found k, loop.Makes found k ↔ ∀ n, intBetween? leastInt greatestInt (trim first.text) = some n → k ≤ n.toNat) := by
  have hhex := kinds_of_isHexadecimal hliteral hparse hread
  have hleast := kinds_of_least hliteral hparse hread
  refine ⟨⟨fun hsame => ⟨fun h => ?_, fun h => ?_⟩, fun h => loopKind_eq_kindOf hliteral hparse hread h.1 h.2⟩, hhex, hleast,
    fun hsame files rest => by rw [hsame, start_unknown], fun hcount hcount' files rest => ?_⟩
  · obtain ⟨hfile, hcount⟩ := hhex h
    cases hfile.symm.trans (hsame.trans hcount)
  · obtain ⟨hcount, hfile⟩ := hleast h
    cases hcount.symm.trans (hsame.trans hfile)
  · have hearly := (Builder.loopKind_eq hliteral hparse hread).symm.trans hcount
    have hrounds := roundsOf_eq (LoopKind.given_eq_count_iff.mp hearly) fun h => nomatch hcount'.symm.trans (hleast h).2
    refine ⟨{ kind := .count, index := 0, current := .none, cursor := .count (roundsOf first.text) }, rfl, ?_, fun found k => ?_⟩
    · rw [start_unknown, hcount']
      rfl
    · rw [makes_iff rfl, ← hrounds]
      simp

/-- A literal with blanks, a sign and zeros before its digits. -/
def padded : Arg := { kind := .text, text := " +07\t", isExpr := false, derefs := [] }

/-- A count with blanks and a leading zero makes seven rounds, whether its kind is known at load time or found at run time. -/
theorem padded_makes_seven : Builder.loopKind padded = .count ∧ kindOf padded.text = .count ∧
    ∃ loop, start default .count [" +07\t"] = .ok loop ∧ start default .unknown [" +07\t"] = .ok loop ∧
      ∀ found, loop.Makes found 7 ∧ ¬ loop.Makes found 8 := by
  have hkind : Builder.loopKind padded = .count := by decide +kernel
  have hkind' : kindOf padded.text = .count := by decide +kernel
  have hseven : intBetween? leastInt greatestInt (trim padded.text) = some 7 := by decide +kernel
  obtain ⟨-, -, -, -, hcounts⟩ := kinds_agree_iff padded rfl (by decide +kernel) (by decide +kernel)
  obtain ⟨loop, hearly, hlate, hmakes⟩ := hcounts hkind hkind' default []
  refine ⟨hkind, hkind', loop, hearly, hlate, fun found => ⟨(hmakes found 7).mpr fun n hn => ?_, fun height => ?_⟩⟩
  · cases hseven.symm.trans hn
    decide
  · exact absurd ((hmakes found 8).mp height 7 hseven) (by decide)

/-- Hexadecimal digits and the least integer give loops of two kinds. -/
theorem kinds_differ :
    Builder.loopKind { kind := .text, text := "0x3", isExpr := false, derefs := [] } = .file ∧ kindOf "0x3" = .count ∧
    Builder.loopKind { kind := .text, text := "-9223372036854775808", isExpr := false, derefs := [] } = .count ∧
      kindOf "-9223372036854775808" = .file := by
  decide +kernel

end LoopContext

end LineScript
