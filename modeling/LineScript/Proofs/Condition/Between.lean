import LineScript.Condition
import LineScript.Proofs.Binary64.Integers

/-!
# Between two integers

A comparison of two integers is exact, `between` compares doubles. So `between` asks for the nearest doubles of the three integers
(`Condition.holds_between`), and says the same as the two comparisons with its bounds unless the integer is outside of them while
its nearest double is not (`Condition.between_iff_comparisons`). No integers of at most 53 binary digits do that, but others may
(`Condition.between_misses_bound`).
-/

namespace LineScript

/-- Texts that are integers are ordered as these are. -/
theorem Value.order_text_of_int {v w : String} {m n : Int64} (caseSensitive : Bool) (hv : Number.ofText? v = some (.int m))
    (hw : Number.ofText? w = some (.int n)) : Value.order caseSensitive (.text v) (.text w) = compare m.toInt n.toInt := by
  rw [Value.order, Value.toNumber?, Value.toNumber?, hv, hw]
  rfl

namespace Condition

open Binary64 (nearest)

/-- An integer is outside of its bounds and its nearest double is not outside of theirs. -/
def Strays (n low high : Int) : Prop :=
  ¬ (low ≤ n ∧ n ≤ high) ∧ nearest low ≤ nearest n ∧ nearest n ≤ nearest high

/-- Neither an integer below `2 ^ 53` strays nor one with bounds below `2 ^ 53`. -/
theorem not_strays {n low high : Int} (h : n.natAbs < 2 ^ 53 ∨ low.natAbs < 2 ^ 53 ∧ high.natAbs < 2 ^ 53) :
    ¬ Strays n low high := by
  rintro ⟨houtside, hlow, hhigh⟩
  rcases Decidable.not_and_iff_or_not.mp houtside with hbelow | habove
  · exact Int.not_le.mpr (Binary64.nearest_lt (Int.not_le.mp hbelow) (h.imp_right And.left)) hlow
  · exact Int.not_le.mpr (Binary64.nearest_lt (Int.not_le.mp habove) (h.symm.imp_left And.right)) hhigh

/-- As doubles, two integers are ordered as their nearest doubles are. -/
theorem toFloat_int_le_iff (m n : Int64) : (Number.int m).toFloat ≤ (Number.int n).toFloat ↔ nearest m.toInt ≤ nearest n.toInt := by
  have hword (k : Int64) : k.toInt.natAbs < 2 ^ 64 := by
    have hlow := k.le_toInt
    have hhigh := k.toInt_lt
    omega
  exact Binary64.ofInt_le_ofInt_iff (hword m) (hword n)

section

variable {v low high : String} {n least greatest : Int64}

/-- Of three integers, between compares the nearest doubles. -/
theorem holds_between (negate : Bool) (hv : Number.ofText? v = some (.int n)) (hlow : Number.ofText? low = some (.int least))
    (hhigh : Number.ofText? high = some (.int greatest)) :
    holds (.between negate) [v, low, high] = .ok (negate !=
      decide (nearest least.toInt ≤ nearest n.toInt ∧ nearest n.toInt ≤ nearest greatest.toInt)) := by
  have hbetween : isBetween v low high =
      decide (nearest least.toInt ≤ nearest n.toInt ∧ nearest n.toInt ≤ nearest greatest.toInt) := by
    rw [isBetween, hv, hlow, hhigh]
    simp only [toFloat_int_le_iff, Bool.decide_and]
  exact congrArg (fun between => Except.ok (negate != between)) hbetween

/-- A comparison of two integers compares them as they are. -/
theorem holds_compare (op : Comparison) {w : String} {m : Int64} (hv : Number.ofText? v = some (.int n))
    (hw : Number.ofText? w = some (.int m)) : holds (.compare op) [v, w] = .ok (op.holds (Ord.compare n.toInt m.toInt)) := by
  rw [← Value.order_text_of_int false hv hw]
  rfl

/-- Whether an integer is at least its lower bound is decided by the integers themselves. -/
theorem holds_greaterOrEqual (hv : Number.ofText? v = some (.int n)) (hlow : Number.ofText? low = some (.int least)) :
    holds (.compare .greaterOrEqual) [v, low] = .ok (decide (least.toInt ≤ n.toInt)) := by
  have hge : (Ord.compare n.toInt least.toInt).isGE = decide (least.toInt ≤ n.toInt) := by
    rw [Bool.eq_iff_iff, decide_eq_true_iff]
    exact Int.isGE_compare
  exact (holds_compare .greaterOrEqual hv hlow).trans (congrArg Except.ok hge)

/-- Whether an integer is at most its upper bound is decided by the integers themselves. -/
theorem holds_lessOrEqual (hv : Number.ofText? v = some (.int n)) (hhigh : Number.ofText? high = some (.int greatest)) :
    holds (.compare .lessOrEqual) [v, high] = .ok (decide (n.toInt ≤ greatest.toInt)) := by
  have hle : (Ord.compare n.toInt greatest.toInt).isLE = decide (n.toInt ≤ greatest.toInt) := by
    rw [Bool.eq_iff_iff, decide_eq_true_iff]
    exact Int.isLE_compare
  exact (holds_compare .lessOrEqual hv hhigh).trans (congrArg Except.ok hle)

/-- Of three texts that are integers, `between` says the same as the two comparisons with its bounds, unless the integer strays. No
integer below `2 ^ 53` does that, and none with bounds below `2 ^ 53`. -/
theorem between_iff_comparisons (hv : Number.ofText? v = some (.int n)) (hlow : Number.ofText? low = some (.int least))
    (hhigh : Number.ofText? high = some (.int greatest)) :
    (∃ within, holds (.between false) [v, low, high] = .ok within ∧ holds (.between true) [v, low, high] = .ok !within) ∧
    ((holds (.between false) [v, low, high] = .ok true ↔
        holds (.compare .greaterOrEqual) [v, low] = .ok true ∧ holds (.compare .lessOrEqual) [v, high] = .ok true) ↔
      ¬ Strays n.toInt least.toInt greatest.toInt) ∧
    ((holds (.between true) [v, low, high] = .ok true ↔
        holds (.compare .greaterOrEqual) [v, low] = .ok false ∨ holds (.compare .lessOrEqual) [v, high] = .ok false) ↔
      ¬ Strays n.toInt least.toInt greatest.toInt) ∧
    (n.toInt.natAbs < 2 ^ 53 ∨ least.toInt.natAbs < 2 ^ 53 ∧ greatest.toInt.natAbs < 2 ^ 53 →
      ¬ Strays n.toInt least.toInt greatest.toInt) := by
  refine ⟨⟨isBetween v low high, congrArg Except.ok (Bool.false_bne _), congrArg Except.ok (Bool.true_bne _)⟩, ?_⟩
  simp only [holds_between _ hv hlow hhigh, holds_greaterOrEqual hv hlow, holds_lessOrEqual hv hhigh, Except.ok.injEq,
    Bool.false_bne, Bool.true_bne, Bool.not_eq_true', decide_eq_true_iff, decide_eq_false_iff_not]
  have hkept : least.toInt ≤ n.toInt ∧ n.toInt ≤ greatest.toInt →
      nearest least.toInt ≤ nearest n.toInt ∧ nearest n.toInt ≤ nearest greatest.toInt :=
    fun h => ⟨Binary64.nearest_mono h.1, Binary64.nearest_mono h.2⟩
  have hagree : ((nearest least.toInt ≤ nearest n.toInt ∧ nearest n.toInt ≤ nearest greatest.toInt) ↔
      (least.toInt ≤ n.toInt ∧ n.toInt ≤ greatest.toInt)) ↔ ¬ Strays n.toInt least.toInt greatest.toInt := by
    constructor
    · rintro h ⟨houtside, hbounds⟩
      exact houtside (h.mp hbounds)
    · intro h
      exact ⟨fun hbounds => Decidable.byContradiction fun houtside => h ⟨houtside, hbounds⟩, hkept⟩
  refine ⟨hagree, ?_, not_strays⟩
  rw [← Decidable.not_and_iff_or_not, Decidable.not_iff_not]
  exact hagree

end

/-- The greatest integer is not between two small ones, and the two comparisons say the same. -/
theorem between_iff_comparisons_of_greatest :
    (holds (.between true) ["0x7FFFFFFFFFFFFFFF", " -5", "+9007199254740991"] = .ok true ↔
        holds (.compare .greaterOrEqual) ["0x7FFFFFFFFFFFFFFF", " -5"] = .ok false ∨
          holds (.compare .lessOrEqual) ["0x7FFFFFFFFFFFFFFF", "+9007199254740991"] = .ok false) ∧
      holds (.between true) ["0x7FFFFFFFFFFFFFFF", " -5", "+9007199254740991"] = .ok true := by
  have hv : Number.ofText? "0x7FFFFFFFFFFFFFFF" = some (.int 9223372036854775807) := rfl
  have hlow : Number.ofText? " -5" = some (.int (-5)) := rfl
  have hhigh : Number.ofText? "+9007199254740991" = some (.int 9007199254740991) := rfl
  have hagree := between_iff_comparisons hv hlow hhigh
  have hnegated := hagree.2.2.1.mpr (hagree.2.2.2 (.inr (by decide)))
  exact ⟨hnegated, hnegated.mpr (.inr rfl)⟩

/-- As a double `2 ^ 53 + 1` is `2 ^ 53`, which is less. -/
theorem between_misses_bound :
    Number.ofText? "9007199254740992" = some (.int 9007199254740992) ∧
      Number.ofText? "9007199254740993" = some (.int 9007199254740993) ∧
      holds (.between false) ["9007199254740992", "9007199254740993", "9007199254740993"] = .ok true ∧
      holds (.compare .greaterOrEqual) ["9007199254740992", "9007199254740993"] = .ok false := by
  have hn : Number.ofText? "9007199254740992" = some (.int 9007199254740992) := rfl
  have hbound : Number.ofText? "9007199254740993" = some (.int 9007199254740993) := rfl
  have hbetween := holds_between false hn hbound hbound
  exact ⟨hn, hbound, hbetween.trans (congrArg Except.ok (by decide +kernel)), holds_greaterOrEqual hn hbound⟩

end Condition

end LineScript
