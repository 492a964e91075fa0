import LineScript.Condition
import LineScript.Proofs.Text.Lower
import Mathlib

/-!
# Lists to match

The items of a list are written with commas between them and the commas in them doubled. A run of commas is read from its left, two
at a time, so the comma that is left of a run of odd length is the one after the item: every list of items that are not blank and
start with no comma is read back (`Condition.items_listOf`).

Case is ignored by comparing lower-case forms. The form of a capital sigma hangs on its neighbours, so a text may hold an item
although its form does not hold that of the item (`Condition.contains_misses_sigma`). Without capital sigmas and dotted capitals each
character has a form of its own, and an item is found wherever it stands, case aside (`Condition.matches_listOf`).
-/

namespace LineScript

namespace Text

/-! ## Finding texts in others -/

/-- One text is found in another exactly if it is a stretch of it. -/
theorem isSome_findFrom_iff {needle hay : List Char} (i : Nat) : (findFrom needle i hay).isSome = true ↔ needle <:+: hay := by
  induction hay generalizing i with
  | nil => simp [findFrom]
  | cons c cs ih =>
    rw [findFrom, List.infix_cons_iff, ← ih (i + 1), ← List.isPrefixOf_iff_prefix]
    split
    · rename_i hleads
      simp [hleads]
    · rename_i hleads
      simp [hleads]

/-- One text occurs in another exactly if it is a stretch of it. -/
theorem occursIn_iff {needle hay : List Char} : occursIn needle hay = true ↔ needle <:+: hay :=
  isSome_findFrom_iff 0

/-! ## Characters with a lower-case form of their own -/

/-- A character whose lower-case form is one character, whatever stands around it: any but the capital sigma and the dotted
capital I. -/
def HasOwnForm (c : Char) : Prop :=
  c ≠ 'Σ' ∧ c ≠ '\u0130'

/-- Two texts are the same but for the case of each character. -/
def SameLetters (cs ds : List Char) : Prop :=
  cs.map lowerChar = ds.map lowerChar

/-- The lower-case form of a character that has one of its own. -/
def ownForm (c : Char) : Char :=
  (lowerChar c).headD c

/-- A character with a form of its own has that form alone as its lower case. -/
theorem lowerChar_eq_ownForm {c : Char} (h : HasOwnForm c) : lowerChar c = [ownForm c] := by
  have hdotted : (c == '\u0130') = false := beq_false_of_ne h.2
  unfold ownForm lowerChar
  rw [hdotted]
  split <;> rfl

/-- Characters with a form of their own are made small one by one. -/
theorem toList_lower {s : String} (h : ∀ c ∈ s.toList, HasOwnForm c) : (lower s).toList = s.toList.map ownForm := by
  have honto (before cs : List Char) (hcs : ∀ c ∈ cs, HasOwnForm c) : lowerOnto [] before cs = cs.map ownForm := by
    induction cs generalizing before with
    | nil => rfl
    | cons c cs ih =>
      have hc := hcs c List.mem_cons_self
      have hbetween : lowerBetween before c cs = [ownForm c] := by
        rw [lowerBetween, if_neg (mt beq_iff_eq.mp hc.1), lowerChar_eq_ownForm hc]
      rw [lowerOnto_cons, hbetween, ih _ fun c hc => hcs c (List.mem_cons_of_mem _ hc)]
      rfl
  rw [lower, String.toList_ofList]
  exact honto [] _ h

/-- Two texts of such characters have the same letters exactly if they have the same forms. -/
theorem sameLetters_iff {cs ds : List Char} (hcs : ∀ c ∈ cs, HasOwnForm c) (hds : ∀ d ∈ ds, HasOwnForm d) :
    SameLetters cs ds ↔ cs.map ownForm = ds.map ownForm := by
  have hforms {cs : List Char} (h : ∀ c ∈ cs, HasOwnForm c) : cs.map lowerChar = (cs.map ownForm).map ([·]) := by
    rw [List.map_map]
    exact List.map_congr_left fun c hc => lowerChar_eq_ownForm (h c hc)
  rw [SameLetters, hforms hcs, hforms hds]
  exact List.map_inj_right fun _ _ h => (List.cons.inj h).1

section

variable {s t : String} (hs : ∀ c ∈ s.toList, HasOwnForm c) (ht : ∀ c ∈ t.toList, HasOwnForm c)
include hs ht

/-- Two texts without capital sigmas and dotted capitals have the same lower-case form exactly if they have the same letters. -/
theorem lower_eq_lower_iff : lower s = lower t ↔ SameLetters s.toList t.toList := by
  rw [← String.toList_inj, toList_lower hs, toList_lower ht, sameLetters_iff hs ht]

/-- In lower case, one text is a stretch of another exactly if some stretch of the other has the same letters. -/
theorem lower_infix_lower_iff :
    (lower s).toList <:+: (lower t).toList ↔ ∃ stretch, stretch <:+: t.toList ∧ SameLetters s.toList stretch := by
  rw [toList_lower hs, toList_lower ht, List.infix_map_iff]
  refine exists_congr fun stretch => and_congr_right fun hstretch => ?_
  rw [sameLetters_iff hs fun c hc => ht c (hstretch.subset hc)]

end

end Text

namespace Condition

open Text

/-! ## Writing and reading lists -/

/-- Characters with the commas among them doubled. -/
def doubledCommas (cs : List Char) : List Char :=
  cs.flatMap fun c => if c = ',' then [',', ','] else [c]

/-- The list of some items: their commas are doubled, and a single comma stands between neighbours. -/
def listOf (items : List String) : String :=
  .ofList ([','].intercalate (items.map fun item => doubledCommas item.toList))

/-- An item that a list can hold: it is not blank and does not start with a comma. -/
def IsItem (item : String) : Prop :=
  item ≠ "" ∧ item.toList.head? ≠ some ','

/-- Doubled commas are read as one, whatever comes after them. -/
theorem itemsOnto_doubledCommas (done : List (List Char)) (item cs rest : List Char) :
    itemsOnto done item (doubledCommas cs ++ rest) = itemsOnto done (cs.reverse ++ item) rest := by
  induction cs generalizing item with
  | nil => rfl
  | cons c cs ih =>
    by_cases hc : c = ','
    · subst hc
      exact (ih (',' :: item)).trans (by simp)
    · have hcons : doubledCommas (c :: cs) ++ rest = c :: (doubledCommas cs ++ rest) := by
        simp [doubledCommas, hc]
      have hstep : itemsOnto done item (c :: (doubledCommas cs ++ rest)) =
          itemsOnto done (c :: item) (doubledCommas cs ++ rest) := by
        simp [itemsOnto, hc]
      rw [hcons, hstep, ih]
      simp

/-- A comma that no other one follows ends an item. -/
theorem itemsOnto_comma (done : List (List Char)) (item : List Char) {rest : List Char} (h : rest.head? ≠ some ',') :
    itemsOnto done item (',' :: rest) = itemsOnto (item.reverse :: done) [] rest := by
  cases rest with
  | nil => rfl
  | cons c rest =>
    have hc : c ≠ ',' := by simpa using h
    simp [itemsOnto, hc]

/-- An item does not start with a comma, however it is written and whatever comes after it. -/
theorem IsItem.head?_ne {item : String} (h : IsItem item) (rest : List Char) :
    (doubledCommas item.toList ++ rest).head? ≠ some ',' := by
  obtain ⟨c, cs, hitem⟩ := List.exists_cons_of_ne_nil (mt String.toList_eq_nil_iff.mp h.1)
  have hc : c ≠ ',' := by
    have hhead := h.2
    rw [hitem] at hhead
    simpa using hhead
  simp [hitem, doubledCommas, hc]

/-- Items that are joined with single commas are read one after the other. -/
theorem itemsOnto_intercalate (done : List (List Char)) {items : List String} (hsome : items ≠ [])
    (hitems : ∀ item ∈ items, IsItem item) :
    itemsOnto done [] ([','].intercalate (items.map fun item => doubledCommas item.toList)) =
      done.reverse ++ items.map String.toList := by
  induction items generalizing done with
  | nil => exact absurd rfl hsome
  | cons item items ih =>
    cases items with
    | nil =>
      have hread := itemsOnto_doubledCommas done [] item.toList []
      rw [List.append_nil] at hread
      rw [List.map_singleton, List.intercalate_singleton, hread]
      simp [itemsOnto]
    | cons next items =>
      have hrest : ∀ item ∈ next :: items, IsItem item := fun item hitem => hitems item (List.mem_cons_of_mem _ hitem)
      -- The next item starts with no comma, so the comma before it is read alone, whatever commas `item` ends with.
      have hhead : ([','].intercalate ((next :: items).map fun item => doubledCommas item.toList)).head? ≠ some ',' := by
        have hnext := (hrest next List.mem_cons_self).head?_ne
        cases items with
        | nil => simpa using hnext []
        | cons more items =>
          rw [List.map_cons, List.map_cons, List.intercalate_cons_cons, List.append_assoc]
          exact hnext _
      have hread := ih (item.toList :: done) (List.cons_ne_nil _ _) hrest
      calc
        itemsOnto done [] ([','].intercalate ((item :: next :: items).map fun item => doubledCommas item.toList)) =
            itemsOnto done [] (doubledCommas item.toList ++
              ',' :: [','].intercalate ((next :: items).map fun item => doubledCommas item.toList)) := by
          rw [List.map_cons, List.map_cons, List.intercalate_cons_cons, List.append_assoc]
          rfl
        _ = itemsOnto (item.toList :: done) []
              ([','].intercalate ((next :: items).map fun item => doubledCommas item.toList)) := by
          rw [itemsOnto_doubledCommas, itemsOnto_comma done _ hhead, List.append_nil, List.reverse_reverse]
        _ = done.reverse ++ (item :: next :: items).map String.toList := by
          rw [hread, List.reverse_cons, List.append_assoc]
          rfl

/-- A list is read back as the items it was written for. -/
theorem items_listOf {items : List String} (hsome : items ≠ []) (hitems : ∀ item ∈ items, IsItem item) :
    Condition.items (listOf items) = items := by
  rw [Condition.items, listOf, String.toList_ofList, itemsOnto_intercalate [] hsome hitems]
  simp

/-! ## Matching -/

section

variable (v list : String) (negate : Bool)

/-- A text is a member of a list if it has the lower-case form of one of its items. -/
theorem holds_member :
    holds (.member negate) [v, list] = .ok (negate != decide (∃ item ∈ items list, lower v = lower item)) := by
  have hmember : isMember v list = decide (∃ item ∈ items list, lower v = lower item) := by
    rw [Bool.eq_iff_iff, decide_eq_true_iff, isMember, List.any_eq_true]
    exact exists_congr fun item => and_congr_right fun _ => beq_iff_eq.trans eq_comm
  rw [← hmember]
  rfl

/-- A text contains a list if the lower-case form of a nonblank item stands in its own. -/
theorem holds_contains :
    holds (.contains negate) [v, list] =
      .ok (negate != decide (∃ item ∈ items list, item ≠ "" ∧ (lower item).toList <:+: (lower v).toList)) := by
  have hcontains : containsAny v list = decide (∃ item ∈ items list, item ≠ "" ∧ (lower item).toList <:+: (lower v).toList) := by
    rw [Bool.eq_iff_iff, decide_eq_true_iff, containsAny, List.any_eq_true]
    simp [occursIn_iff]
  rw [← hcontains]
  rfl

end

/-- A list of items that are not blank and start with no comma is read back from its written form. A text is in it exactly if it has
the lower-case form of an item, and contains one exactly if its lower-case form holds that of an item. Where every character has a
form of its own, that is so exactly if the text is an item, or an item stands somewhere in it, but for the case of each
character. -/
theorem matches_listOf {items : List String} (hsome : items ≠ []) (hitems : ∀ item ∈ items, IsItem item) (v : String)
    (negate : Bool) :
    Condition.items (listOf items) = items ∧
    holds (.member negate) [v, listOf items] = .ok (negate != decide (∃ item ∈ items, lower v = lower item)) ∧
    holds (.contains negate) [v, listOf items] =
      .ok (negate != decide (∃ item ∈ items, (lower item).toList <:+: (lower v).toList)) ∧
    ((∀ c ∈ v.toList, HasOwnForm c) → (∀ item ∈ items, ∀ c ∈ item.toList, HasOwnForm c) →
      (holds (.member negate) [v, listOf items] = .ok !negate ↔ ∃ item ∈ items, SameLetters v.toList item.toList) ∧
      (holds (.contains negate) [v, listOf items] = .ok !negate ↔
        ∃ item ∈ items, ∃ stretch, stretch <:+: v.toList ∧ SameLetters item.toList stretch)) := by
  have hread := items_listOf hsome hitems
  have hmember := holds_member v (listOf items) negate
  have hcontains := holds_contains v (listOf items) negate
  have hblank : (∃ item ∈ items, item ≠ "" ∧ (lower item).toList <:+: (lower v).toList) ↔
      ∃ item ∈ items, (lower item).toList <:+: (lower v).toList :=
    exists_congr fun item => and_congr_right fun hitem => and_iff_right (hitems item hitem).1
  have hyes (p : Prop) [Decidable p] : (Except.ok (negate != decide p) : Except Problem Bool) = .ok !negate ↔ p := by
    cases negate <;> simp
  simp only [hread, hblank] at hmember hcontains
  refine ⟨hread, hmember, hcontains, fun hv howns => ?_⟩
  rw [hmember, hcontains, hyes, hyes]
  exact ⟨exists_congr fun item => and_congr_right fun hitem => lower_eq_lower_iff hv (howns item hitem),
    exists_congr fun item => and_congr_right fun hitem => lower_infix_lower_iff (howns item hitem) hv⟩

/-- Items that end with commas, or hold them, and texts in which they stand in capitals. -/
theorem matches_listOf_commas :
    listOf ["a,", "x,,y", "é"] = "a,,,x,,,,y,é" ∧ Condition.items "a,,,x,,,,y,é" = ["a,", "x,,y", "é"] ∧
      holds (.member true) ["A,", "a,,,x,,,,y,é"] = .ok false ∧
      holds (.contains false) ["<X,,Y>", "a,,,x,,,,y,é"] = .ok true := by
  have hsome : ["a,", "x,,y", "é"] ≠ [] := List.cons_ne_nil _ _
  have hitems : ∀ item ∈ ["a,", "x,,y", "é"], IsItem item := by
    unfold IsItem
    decide
  have hlist : listOf ["a,", "x,,y", "é"] = "a,,,x,,,,y,é" := by decide
  have howns : (∀ c ∈ "A,".toList, HasOwnForm c) ∧ (∀ c ∈ "<X,,Y>".toList, HasOwnForm c) ∧
      ∀ item ∈ ["a,", "x,,y", "é"], ∀ c ∈ item.toList, HasOwnForm c := by
    simp [HasOwnForm]
  obtain ⟨hread, -, -, hmember⟩ := matches_listOf hsome hitems "A," true
  obtain ⟨-, -, -, hcontains⟩ := matches_listOf hsome hitems "<X,,Y>" false
  rw [hlist] at hread hmember hcontains
  refine ⟨hlist, hread, (hmember howns.1 howns.2.2).1.mpr ?_, (hcontains howns.2.1 howns.2.2).2.mpr ?_⟩
  · exact ⟨"a,", by decide, by unfold SameLetters; decide⟩
  · exact ⟨"x,,y", by decide, "X,,Y".toList, by decide, by unfold SameLetters; decide⟩

/-- A text holds the one item of a list as it stands, and is said not to contain it: the item ends with a capital sigma, whose form is
another one there than inside the text. -/
theorem contains_misses_sigma :
    IsItem "ΑΣ" ∧ listOf ["ΑΣ"] = "ΑΣ" ∧ "ΑΣ".toList <:+: "ΑΣΑ".toList ∧
      holds (.contains false) ["ΑΣΑ", listOf ["ΑΣ"]] = .ok false := by
  have hitem : IsItem "ΑΣ" := by
    unfold IsItem
    decide
  have hmissed : containsAny "ΑΣΑ" (listOf ["ΑΣ"]) = false := by decide +kernel
  refine ⟨hitem, by decide, ⟨[], ['Α'], rfl⟩, ?_⟩
  change Except.ok (false != containsAny "ΑΣΑ" (listOf ["ΑΣ"])) = .ok false
  rw [hmissed]
  rfl

end Condition

end LineScript
