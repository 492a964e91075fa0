import LineScript.Load.Reference
import LineScript.Proofs.Load.Slots

/-!
# Names that keep what they refer to

Once a name refers to something, it does so in every table that extends the one it was found in: naming further variables does not
move the ones named before. So all operands of an expression can be looked up in the table at the end, and each finds its own
reference by the offset of its token (`Reference.find?_of_ofTokens`).
-/

namespace LineScript

namespace Variables

variable {vars vars' : Variables} {name : String} {id : VarId}

/-- A slot that is found by a name is found by it later. -/
theorem Extends.find? (hext : vars.Extends vars') (h : vars.find? name = some id) : vars'.find? name = some id := by
  unfold Variables.find? findKey? at h ⊢
  rw [Array.findIdx?_eq_some_iff_getElem] at h ⊢
  obtain ⟨hlt, hkey, hfirst⟩ := h
  obtain ⟨value, hvalue⟩ := hext id _ (Array.getElem?_eq_getElem hlt)
  obtain ⟨hlt', hslot⟩ := Array.getElem?_eq_some_iff.mp hvalue
  refine ⟨hlt', by rw [hslot]; exact hkey, ?_⟩
  intro j hj
  obtain ⟨value, hvalue⟩ := hext j _ (Array.getElem?_eq_getElem (Nat.lt_trans hj hlt))
  obtain ⟨_, hslot⟩ := Array.getElem?_eq_some_iff.mp hvalue
  rw [hslot]
  exact hfirst j hj

/-- A name that is resolved is found from then on. -/
theorem find?_of_resolve (h : vars.resolve name = .ok (vars', id)) : vars'.find? name = some id := by
  unfold resolve at h
  split at h
  · rename_i hfind
    cases h
    exact hfind
  · rename_i hfind
    obtain ⟨_, -, h⟩ := bind_eq_ok_iff.mp h
    have hnew : vars.slots.findIdx? (·.key == Text.lower name) = none := hfind
    have hintern : vars.intern name = ({ slots := vars.slots.push (newSlot name (Text.lower name)) }, vars.size) := by
      simp only [intern, findKey?, hnew]
    obtain ⟨rfl, rfl⟩ := Prod.mk.inj (hintern.symm.trans (Except.ok.inj h))
    simp [Variables.find?, findKey?, Array.findIdx?_push, hnew, newSlot, size]

/-- A name that has a slot is resolved to it, and the table stays as it is. -/
theorem resolve_of_find? (h : vars.find? name = some id) : vars.resolve name = .ok (vars, id) := by
  simp only [resolve, h]

end Variables

namespace Reference

open Variables

variable {vars vars' later : Variables}

/-- A name that was given a slot is found there later, and adds nothing. -/
theorem slot_later {name : String} {id : VarId} (h : slot vars name = .ok (vars', id)) (hext : vars'.Extends later) :
    slot later name = .ok (later, id) := by
  unfold slot at h
  split at h
  · rename_i hresolve
    cases h
    have hfind := hext.find? (find?_of_resolve hresolve)
    simp only [slot, resolve_of_find? hfind]
  · cases h

/-- The parts of a name that were read once are read the same later, and add nothing. -/
theorem partsOf_later {name : String} {pieces : List (List Char)} {parts : List NamePart}
    (h : partsOf name vars pieces = .ok (vars', parts)) (hext : vars'.Extends later) :
    partsOf name later pieces = .ok (later, parts) := by
  fun_induction partsOf name vars pieces generalizing vars' parts with
  | case1 vars =>
    cases h
    rfl
  | case2 vars tail =>
    obtain ⟨last, hlast, h⟩ := bind_eq_ok_iff.mp h
    cases h
    simp only [partsOf, hlast]
    rfl
  | case3 vars piece inner rest ih =>
    obtain ⟨literal, hliteral, h⟩ := bind_eq_ok_iff.mp h
    split at h
    · cases h
    rename_i hinner
    obtain ⟨⟨vars₁, id⟩, hslot, h⟩ := bind_eq_ok_iff.mp h
    obtain ⟨⟨vars₂, more⟩, hmore, h⟩ := bind_eq_ok_iff.mp h
    cases h
    have hslot' := slot_later hslot ((extends_partsOf hmore).trans hext)
    have hmore' := ih _ hmore hext
    rw [partsOf]
    refine bind_eq_ok_iff.mpr ⟨literal, hliteral, ?_⟩
    rw [if_neg hinner]
    exact bind_eq_ok_iff.mpr ⟨_, hslot', bind_eq_ok_iff.mpr ⟨_, hmore', rfl⟩⟩

/-- A name refers to the same in a later table. -/
theorem ofName_later {name : List Char} {literal : Nat → Bool} {target : Target}
    (h : ofName vars name literal = .ok (vars', target)) (hext : vars'.Extends later) :
    ofName later name literal = .ok (later, target) := by
  unfold ofName at h ⊢
  simp only at h ⊢
  split at h
  · rename_i hone
    obtain ⟨⟨vars₁, id⟩, hslot, h⟩ := bind_eq_ok_iff.mp h
    cases h
    rw [if_pos hone, slot_later hslot hext]
    rfl
  · rename_i hone
    split at h
    · cases h
    · rename_i heven
      obtain ⟨⟨vars₁, parts⟩, hparts, h⟩ := bind_eq_ok_iff.mp h
      cases h
      rw [if_neg hone, if_neg heven, partsOf_later hparts hext]
      rfl

/-- A table with some names in it, one after the other. -/
def declare : Variables → List (List Char) → Except LoadProblem Variables
  | vars, [] => .ok vars
  | vars, name :: names => do
    let (vars, _) ← ofName vars name fun _ => false
    declare vars names

/-- The names of the operands among some tokens. -/
def operandNames (tokens : List Token) : List (List Char) :=
  (tokens.filter (·.kind == .operand)).map Token.chars

/-- The references of some tokens are found if the names of the operands can be declared. -/
theorem exists_ofTokens {tokens : List Token} (h : declare vars (operandNames tokens) = .ok vars') :
    ∃ derefs, ofTokens vars tokens = .ok (vars', derefs) := by
  induction tokens generalizing vars with
  | nil =>
    cases h
    exact ⟨[], rfl⟩
  | cons first rest ih =>
    unfold ofTokens
    by_cases hkind : first.kind == .operand
    · rw [operandNames, List.filter_cons, if_pos hkind, List.map_cons, declare] at h
      obtain ⟨⟨vars₁, target⟩, hname, h⟩ := bind_eq_ok_iff.mp h
      obtain ⟨derefs, hderefs⟩ := ih h
      rw [if_pos hkind]
      exact ⟨_, bind_eq_ok_iff.mpr ⟨_, hname, bind_eq_ok_iff.mpr ⟨_, hderefs, rfl⟩⟩⟩
    · rw [operandNames, List.filter_cons, if_neg hkind] at h
      rw [if_neg hkind]
      exact ih h

/-- Every operand finds its reference by its offset, and that is what its name refers to in the end. -/
theorem find?_of_ofTokens {tokens : List Token} {derefs : List Deref} (h : ofTokens vars tokens = .ok (vars', derefs))
    (hpairs : tokens.Pairwise (·.start < ·.start)) :
    ∀ t ∈ tokens, t.kind = .operand → ∃ deref, derefs.find? (·.start == t.start) = some deref ∧
      ofName vars' t.chars (fun _ => false) = .ok (vars', deref.target) := by
  induction tokens generalizing vars derefs with
  | nil => exact nofun
  | cons first rest ih =>
    obtain ⟨hfirst, hrest⟩ := List.pairwise_cons.mp hpairs
    intro t ht hkind
    unfold ofTokens at h
    split at h
    · obtain ⟨⟨vars₁, target⟩, hname, h⟩ := bind_eq_ok_iff.mp h
      obtain ⟨⟨vars₂, more⟩, hmore, h⟩ := bind_eq_ok_iff.mp h
      cases h
      rcases List.mem_cons.mp ht with rfl | ht
      · refine ⟨⟨t.start, t.size, target⟩, by simp, ?_⟩
        exact ofName_later hname (extends_ofTokens hmore)
      · obtain ⟨deref, hfind, htarget⟩ := ih hmore hrest t ht hkind
        refine ⟨deref, ?_, htarget⟩
        have hne : (first.start == t.start) = false := beq_eq_false_iff_ne.mpr (Nat.ne_of_lt (hfirst t ht))
        rw [List.find?_cons, hne]
        exact hfind
    · rename_i hother
      rcases List.mem_cons.mp ht with rfl | ht
      · exact absurd (beq_iff_eq.mpr hkind) hother
      · exact ih h hrest t ht hkind

end Reference

end LineScript
