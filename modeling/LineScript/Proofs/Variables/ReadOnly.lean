import LineScript.Proofs.Text.Lower
import LineScript.Proofs.Variables.Requests

/-!
# Engine variables that stay read-only

The slot of an engine variable refuses every value, and so it holds none. Whether a slot is one is decided by the spelling it was
made with, up to ASCII case, while slots are found by lower-case forms of all of Unicode. The two views differ on one character:
the Kelvin sign is no ASCII letter, and its lower-case form is the letter k (`Text.ascii_or_kelvin_of_lower`). So an engine variable
is read-only exactly when the first spelling of its name holds no Kelvin sign, and one whose name holds no k always is.
-/

namespace LineScript

namespace Builtin

open Text

variable {name name' : String} {b : Builtin}

/-- The names of engine variables are ASCII. -/
theorem ascii_of_ofName? (h : ofName? name = some b) :
    ∀ x ∈ (asciiLower name).toList, x.toNat < 128 ∧ x ≠ '\x00' := by
  have hnames : (names.all fun entry => entry.1.toList.all fun x => x.toNat < 128 && x != '\x00') = true := by
    decide +kernel
  simp only [List.all_eq_true, Bool.and_eq_true, decide_eq_true_eq, bne_iff_ne] at hnames
  obtain ⟨before, after, heq, -⟩ := List.lookup_eq_some_iff.mp h
  exact hnames (asciiLower name, b) (heq ▸ List.mem_append_right before List.mem_cons_self)

/-- A text that names an engine variable is ASCII, so both lower-case forms of it agree. -/
theorem lower_of_ofName? (h : ofName? name = some b) : lower name = asciiLower name := by
  refine lower_eq_asciiLower fun c hc => ascii_of_toLower ?_
  refine (ascii_of_ofName? h c.toLower ?_).1
  rw [asciiLower, String.toList_ofList]
  exact List.mem_map_of_mem hc

/-- What is found under the name of an engine variable is spelled as one, unless there is a Kelvin sign in it. -/
theorem ofName?_of_lower_eq (h : ofName? name = some b) (hlower : lower name' = lower name) :
    ofName? name' = if kelvinSign ∈ name'.toList then none else some b := by
  split
  · rename_i hkelvin
    -- the sign stays in the ASCII form, where no name of an engine variable has it
    cases h' : ofName? name' with
    | none => rfl
    | some b' =>
      have hmem : kelvinSign.toLower ∈ (asciiLower name').toList := by
        rw [asciiLower, String.toList_ofList]
        exact List.mem_map_of_mem hkelvin
      exact absurd (ascii_of_ofName? h' _ hmem).1 (by decide)
  · rename_i hkelvin
    have hform : ∀ x ∈ (lower name').toList, x.toNat < 128 ∧ x ≠ '\x00' := by
      rw [hlower, lower_of_ofName? h]
      exact ascii_of_ofName? h
    have hascii : ∀ c ∈ name'.toList, c.toNat < 128 := by
      intro c hc
      rcases ascii_or_kelvin_of_lower hform c hc with hlt | rfl
      · exact hlt
      · exact absurd hc hkelvin
    rw [ofName?, ← lower_eq_asciiLower hascii, hlower, lower_of_ofName? h]
    exact h

end Builtin

/-- A slot is as it was made, but for its value, and that only where it is no engine variable's. -/
structure Slot.Genuine (slot : Slot) : Prop where
  key_eq : slot.key = Text.lower slot.name
  builtin_eq : slot.builtin = Builtin.ofName? slot.name
  value_eq : slot.builtin ≠ none → slot.value = .empty

namespace Variables

/-- A request leaves slots genuine, and makes only genuine ones. -/
theorem genuine_step {vars vars' : Variables} {request : Request} {answer : Answer} (hstep : Step vars request vars' answer)
    (h : ∀ slot ∈ vars.slots, slot.Genuine) : ∀ slot ∈ vars'.slots, slot.Genuine := by
  intro slot' hslot'
  cases hstep with
  | known _ _ | refused => exact h slot' hslot'
  | made _ _ =>
    rcases Array.mem_push.mp hslot' with hslot' | rfl
    · exact h slot' hslot'
    · exact ⟨rfl, rfl, fun _ => rfl⟩
  | @stored id value slot _ hslot hown =>
    rcases Array.mem_or_eq_of_mem_setIfInBounds hslot' with hslot' | rfl
    · exact h slot' hslot'
    · obtain ⟨hkey, hbuiltin, -⟩ := h slot (Array.mem_of_getElem? hslot)
      exact ⟨hkey, hbuiltin, fun hne => absurd hown hne⟩

/-- However a table was asked, its slots are genuine. -/
theorem Asked.genuine {log : Log} {vars : Variables} (h : Asked log vars) : ∀ slot ∈ vars.slots, slot.Genuine := by
  induction h with
  | fresh => exact fun _ hslot => absurd hslot (Array.not_mem_empty _)
  | more _ request hfits ih => exact genuine_step (step_ask hfits) ih

/-- A slot that is no engine variable's takes every value. -/
theorem set_of_builtin?_none {vars : Variables} {id : VarId} (hlt : id < vars.size) (hnone : vars.builtin? id = none)
    (value : Value) : ∃ vars', vars.set id value = .ok vars' ∧ vars'.get id = value := by
  have hlt : id < vars.slots.size := hlt
  obtain ⟨slot, hslot⟩ : ∃ slot, vars.slots[id]? = some slot := ⟨_, Array.getElem?_eq_getElem hlt⟩
  have hown : slot.builtin = none := by simpa [builtin?, hslot] using hnone
  exact ⟨_, set_of_own hslot hown value, by simp [get, hlt]⟩

/-- The slot that a name of an engine variable is given is read-only and empty, exactly when no Kelvin sign stands in the spelling
it was made with. Where one does, it is an ordinary slot, and there is a k in the name. -/
theorem readOnly_iff_no_kelvin (log : Log) (vars : Variables) (h : Asked log vars) (request : Request) (name : String)
    (id : VarId) (b : Builtin) (hmem : (request, .ok (some id)) ∈ log) (hname : request.name? = some name)
    (hb : Builtin.ofName? name = some b) :
    (Text.kelvinSign ∉ (vars.name id).toList →
      vars.builtin? id = some b ∧ (∀ value, vars.set id value = .error (.readOnly (vars.name id))) ∧
        vars.get id = .empty) ∧
    (Text.kelvinSign ∈ (vars.name id).toList →
      vars.builtin? id = none ∧ (∀ value, ∃ vars', vars.set id value = .ok vars' ∧ vars'.get id = value) ∧
        'k' ∈ (Text.lower name).toList) := by
  have hfind : vars.findKey? (Text.lower name) = some id := h.follows.answered request name id hmem hname
  obtain ⟨hlt, hkey, -⟩ := Array.findIdx?_eq_some_iff_getElem.mp hfind
  obtain ⟨slot, hslot⟩ : ∃ slot, vars.slots[id]? = some slot := ⟨_, Array.getElem?_eq_getElem hlt⟩
  obtain ⟨_, hget⟩ := Array.getElem?_eq_some_iff.mp hslot
  obtain ⟨hslotKey, hbuiltin, hvalue⟩ := h.genuine slot (Array.mem_of_getElem? hslot)
  have hlower : Text.lower slot.name = Text.lower name := by
    rw [← hslotKey, ← hget]
    exact beq_iff_eq.mp hkey
  have hnameOf : vars.name id = slot.name := by simp [Variables.name, hslot]
  rw [Builtin.ofName?_of_lower_eq hb hlower] at hbuiltin
  rw [hnameOf]
  constructor
  · intro hkelvin
    rw [if_neg hkelvin] at hbuiltin
    refine ⟨by simp [builtin?, hslot, hbuiltin], ?_, ?_⟩
    · intro value
      simp only [set, hslot, hbuiltin]
    · simp [get, hslot, hvalue (by rw [hbuiltin]; exact Option.some_ne_none b)]
  · intro hkelvin
    rw [if_pos hkelvin] at hbuiltin
    have hnone : vars.builtin? id = none := by simp [builtin?, hslot, hbuiltin]
    exact ⟨hnone, set_of_builtin?_none hlt hnone, hlower ▸ Text.mem_lower_of_kelvin hkelvin⟩

/-- A name that has a slot may be asked for once more. -/
theorem Asked.again {log : Log} {vars : Variables} (h : Asked log vars) (name : String) {id : VarId}
    (hfind : vars.find? name = some id) : ∃ log', Asked log' vars ∧ (.resolve name, .ok (some id)) ∈ log' := by
  have hmore := h.more (.resolve name) nofun
  simp only [ask, resolve_of_find? hfind] at hmore
  exact ⟨_, hmore, List.mem_append_right _ List.mem_cons_self⟩

/-- The counter of ticks refuses to be set once it was named in ASCII. -/
theorem readOnly_tickCount :
    ∃ log vars, Asked log vars ∧ (.resolve "A_TICKCOUNT", .ok (some 0)) ∈ log ∧
      Builtin.ofName? "A_TICKCOUNT" = some .tickCount ∧ vars.name 0 = "A_TickCount" ∧ vars.builtin? 0 = some .tickCount ∧
      (∀ value, vars.set 0 value = .error (.readOnly (vars.name 0))) ∧ vars.get 0 = .empty := by
  have hset :=
    (Asked.fresh.more (.intern "A_TickCount") nofun).more (.set 0 (.text "x")) (by rintro _ _ ⟨⟩; decide +kernel)
  obtain ⟨log, h, hmem⟩ := @Asked.again _ _ hset "A_TICKCOUNT" 0 (by decide +kernel)
  have hbuiltin : Builtin.ofName? "A_TICKCOUNT" = some .tickCount := by decide +kernel
  refine ⟨log, _, h, hmem, hbuiltin, by decide +kernel, ?_⟩
  exact (readOnly_iff_no_kelvin log _ h _ "A_TICKCOUNT" 0 .tickCount hmem rfl hbuiltin).1 (by decide +kernel)

/-- Named with a Kelvin sign first, the counter of ticks is an ordinary variable from then on. -/
theorem tickCount_not_readOnly :
    ∃ log vars, Asked log vars ∧ (.resolve "A_TickCount", .ok (some 0)) ∈ log ∧
      Builtin.ofName? "A_TickCount" = some .tickCount ∧ vars.builtin? 0 = none ∧
      ∃ vars', vars.set 0 (.text "x") = .ok vars' ∧ vars'.get 0 = .text "x" := by
  have hfirst := Asked.fresh.more (.resolve "A_Tic\u212ACount") nofun
  obtain ⟨log, h, hmem⟩ := @Asked.again _ _ hfirst "A_TickCount" 0 (by decide +kernel)
  have hnone : (({} : Variables).ask (.resolve "A_Tic\u212ACount")).1.builtin? 0 = none := by decide +kernel
  exact ⟨log, _, h, hmem, by decide +kernel, hnone, set_of_builtin?_none (by decide +kernel) hnone _⟩

end Variables

end LineScript
