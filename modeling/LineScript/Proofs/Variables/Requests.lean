import LineScript.Proofs.Expr.Naming

/-!
# What a table of variables answers

A table is asked for the slots of names and to store values. Whatever was asked of it since it was empty (`Variables.Asked`), it
is the finite map that the log of requests and answers describes (`Variables.Refines`): its keys are the lower-case forms of the
names that were given slots, numbered in the order in which they first came up, each with its first spelling and with the value
that was stored last.
-/

namespace LineScript

namespace Variables

/-- Something that is asked of a table. -/
inductive Request where
  | resolve (name : String)
  | intern (name : String)
  | set (id : VarId) (value : Value)

/-- What a table answers: a slot, nothing where a value was stored, or why it refused. -/
abbrev Answer := Except NameError (Option VarId)

/-- Requests and answers, in order. -/
abbrev Log := List (Request × Answer)

/-- The name that a request wants a slot for. -/
def Request.name? : Request → Option String
  | resolve name | intern name => some name
  | set _ _ => none

/-- Values are stored through slots that the table has given out. -/
def Request.Fits (vars : Variables) (request : Request) : Prop :=
  ∀ id value, request = .set id value → id < vars.size

/-- Does what is asked. -/
def ask (vars : Variables) : Request → Variables × Answer
  | .resolve name =>
    match vars.resolve name with
    | .ok (vars, id) => (vars, .ok (some id))
    | .error e => (vars, .error e)
  | .intern name => ((vars.intern name).1, .ok (some (vars.intern name).2))
  | .set id value =>
    match vars.set id value with
    | .ok vars => (vars, .ok none)
    | .error e => (vars, .error e)

/-- A table with all that was asked of it since it was empty. -/
inductive Asked : Log → Variables → Prop
  | fresh : Asked [] {}
  | more {log : Log} {vars : Variables} (h : Asked log vars) (request : Request) (hfits : request.Fits vars) :
    Asked (log ++ [(request, (vars.ask request).2)]) (vars.ask request).1

namespace Log

/-- The name that an entry of a log gave a slot to. -/
def named? : Request × Answer → Option String
  | (request, .ok _) => request.name?
  | (_, .error _) => none

/-- The names that were given slots, in order. -/
def names (log : Log) : List String :=
  log.filterMap named?

/-- The lower-case forms of the names that were given slots, in the order in which they first came up. -/
def keys (log : Log) : List String :=
  ((names log).map Text.lower).eraseDups

/-- The value that an entry of a log stored through a slot. -/
def stored? (id : VarId) : Request × Answer → Option Value
  | (.set slot value, .ok _) => if slot = id then some value else none
  | _ => none

/-- The value that was stored last through a slot, empty where none was. -/
def lastStored (log : Log) (id : VarId) : Value :=
  ((log.filterMap (stored? id)).getLast?).getD .empty

end Log

/-- A table is the finite map that a log describes. -/
structure Refines (log : Log) (vars : Variables) : Prop where
  /-- There are as many slots as keys. -/
  size_eq : vars.size = (Log.keys log).length
  /-- The slot of a name is the place of its lower-case form among the keys. -/
  find?_eq : ∀ name, vars.find? name = (Log.keys log).idxOf? (Text.lower name)
  /-- A slot goes by the first spelling that was used for its key. -/
  name_eq : ∀ id key, (Log.keys log)[id]? = some key →
    (Log.names log).find? (Text.lower · == key) = some (vars.name id)
  /-- A slot holds what was stored last through it. -/
  get_eq : ∀ id, vars.get id = Log.lastStored log id
  /-- A slot that was given out keeps its meaning. -/
  answered : ∀ request name id, (request, .ok (some id)) ∈ log → request.name? = some name → vars.find? name = some id
  /-- Two names have the same slot exactly when they differ in case only. -/
  same_iff : ∀ request request' name name' id id', (request, .ok (some id)) ∈ log → (request', .ok (some id')) ∈ log →
    request.name? = some name → request'.name? = some name' → (id = id' ↔ Text.lower name = Text.lower name')
  /-- A name that has a slot is resolved to it, and the table stays as it is. -/
  resolve_of_find? : ∀ name id, vars.find? name = some id →
    vars.resolve name = .ok (vars, id) ∧ vars.intern name = (vars, id)
  /-- A new name gets the next slot, and is found there then; it is resolved exactly when it is valid. -/
  resolve_new : ∀ name, vars.find? name = none → vars.resolve name = (Name.validate name).map (fun _ => vars.intern name) ∧
    (vars.intern name).2 = vars.size ∧ (vars.intern name).1.find? name = some vars.size
  /-- What is refused changes nothing. -/
  ask_of_error : ∀ request e, (vars.ask request).2 = .error e → (vars.ask request).1 = vars

section

variable {vars : Variables} {name : String} {id : VarId}

/-- A name that has a slot keeps it, and the table stays as it is. -/
theorem intern_of_find? (h : vars.find? name = some id) : vars.intern name = (vars, id) := by
  have h : vars.findKey? (Text.lower name) = some id := h
  simp only [intern, h]

/-- A new name gets a slot at the end of the table. -/
theorem intern_new (h : vars.find? name = none) :
    vars.intern name = ({ slots := vars.slots.push (newSlot name (Text.lower name)) }, vars.size) := by
  have h : vars.findKey? (Text.lower name) = none := h
  simp only [intern, h]

/-- A new name gets its slot if it is a valid one, and is refused otherwise. -/
theorem resolve_new (h : vars.find? name = none) :
    vars.resolve name = (Name.validate name).map fun _ => vars.intern name := by
  simp only [resolve, h]
  cases Name.validate name <;> rfl

/-- After a new slot was added, a name is found where it was before, or in the new slot if it has that slot's key. -/
theorem find?_push (vars : Variables) (name name' : String) :
    ({ slots := vars.slots.push (newSlot name (Text.lower name)) } : Variables).find? name' =
      (vars.find? name').or (if Text.lower name = Text.lower name' then some vars.size else none) := by
  simp [find?, findKey?, Array.findIdx?_push, newSlot, size]

/-- A value is stored through a slot that is no engine variable's. -/
theorem set_of_own {slot : Slot} (hslot : vars.slots[id]? = some slot) (hown : slot.builtin = none) (value : Value) :
    vars.set id value = .ok { slots := vars.slots.setIfInBounds id { slot with value := value } } := by
  simp only [set, hslot, hown]

/-- The slot that a name gets when it is new holds nothing. -/
theorem get_push (vars : Variables) (name : String) (id : VarId) :
    ({ slots := vars.slots.push (newSlot name (Text.lower name)) } : Variables).get id = vars.get id := by
  simp only [get, Array.getElem?_push]
  split
  · rename_i hid
    rw [hid, Array.getElem?_eq_none (Nat.le_refl _)]
    rfl
  · rfl

end

/-- What a table does when it is asked something. -/
inductive Step (vars : Variables) (request : Request) : Variables → Answer → Prop
  /-- A name has its slot already. -/
  | known {name : String} {id : VarId} (hname : request.name? = some name) (hfind : vars.find? name = some id) :
    Step vars request vars (.ok (some id))
  /-- A new name gets the next slot. -/
  | made {name : String} (hname : request.name? = some name) (hfind : vars.find? name = none) :
    Step vars request { slots := vars.slots.push (newSlot name (Text.lower name)) } (.ok (some vars.size))
  /-- A value is stored through a slot. -/
  | stored {id : VarId} {value : Value} {slot : Slot} (hset : request = .set id value)
    (hslot : vars.slots[id]? = some slot) (hown : slot.builtin = none) :
    Step vars request { slots := vars.slots.setIfInBounds id { slot with value := value } } (.ok none)
  /-- Something is refused. -/
  | refused {e : NameError} : Step vars request vars (.error e)

/-- Giving a name its slot is a step, whichever request asked for it. -/
theorem step_intern {vars : Variables} {request : Request} {name : String} (hname : request.name? = some name) :
    Step vars request (vars.intern name).1 (.ok (some (vars.intern name).2)) := by
  cases hfind : vars.find? name with
  | some id =>
    rw [intern_of_find? hfind]
    exact .known hname hfind
  | none =>
    rw [intern_new hfind]
    exact .made hname hfind

/-- Answering a request that fits the table is a step. -/
theorem step_ask {vars : Variables} {request : Request} (hfits : request.Fits vars) :
    Step vars request (vars.ask request).1 (vars.ask request).2 := by
  cases request with
  | resolve name =>
    cases hfind : vars.find? name with
    | some id =>
      simp only [ask, resolve_of_find? hfind]
      exact .known rfl hfind
    | none =>
      simp only [ask, resolve_new hfind]
      cases Name.validate name with
      | error e => exact .refused
      | ok _ => exact step_intern rfl
  | intern name => exact step_intern rfl
  | set id value =>
    have hlt : id < vars.slots.size := hfits id value rfl
    obtain ⟨slot, hslot⟩ : ∃ slot, vars.slots[id]? = some slot := ⟨_, Array.getElem?_eq_getElem hlt⟩
    cases hown : slot.builtin with
    | some b =>
      simp only [ask, set, hslot, hown]
      exact .refused
    | none =>
      simp only [ask, set_of_own hslot hown]
      exact .stored rfl hslot hown

/-- A step keeps every slot, up to its value. -/
theorem extends_step {vars vars' : Variables} {request : Request} {answer : Answer}
    (h : Step vars request vars' answer) : vars.Extends vars' := by
  cases h with
  | known _ _ => exact .refl vars
  | @made name hname hfind =>
    have hintern := extends_intern vars name
    rw [intern_new hfind] at hintern
    exact hintern
  | stored _ hslot hown => exact extends_set (set_of_own hslot hown _)
  | refused => exact .refl vars

namespace Log

/-- The names of a longer log end with the one that the last entry gave a slot to. -/
theorem names_append (log : Log) (entry : Request × Answer) :
    names (log ++ [entry]) = names log ++ (named? entry).toList := by
  rw [names, List.filterMap_append]
  cases h : named? entry <;> simp [names, h]

/-- A name adds its lower-case form to the keys, as the last one, unless it is one of them. -/
theorem keys_append {log : Log} {entry : Request × Answer} {name : String} (hname : named? entry = some name) :
    keys (log ++ [entry]) = if Text.lower name ∈ keys log then keys log else keys log ++ [Text.lower name] := by
  have hadd (forms : List String) (form : String) :
      (forms ++ [form]).eraseDups =
        if form ∈ forms.eraseDups then forms.eraseDups else forms.eraseDups ++ [form] := by
    rw [List.eraseDups_append]
    by_cases h : form ∈ forms <;> simp [List.removeAll, h, List.eraseDups_cons]
  rw [keys, names_append, hname, Option.toList_some, List.map_append, List.map_singleton, hadd]
  rfl

/-- A request that gives no slot to a name leaves the names. -/
theorem names_append_of_none {log : Log} {entry : Request × Answer} (h : named? entry = none) :
    names (log ++ [entry]) = names log := by
  rw [names_append, h, Option.toList_none, List.append_nil]

/-- What was stored last is what the last entry stored, if it stored anything in the slot, and what was stored before otherwise.
-/
theorem lastStored_append (log : Log) (entry : Request × Answer) (id : VarId) :
    lastStored (log ++ [entry]) id = (stored? id entry).getD (lastStored log id) := by
  rw [lastStored, List.filterMap_append]
  cases h : stored? id entry <;> simp [lastStored, h]

/-- A request for a name stores nothing. -/
theorem stored?_of_name? {request : Request} {answer : Answer} {name : String} (h : request.name? = some name)
    (id : VarId) : stored? id (request, answer) = none := by
  cases request <;> first | rfl | cases h

end Log

/-- The slots of a table are those that a log describes. -/
structure Follows (log : Log) (vars : Variables) : Prop where
  keys_eq : vars.slots.toList.map Slot.key = Log.keys log
  first : ∀ slot ∈ vars.slots, (Log.names log).find? (Text.lower · == slot.key) = some slot.name
  get_eq : ∀ id, vars.get id = Log.lastStored log id
  answered : ∀ request name id, (request, .ok (some id)) ∈ log → request.name? = some name → vars.find? name = some id

namespace Follows

variable {log : Log} {vars vars' : Variables} {request : Request} {answer : Answer}

/-- A name is found at the place of its lower-case form among the keys. -/
theorem find?_eq (h : Follows log vars) (name : String) :
    vars.find? name = (Log.keys log).idxOf? (Text.lower name) := by
  obtain ⟨⟨slots⟩⟩ := vars
  rw [← h.keys_eq, List.idxOf?, List.findIdx?_map]
  simp [find?, findKey?, Function.comp_def]

/-- The keys are the lower-case forms of the names that have slots. -/
theorem mem_keys_iff (h : Follows log vars) {name : String} :
    Text.lower name ∈ Log.keys log ↔ vars.find? name ≠ none := by
  rw [h.find?_eq, Ne, List.idxOf?_eq_none_iff, Classical.not_not]

/-- What was answered before a step holds after it, and so does the answer of the step. -/
theorem answered_step (h : Follows log vars) (hstep : Step vars request vars' answer) :
    ∀ request' name id, (request', .ok (some id)) ∈ log ++ [(request, answer)] → request'.name? = some name →
      vars'.find? name = some id := by
  intro request' name id hmem hname
  rcases List.mem_append.mp hmem with hmem | hmem
  · exact (extends_step hstep).find? (h.answered request' name id hmem hname)
  · obtain ⟨rfl, rfl⟩ := Prod.mk.inj (List.mem_singleton.mp hmem)
    cases hstep with
    | known hname' hfind =>
      obtain rfl := Option.some.inj (hname'.symm.trans hname)
      exact hfind
    | made hname' hfind =>
      obtain rfl := Option.some.inj (hname'.symm.trans hname)
      simp [find?_push, hfind]

/-- A table that follows its log still does after a step. -/
theorem step (h : Follows log vars) (hstep : Step vars request vars' answer) :
    Follows (log ++ [(request, answer)]) vars' := by
  have hanswered := h.answered_step hstep
  have hfirst (name : String) : ∀ slot ∈ vars.slots,
      (Log.names log ++ [name]).find? (Text.lower · == slot.key) = some slot.name := by
    intro slot hslot
    rw [List.find?_append, h.first slot hslot, Option.some_or]
  cases hstep with
  | @known name id hname hfind =>
    have hnamed : Log.named? (request, .ok (some id)) = some name := hname
    have hkey : Text.lower name ∈ Log.keys log := h.mem_keys_iff.mpr (by rw [hfind]; nofun)
    refine ⟨?_, ?_, ?_, hanswered⟩
    · rw [Log.keys_append hnamed, if_pos hkey, h.keys_eq]
    · rw [Log.names_append, hnamed]
      exact hfirst name
    · intro id
      rw [Log.lastStored_append, Log.stored?_of_name? hname, Option.getD_none, h.get_eq]
  | @made name hname hfind =>
    have hnamed : Log.named? (request, .ok (some vars.size)) = some name := hname
    have hkey : Text.lower name ∉ Log.keys log := fun hmem => h.mem_keys_iff.mp hmem hfind
    refine ⟨?_, ?_, ?_, hanswered⟩
    · rw [Log.keys_append hnamed, if_neg hkey, Array.toList_push, List.map_append, h.keys_eq]
      rfl
    · intro slot hslot
      rw [Log.names_append, hnamed]
      rcases Array.mem_push.mp hslot with hslot | rfl
      · exact hfirst name slot hslot
      · -- no name before this one has its lower-case form
        have hnone : (Log.names log).find? (Text.lower · == Text.lower name) = none := by
          rw [List.find?_eq_none]
          intro name' hname' heq
          refine hkey (List.mem_eraseDups.mpr ?_)
          exact List.mem_map.mpr ⟨name', hname', beq_iff_eq.mp heq⟩
        rw [newSlot, List.find?_append, hnone, Option.none_or, Option.toList_some, List.find?_singleton,
          if_pos (beq_self_eq_true _)]
    · intro id
      rw [get_push, Log.lastStored_append, Log.stored?_of_name? hname, Option.getD_none, h.get_eq]
  | @stored id value slot hset hslot hown =>
    subst hset
    obtain ⟨hlt, hget⟩ := Array.getElem?_eq_some_iff.mp hslot
    have hnames : Log.names (log ++ [(.set id value, .ok none)]) = Log.names log := Log.names_append_of_none rfl
    refine ⟨?_, ?_, ?_, hanswered⟩
    · have hkey : (vars.slots.toList.map Slot.key)[id]? = some slot.key := by simp [hslot]
      obtain ⟨hlt', hkey⟩ := List.getElem?_eq_some_iff.mp hkey
      have hsame : (vars.slots.toList.map Slot.key).set id slot.key = vars.slots.toList.map Slot.key := by
        rw [← hkey, List.set_getElem_self]
      rw [Log.keys, hnames, Array.toList_setIfInBounds, List.map_set, hsame]
      exact h.keys_eq
    · intro slot' hslot'
      rw [hnames]
      rcases Array.mem_or_eq_of_mem_setIfInBounds hslot' with hslot' | rfl
      · exact h.first slot' hslot'
      · exact h.first slot (hget ▸ Array.getElem_mem hlt)
    · intro id'
      rw [Log.lastStored_append, ← h.get_eq]
      by_cases hid : id = id'
      · subst hid
        simp [get, Log.stored?, hlt]
      · simp [get, Log.stored?, hid]
  | @refused e =>
    have hnames : Log.names (log ++ [(request, .error e)]) = Log.names log := Log.names_append_of_none rfl
    refine ⟨?_, ?_, ?_, hanswered⟩
    · rw [Log.keys, hnames]
      exact h.keys_eq
    · rw [hnames]
      exact h.first
    · intro id
      have hstored : Log.stored? id (request, .error e) = none := by cases request <;> rfl
      rw [Log.lastStored_append, hstored, Option.getD_none, h.get_eq]

end Follows

/-- Whatever was asked of a table, its slots are those that the log describes. -/
theorem Asked.follows {log : Log} {vars : Variables} (h : Asked log vars) : Follows log vars := by
  induction h with
  | fresh => exact ⟨rfl, fun _ hslot => absurd hslot (Array.not_mem_empty _), fun _ => rfl, nofun⟩
  | more _ request hfits ih => exact ih.step (step_ask hfits)

/-- A table that was empty once is the finite map that was asked for since. -/
theorem refines_of_asked (log : Log) (vars : Variables) (h : Asked log vars) : Refines log vars := by
  have hf := h.follows
  refine ⟨?_, hf.find?_eq, ?_, hf.get_eq, hf.answered, ?_, ?_, ?_, ?_⟩
  · rw [← hf.keys_eq, List.length_map]
    rfl
  · intro id key hkey
    rw [← hf.keys_eq, List.getElem?_map] at hkey
    obtain ⟨slot, hslot, rfl⟩ := Option.map_eq_some_iff.mp hkey
    have hslot : vars.slots[id]? = some slot := by simpa using hslot
    obtain ⟨hlt, hget⟩ := Array.getElem?_eq_some_iff.mp hslot
    rw [hf.first slot (hget ▸ Array.getElem_mem hlt), name, hslot]
    rfl
  · intro request request' name name' id id' hmem hmem' hname hname'
    have hid := hf.answered request name id hmem hname
    have hid' := hf.answered request' name' id' hmem' hname'
    constructor
    · rintro rfl
      rw [hf.find?_eq, List.idxOf?_eq_some_iff] at hid hid'
      obtain ⟨_, hkey, -⟩ := hid
      obtain ⟨_, hkey', -⟩ := hid'
      exact hkey.symm.trans hkey'
    · intro hlower
      rw [find?, hlower] at hid
      exact Option.some.inj (hid.symm.trans hid')
  · intro name id hfind
    exact ⟨resolve_of_find? hfind, intern_of_find? hfind⟩
  · intro name hfind
    refine ⟨resolve_new hfind, ?_⟩
    rw [intern_new hfind]
    simp [find?_push, hfind]
  · intro request e herror
    cases request with
    | resolve name =>
      simp only [ask] at herror ⊢
      split at herror
      · cases herror
      · rfl
    | intern name => cases herror
    | set id value =>
      simp only [ask] at herror ⊢
      split at herror
      · cases herror
      · rfl

/-- One name in two spellings, an engine variable, a text that is no name, and two values to store. -/
def spelledTwice : List Request :=
  [.resolve "Zähler", .intern "A_Index", .resolve "ZÄHLER", .resolve "a b", .set 0 (.text "x"), .set 1 (.text "y")]

/-- A name asked for in two spellings has one slot, and the slot of an engine variable stays empty. -/
theorem refines_spelledTwice :
    ∃ log vars, Asked log vars ∧ log.map Prod.fst = spelledTwice ∧ Log.keys log = ["zähler", "a_index"] ∧
      (Log.lastStored log 0).toText = "x" ∧ (Log.lastStored log 1).toText = "" ∧ Refines log vars := by
  have h : Asked _ _ :=
    (((((Asked.fresh.more (.resolve "Zähler") nofun).more (.intern "A_Index") nofun).more (.resolve "ZÄHLER") nofun).more
      (.resolve "a b") nofun).more (.set 0 (.text "x")) (by rintro _ _ ⟨⟩; decide +kernel)).more
      (.set 1 (.text "y")) (by rintro _ _ ⟨⟩; decide +kernel)
  exact ⟨_, _, h, rfl, by decide +kernel, by decide +kernel, by decide +kernel, refines_of_asked _ _ h⟩

end Variables

end LineScript
