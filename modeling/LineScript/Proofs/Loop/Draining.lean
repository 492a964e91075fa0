import LineScript.Proofs.Registry.Stored

/-!
# Registry loops over all values

A recursive loop over the values of a root visits each key that is found by its name once, so it ends and hands out what is
stored in these keys (`KeyCursor.drains_after`). A value stored in a key with a blank part in its path is not found. Worse, a value
stored below the root itself makes a key that is directly below itself, and the loop never gets past it (`KeyCursor.endless`).
-/

namespace LineScript

open Text Registry

/-- What a loop over values tells of an item. -/
def RegItem.tag (item : RegItem) : String × String :=
  (item.name, item.kind)

/-- What a loop over values tells of a value. -/
def RegValue.tag (value : RegValue) : String × String :=
  (value.name, value.kind)

namespace KeyCursor

/-- The items that a cursor hands out one after the other, and the cursor after them. -/
inductive HandsOut (reg : Registry) : KeyCursor → List RegItem → KeyCursor → Prop
  | none {c : KeyCursor} : HandsOut reg c [] c
  | item {c c' c'' : KeyCursor} {found : RegItem} {items : List RegItem} (h : next reg c = (some found, c'))
      (hrest : HandsOut reg c' items c'') : HandsOut reg c (found :: items) c''

/-- The items that a cursor hands out until there are no more: nothing is ready, and no key is left to visit. -/
inductive Drains (reg : Registry) : KeyCursor → List RegItem → Prop
  | done {c c' : KeyCursor} (h : next reg c = (none, c')) (hready : c'.ready = []) (hpending : c'.pending = []) : Drains reg c []
  | item {c c' : KeyCursor} {found : RegItem} {items : List RegItem} (h : next reg c = (some found, c'))
      (hrest : Drains reg c' items) : Drains reg c (found :: items)

/-- A cursor never comes to an end: it hands out as many items as one asks for. -/
def Endless (reg : Registry) (c : KeyCursor) : Prop :=
  ∀ n, ∃ items c', HandsOut reg c items c' ∧ items.length = n

variable {reg : Registry} {root : RegRoot}

/-- What is handed out next is settled, so on the way there are no more items than until the end. -/
theorem Drains.length_le {c c' : KeyCursor} {items more : List RegItem} (h : Drains reg c items) (hout : HandsOut reg c more c') :
    more.length ≤ items.length := by
  induction hout generalizing items with
  | none => exact Nat.zero_le _
  | item hitem _ ih =>
    cases h with
    | done hdone => cases hdone.symm.trans hitem
    | item hitem' hrest =>
      cases hitem.symm.trans hitem'
      exact Nat.succ_le_succ (ih hrest)

/-- A loop without end is not drained by any items. -/
theorem Endless.not_drains {c : KeyCursor} (h : Endless reg c) (items : List RegItem) : ¬ Drains reg c items := by
  intro hdrains
  obtain ⟨more, c', hout, hlength⟩ := h (items.length + 1)
  have hle := hdrains.length_le hout
  omega

/-- A cursor is drained by one list of items only. -/
theorem Drains.unique {c : KeyCursor} {items items' : List RegItem} (h : Drains reg c items) (h' : Drains reg c items') :
    items = items' := by
  induction h generalizing items' with
  | done hdone =>
    cases h' with
    | done => rfl
    | item hitem _ => cases hdone.symm.trans hitem
  | item hitem _ ih =>
    cases h' with
    | done hdone => cases hdone.symm.trans hitem
    | item hitem' hrest =>
      cases hitem.symm.trans hitem'
      rw [ih hrest]

/-! ## One visit -/

/-- The keys that are next after a key. -/
def children (reg : Registry) (root : RegRoot) (key : String) : List String :=
  (reg.subkeys root key).map (join key)

/-- The keys below those that are to be visited. -/
def ahead (reg : Registry) (root : RegRoot) (pending : List String) : List RegKey :=
  pending.flatMap fun key => reg.below root (normal key)

section

variable (hf : reg.Filed) (hclear : ¬ reg.Has root "") (ps : List Part)

include hf hclear

/-- The next keys are those directly below, each with its path spelled out. -/
theorem normal_child {c : RegKey} (hc : c ∈ reg.childKeys root (normal (path ps))) :
    ∃ spelled : Part, join (path ps) c.name = path (ps ++ [spelled]) ∧ normal (path (ps ++ [spelled])) = c.path := by
  rw [normal_path] at hc
  obtain ⟨hc, -, part, hpath⟩ := (mem_childKeys hf hclear).mp hc
  exact normal_join hf hc hpath

/-- The next keys of a key spelled out are spelled out as well. -/
theorem spelled_children {key : String} (h : key ∈ children reg root (path ps)) : ∃ qs, key = path qs := by
  rw [children, subkeys_eq, List.map_map] at h
  obtain ⟨c, hc, rfl⟩ := List.mem_map.mp h
  obtain ⟨spelled, hjoin, -⟩ := normal_child hf hclear ps hc
  exact ⟨_, hjoin⟩

/-- The values of the next keys are those of the keys directly below. -/
theorem values_children :
    (children reg root (path ps)).flatMap (reg.values root) = (reg.childKeys root (normal (path ps))).flatMap (·.values) := by
  rw [children, subkeys_eq, List.map_map, List.flatMap_map]
  refine List.flatMap_congr fun c hc => ?_
  obtain ⟨spelled, hjoin, hnormal⟩ := normal_child hf hclear ps hc
  obtain ⟨hmem, htest⟩ := List.mem_filter.mp hc
  rw [Bool.and_eq_true, beq_iff_eq] at htest
  rw [Function.comp_apply, hjoin]
  exact valuesAt_of_mem hf.sorted hmem ⟨htest.1, hnormal.symm⟩

/-- The keys below a key are the next ones and those below them. -/
theorem perm_children :
    (reg.below root (normal (path ps))).Perm
      (reg.childKeys root (normal (path ps)) ++ ahead reg root (children reg root (path ps))) := by
  have hahead : ahead reg root (children reg root (path ps)) =
      (reg.childKeys root (normal (path ps))).flatMap fun c => reg.below root c.path := by
    rw [ahead, children, subkeys_eq, List.map_map, List.flatMap_map]
    refine List.flatMap_congr fun c hc => ?_
    obtain ⟨spelled, hjoin, hnormal⟩ := normal_child hf hclear ps hc
    rw [Function.comp_apply, hjoin, hnormal]
  have hsplit := List.flatMap_append_perm (reg.childKeys root (normal (path ps))) (fun c => [c]) fun c => reg.below root c.path
  rw [List.flatMap_singleton'] at hsplit
  rw [hahead]
  refine List.Perm.trans ?_ hsplit.symm
  rw [normal_path]
  exact perm_below hf hclear _

end

/-! ## The whole loop -/

/-- A loop over all values of a root on its way. -/
def walk (root : RegRoot) (pending : List String) (ready : List RegItem) : KeyCursor :=
  { root, mode := .values, recurse := true, pending, ready }

/-- The items of a key. -/
def items (reg : Registry) (root : RegRoot) (key : String) : List RegItem :=
  (reg.values root key).map fun v => ⟨v.name, v.kind, root, key⟩

/-- The items of a key tell what its values do. -/
theorem tag_items (reg : Registry) (root : RegRoot) (key : String) :
    (items reg root key).map (·.tag) = (reg.values root key).map (·.tag) := by
  rw [items, List.map_map]
  rfl

/-- A visit puts the next keys in front of the pending ones, and the items of the key behind the ready ones. -/
theorem visit_walk (reg : Registry) (root : RegRoot) (pending : List String) (ready : List RegItem) (key : String) :
    visit reg (walk root pending ready) key =
      walk root (children reg root key ++ pending) (ready ++ items reg root key) := by
  simp [visit, walk, children, items]

/-- What may be pending in a loop: keys with their paths spelled out, with no more keys below them than there are. -/
structure Going (reg : Registry) (root : RegRoot) (pending : List String) : Prop where
  spelled : ∀ key ∈ pending, ∃ ps, key = path ps
  few : (ahead reg root pending).length ≤ reg.keys.length

/-- What a loop has still to hand out: the items that are ready, and the values of the keys to visit and of those below
them. -/
def outstanding (reg : Registry) (root : RegRoot) (pending : List String) (ready : List RegItem) : List (String × String) :=
  ready.map (·.tag) ++ (pending.flatMap (reg.values root) ++ (ahead reg root pending).flatMap (·.values)).map (·.tag)

section

variable (hf : reg.Filed) (hclear : ¬ reg.Has root "")

include hf hclear

/-- A visit to a key puts the keys directly below it in its place. -/
theorem perm_ahead (ps : List Part) (pending : List String) :
    (ahead reg root (path ps :: pending)).Perm
      (reg.childKeys root (normal (path ps)) ++ ahead reg root (children reg root (path ps) ++ pending)) := by
  rw [ahead, ahead, List.flatMap_cons, List.flatMap_append, ← List.append_assoc]
  exact (perm_children hf hclear ps).append_right _

/-- After a visit one key less is left to visit. -/
theorem length_ahead (ps : List Part) (pending : List String) :
    (children reg root (path ps) ++ pending).length + (ahead reg root (children reg root (path ps) ++ pending)).length =
      pending.length + (ahead reg root (path ps :: pending)).length := by
  have hlength := (perm_ahead hf hclear ps pending).length_eq
  have hnext : (children reg root (path ps)).length = (reg.childKeys root (normal (path ps))).length := by
    rw [children, subkeys_eq, List.length_map, List.length_map]
  rw [List.length_append] at hlength ⊢
  omega

/-- A loop on its way still is after a visit. -/
theorem Going.visit {key : String} {pending : List String} (h : Going reg root (key :: pending)) :
    Going reg root (children reg root key ++ pending) := by
  obtain ⟨ps, rfl⟩ := h.spelled key List.mem_cons_self
  refine ⟨fun key hkey => ?_, ?_⟩
  · rcases List.mem_append.mp hkey with hkey | hkey
    · exact spelled_children hf hclear ps hkey
    · exact h.spelled key (List.mem_cons_of_mem _ hkey)
  · have hlength := (perm_ahead hf hclear ps pending).length_eq
    have hfew := h.few
    rw [List.length_append] at hlength
    omega

/-- A visit changes nothing about what is to be handed out. -/
theorem perm_outstanding (ps : List Part) (pending : List String) :
    (outstanding reg root (path ps :: pending) []).Perm
      (outstanding reg root (children reg root (path ps) ++ pending) (items reg root (path ps))) := by
  have hahead := (perm_ahead hf hclear ps pending).flatMap_right (·.values)
  rw [List.flatMap_append] at hahead
  rw [outstanding, outstanding, tag_items, ← List.map_append, List.map_nil, List.nil_append, List.flatMap_cons,
    List.flatMap_append, values_children hf hclear]
  refine List.Perm.map _ ?_
  rw [List.append_assoc]
  refine List.Perm.append_left _ ((hahead.append_left _).trans ?_)
  rw [← List.append_assoc]
  exact List.perm_append_comm.append_right _

/-- Within enough rounds, a loop on its way comes to an item that is outstanding, or to its end if nothing is. -/
theorem nextWithin_walk {fuel : Nat} {pending : List String} {ready : List RegItem} (h : Going reg root pending)
    (hfuel : pending.length + (ahead reg root pending).length < fuel) :
    (∃ found pending' ready', nextWithin reg fuel (walk root pending ready) = (some found, walk root pending' ready') ∧
        Going reg root pending' ∧
        (outstanding reg root pending ready).Perm (found.tag :: outstanding reg root pending' ready')) ∨
      nextWithin reg fuel (walk root pending ready) = (none, walk root [] []) ∧ outstanding reg root pending ready = [] := by
  induction fuel generalizing pending ready with
  | zero => cases hfuel
  | succ fuel ih =>
    cases ready with
    | cons found ready => exact .inl ⟨found, pending, ready, rfl, h, List.Perm.refl _⟩
    | nil =>
      cases pending with
      | nil => exact .inr ⟨rfl, rfl⟩
      | cons key pending =>
        obtain ⟨ps, rfl⟩ := h.spelled key List.mem_cons_self
        have hstep : nextWithin reg (fuel + 1) (walk root (path ps :: pending) []) =
            nextWithin reg fuel (walk root (children reg root (path ps) ++ pending) (items reg root (path ps))) := by
          rw [← List.nil_append (items reg root (path ps)), ← visit_walk]
          rfl
        have hlength := length_ahead hf hclear ps pending
        rw [List.length_cons] at hfuel
        have hperm := perm_outstanding hf hclear ps pending
        rw [hstep]
        rcases @ih _ (items reg root (path ps)) (h.visit hf hclear) (by omega) with
          ⟨found, pending', ready', hnext, hgoing, hout⟩ | ⟨hnext, hout⟩
        · exact .inl ⟨found, pending', ready', hnext, hgoing, hperm.trans hout⟩
        · exact .inr ⟨hnext, List.perm_nil.mp (hout ▸ hperm)⟩

/-- The next item is one that is outstanding. There is none only if nothing is, and then the loop has come to its end. -/
theorem next_walk {pending : List String} (ready : List RegItem) (h : Going reg root pending) :
    (∃ found pending' ready', next reg (walk root pending ready) = (some found, walk root pending' ready') ∧
        Going reg root pending' ∧
        (outstanding reg root pending ready).Perm (found.tag :: outstanding reg root pending' ready')) ∨
      next reg (walk root pending ready) = (none, walk root [] []) ∧ outstanding reg root pending ready = [] := by
  refine nextWithin_walk hf hclear h ?_
  have hfew := h.few
  have hpending : (walk root pending ready).pending.length = pending.length := rfl
  omega

/-- A loop on its way hands out what is outstanding, and ends. -/
theorem drains_walk {pending : List String} {ready : List RegItem} (h : Going reg root pending) :
    ∃ items, Drains reg (walk root pending ready) items ∧
      (items.map (·.tag)).Perm (outstanding reg root pending ready) := by
  induction hn : (outstanding reg root pending ready).length generalizing pending ready with
  | zero =>
    have hnil := List.length_eq_zero_iff.mp hn
    rcases next_walk hf hclear ready h with ⟨found, pending', ready', -, -, hperm⟩ | ⟨hnext, -⟩
    · rw [hnil] at hperm
      exact absurd (List.nil_perm.mp hperm) (List.cons_ne_nil _ _)
    · exact ⟨[], .done hnext rfl rfl, by rw [hnil]; exact List.Perm.refl _⟩
  | succ n ih =>
    rcases next_walk hf hclear ready h with ⟨found, pending', ready', hnext, hgoing, hperm⟩ | ⟨-, hnil⟩
    · have hlength := hperm.length_eq
      rw [List.length_cons] at hlength
      obtain ⟨items, hdrains, hitems⟩ := @ih _ ready' hgoing (by omega)
      exact ⟨found :: items, .item hnext hdrains, (hitems.cons found.tag).trans hperm.symm⟩
    · rw [hnil] at hn
      cases hn

end

/-- A loop over all values of a root starts with the root itself to be visited. -/
theorem start_top (root : RegRoot) : start root "" .values true = walk root [""] [] := by
  have htrim : trimBy (· == '\\') "" = "" := trimmed_path []
  rw [start, htrim]
  rfl

/-- From the top, a loop hands out the values of all keys that no blank part hides. -/
theorem exists_drains (hf : reg.Filed) (hclear : ¬ reg.Has root "") :
    ∃ items, Drains reg (start root "" .values true) items ∧
      (items.map (·.tag)).Perm (((reg.below root "").flatMap (·.values)).map (·.tag)) := by
  have hgoing : Going reg root [""] := by
    refine ⟨fun key hkey => ⟨[], List.mem_singleton.mp hkey⟩, ?_⟩
    rw [ahead, List.flatMap_singleton]
    exact List.length_filter_le _ _
  have hout : outstanding reg root [""] [] = ((reg.below root "").flatMap (·.values)).map (·.tag) := by
    have hnone : reg.values root "" = [] := valuesAt_of_not_has hclear
    rw [outstanding, ahead, List.flatMap_singleton, List.flatMap_singleton, hnone]
    rfl
  rw [start_top, ← hout]
  exact drains_walk hf hclear hgoing

/-! ## Values below the root itself -/

/-- A key with a blank path is the first of those directly below itself. -/
theorem children_blank (hf : reg.Filed) (h : reg.Has root "") : ∃ rest, children reg root "" = "" :: rest := by
  obtain ⟨k, hk, hroot, hpath⟩ := h
  have hname : k.name = "" := by
    rcases hf.known k hk with ⟨above, part, hpath', -⟩ | ⟨hname, -⟩
    · exact absurd (path_eq_empty_iff.mp (hpath'.symm.trans hpath)) (by simp)
    · exact hname
  obtain ⟨before, after, hkeys⟩ := List.append_of_mem hk
  have hbefore : ∀ a ∈ before, ¬ (a.root == root && isWithin "" a.path) = true := by
    intro a ha hwithin
    rw [Bool.and_eq_true, beq_iff_eq] at hwithin
    have hsorted := hf.sorted
    rw [hkeys, List.pairwise_append] at hsorted
    rcases hsorted.2.2 a ha k List.mem_cons_self with hrank | ⟨-, hlt⟩
    · rw [hwithin.1, hroot] at hrank
      exact Nat.lt_irrefl _ hrank
    · rw [hpath] at hlt
      exact List.not_lt_nil _ (String.lt_iff.mp hlt)
  have hfirst : reg.childKeys root "" = k :: after.filter fun a => a.root == root && isWithin "" a.path := by
    rw [childKeys, hkeys, List.filter_append, List.filter_eq_nil_iff.mpr hbefore, List.nil_append, List.filter_cons_of_pos]
    rw [hroot, hpath]
    simp [isWithin, has]
  refine ⟨(after.filter fun a => a.root == root && isWithin "" a.path).map fun a => join "" a.name, ?_⟩
  rw [children, subkeys_eq, normal_empty, hfirst, List.map_map, List.map_cons, Function.comp_apply, hname]
  rfl

/-- A loop at a key with a blank path, in which there is a value, has a next item and comes back to that key. -/
theorem next_blank (hf : reg.Filed) (h : reg.valuesAt root "" ≠ []) (pending : List String) (ready : List RegItem) :
    ∃ found pending' ready',
      next reg (walk root ("" :: pending) ready) = (some found, walk root ("" :: pending') ready') := by
  cases ready with
  | cons found ready => exact ⟨found, pending, ready, rfl⟩
  | nil =>
    have hhas : reg.Has root "" := Classical.byContradiction fun hnone => h (valuesAt_of_not_has hnone)
    obtain ⟨rest, hchildren⟩ := children_blank hf hhas
    have hitems : items reg root "" ≠ [] := by
      rw [items, Registry.values, normal_empty]
      exact mt List.map_eq_nil_iff.mp h
    obtain ⟨found, ready, hready⟩ := List.exists_cons_of_ne_nil hitems
    refine ⟨found, rest ++ pending, ready, ?_⟩
    have hvisit := visit_walk reg root pending [] ""
    rw [hchildren, hready] at hvisit
    calc
      next reg (walk root ("" :: pending) []) =
          nextWithin reg (pending.length + 1 + reg.keys.length + 1) (visit reg (walk root pending []) "") := rfl
      _ = _ := by
        rw [hvisit]
        rfl

/-- A loop that comes to a key with a blank path, in which there is a value, does not end. -/
theorem endless (hf : reg.Filed) (h : reg.valuesAt root "" ≠ []) : Endless reg (start root "" .values true) := by
  have hwalk (n : Nat) (pending : List String) (ready : List RegItem) :
      ∃ items c', HandsOut reg (walk root ("" :: pending) ready) items c' ∧ items.length = n := by
    induction n generalizing pending ready with
    | zero => exact ⟨[], _, .none, rfl⟩
    | succ n ih =>
      obtain ⟨found, pending', ready', hnext⟩ := next_blank hf h pending ready
      obtain ⟨items, c', hout, hlength⟩ := ih pending' ready'
      exact ⟨found :: items, c', .item hnext hout, congrArg (· + 1) hlength⟩
  intro n
  rw [start_top]
  exact hwalk n [] []

/-- A recursive loop over the values of a root ends exactly if no value was stored below the root itself. Then it hands out the
values that are stored in keys without blank parts in their paths, each once. Otherwise it hands out items without end. -/
theorem drains_after (requests : List Request) (root : RegRoot) :
    ((∃ items, Drains (after requests) (start root "" .values true) items) ↔
        ∀ key value, .set root key value ∈ requests → trimBy (· == '\\') key ≠ "") ∧
      (∀ items, Drains (after requests) (start root "" .values true) items →
        (items.map (·.tag)).Perm
          (((stored root requests).filter fun entry => !holdsBlank entry.1).map (·.2.tag))) ∧
      ∀ key value, .set root key value ∈ requests → trimBy (· == '\\') key = "" →
        Endless (after requests) (start root "" .values true) := by
  have hf := filed_after requests
  have hcircles (hblank : (after requests).Has root "") : Endless (after requests) (start root "" .values true) :=
    endless hf (valuesAt_blank_ne_nil hblank)
  have hhas {key : String} {value : RegValue} (hset : .set root key value ∈ requests) (htrim : trimBy (· == '\\') key = "") :
      (after requests).Has root "" := by
    have hstored := has_after (List.mem_filterMap.mpr ⟨_, hset, if_pos rfl⟩)
    have hnormal : normal key = "" := by rw [normal, htrim]; rfl
    rwa [hnormal] at hstored
  refine ⟨?_, ?_, fun key value hset htrim => hcircles (hhas hset htrim)⟩
  · constructor
    · rintro ⟨items, h⟩ key value hset htrim
      exact (hcircles (hhas hset htrim)).not_drains items h
    · intro hall
      by_cases hblank : (after requests).Has root ""
      · obtain ⟨entry, hentry, hpath⟩ := exists_of_has_blank hblank
        obtain ⟨request, hrequest, hvalue⟩ := List.mem_filterMap.mp hentry
        obtain ⟨key, rfl, hnormal⟩ := Request.value?_eq_some hvalue
        exact absurd (lower_eq_empty_iff.mp (hnormal.symm.trans hpath)) (hall key _ hrequest)
      · obtain ⟨items, hdrains, -⟩ := exists_drains hf hblank
        exact ⟨items, hdrains⟩
  · intro items h
    have hblank : ¬ (after requests).Has root "" := fun hblank => (hcircles hblank).not_drains items h
    obtain ⟨items', hdrains, hperm⟩ := exists_drains hf hblank
    rw [h.unique hdrains]
    have hstored := (perm_stored root requests).map (·.tag)
    rw [List.map_map] at hstored
    exact hperm.trans hstored

/-- Values of one program in two keys, one of them stored twice, and a value that a blank part hides. -/
def versions : List Request := [
  .create .currentUser "Software\\App\\Cache",
  .set .currentUser "Software\\App" ⟨"Version", "REG_SZ", "1.0"⟩,
  .set .currentUser "software\\APP\\Plugins\\" ⟨"Count", "REG_DWORD", "2"⟩,
  .set .currentUser "SOFTWARE\\app" ⟨"VERSION", "REG_SZ", "1.1"⟩,
  .set .currentUser "Software\\\\App" ⟨"Lost", "REG_SZ", ""⟩]

/-- The loop over `versions` hands out the value that was stored last under each name, and not the hidden one. -/
theorem drains_versions :
    ∃ items, Drains (after versions) (start .currentUser "" .values true) items ∧
      (items.map (·.tag)).Perm [("Count", "REG_DWORD"), ("VERSION", "REG_SZ")] := by
  have hstored : ((stored .currentUser versions).filter fun entry => !holdsBlank entry.1).map (·.2.tag) =
      [("Count", "REG_DWORD"), ("VERSION", "REG_SZ")] := by decide +kernel
  obtain ⟨hends, hperm, -⟩ := drains_after versions .currentUser
  have hkeys : ∀ key value, .set .currentUser key value ∈ versions → trimBy (· == '\\') key ≠ "" := by
    intro key value hset
    simp only [versions, List.mem_cons, reduceCtorEq, Request.set.injEq, true_and, List.not_mem_nil, or_false,
      false_or] at hset
    rcases hset with ⟨rfl, -⟩ | ⟨rfl, -⟩ | ⟨rfl, -⟩ | ⟨rfl, -⟩ <;> decide
  obtain ⟨items, hdrains⟩ := hends.mpr hkeys
  exact ⟨items, hdrains, hstored ▸ hperm items hdrains⟩

/-- A value is stored in a key that is not found, and another one in a key below itself. -/
theorem hides_and_circles :
    (stored .currentUser [.set .currentUser "a\\\\b" ⟨"v", "REG_SZ", ""⟩] = [("a\\\\b", ⟨"v", "REG_SZ", ""⟩)] ∧
        Drains (after [.set .currentUser "a\\\\b" ⟨"v", "REG_SZ", ""⟩]) (start .currentUser "" .values true) []) ∧
      Endless (after [.set .currentUser "" ⟨"v", "REG_SZ", ""⟩]) (start .currentUser "" .values true) ∧
      ∀ items, ¬ Drains (after [.set .currentUser "" ⟨"v", "REG_SZ", ""⟩]) (start .currentUser "" .values true) items := by
  have hnone : next (after [.set .currentUser "a\\\\b" ⟨"v", "REG_SZ", ""⟩]) (start .currentUser "" .values true) =
      (none, walk .currentUser [] []) := by decide +kernel
  have hcircles : Endless (after [.set .currentUser "" ⟨"v", "REG_SZ", ""⟩]) (start .currentUser "" .values true) :=
    endless (filed_after _) (by decide +kernel)
  exact ⟨⟨by decide +kernel, .done hnone rfl rfl⟩, hcircles, hcircles.not_drains⟩

end KeyCursor

end LineScript
