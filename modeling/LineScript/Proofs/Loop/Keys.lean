import LineScript.Proofs.Loop.Draining
import LineScript.Proofs.Loop.Tours
import LineScript.Proofs.Registry.Asked

/-!
# Loops over keys and values

A loop makes a tour through a key and, if it recurses, those below it, in the order of their lower-case names. In each one it hands out
the subkeys and then the values, as far as they are wanted. In a registry that was filled by requests for keys without blank parts it
comes to every key that was asked for at or below the first one, once (`KeyCursor.drains_asked`).
-/

namespace LineScript

open Text Registry

namespace KeyCursor

/-! ## The loop -/

section

variable (reg : Registry) (root : RegRoot) (mode : KeyMode) (recurse : Bool)

/-- A loop on its way: the keys to visit, next first, and the items found and not handed out yet. -/
def going (todo : List String) (ready : List RegItem) : KeyCursor :=
  { root, mode, recurse, pending := todo, ready }

/-- The keys to visit after a key and before those beside it. -/
def inner (key : String) : List String :=
  if recurse then children reg root key else []

/-- The items of a key: its subkeys and its values, as far as they are wanted. -/
def itemsOf (key : String) : List RegItem :=
  (if mode == .values then [] else (reg.subkeys root key).map fun name => ⟨name, "KEY", root, key⟩) ++
    if mode == .keys then [] else items reg root key

/-- A loop over a registry makes a tour through its keys. -/
def tourLoop : TourLoop String RegItem KeyCursor (Option RegItem × KeyCursor) where
  going := going root mode recurse
  nextWithin := nextWithin reg
  found item c := (some item, c)
  ended c := (none, c)
  inner := inner reg root recurse
  own := itemsOf reg root mode
  Open _ := True
  ready _ todo _ _ := by cases todo <;> rfl
  finish _ := rfl
  visit rounds key rest _ := rfl

end

variable {reg : Registry} {root : RegRoot} {mode : KeyMode} {recurse : Bool}

/-- What the loop of a tour yields drains the cursor. -/
theorem drains_of_yields {c : KeyCursor} {items : List RegItem}
    (h : (tourLoop reg root mode recurse).Yields (next reg) c items) : Drains reg c items := by
  induction h with
  | ended h => exact .done h rfl rfl
  | found h _ ih => exact .item h ih

/-- The items are those of the keys of the tour, one after the other. Rounds for as many keys as there are are enough. -/
theorem drains_of_tour (mode : KeyMode) {todo visited : List String} (htour : Tour (inner reg root recurse) todo visited)
    (hfew : visited.length ≤ todo.length + reg.keys.length) :
    Drains reg (going root mode recurse todo []) (visited.flatMap (itemsOf reg root mode)) := by
  have hyields : (tourLoop reg root mode recurse).Yields (next reg) (going root mode recurse todo [])
      (visited.flatMap (itemsOf reg root mode)) :=
    TourLoop.yields_of_tour (fun _ _ => rfl) htour (fun _ _ => trivial) hfew
  exact drains_of_yields hyields

/-! ## The keys that are visited -/

/-- The size of a key: the number of the keys below it, and itself. -/
def size (reg : Registry) (root : RegRoot) (key : String) : Nat :=
  1 + (reg.below root (normal key)).length

/-- The sizes of the pending keys add up to the number of the keys to visit, those below them included. -/
theorem sum_size (todo : List String) : (todo.map (size reg root)).sum = todo.length + (ahead reg root todo).length := by
  induction todo with
  | nil => rfl
  | cons key todo ih =>
    rw [List.map_cons, List.sum_cons, ih, size, ahead, ahead, List.flatMap_cons, List.length_append, List.length_cons]
    omega

/-- The path of a key, in parts. -/
def placeOf (key : String) : List String :=
  parts (normal key)

/-- The place of a path is named by its parts in lower case. -/
theorem placeOf_path (ps : List Part) : placeOf (path ps) = (ps.map Part.lower).map Part.text := by
  rw [placeOf, normal_path, parts_path]

section

variable (hf : reg.Filed) (hclear : ¬ reg.Has root "")

include hf hclear

/-- The keys directly below a key, each with the path under which it is visited. -/
theorem mem_children {ps : List Part} {key : String} (h : key ∈ children reg root (path ps)) :
    ∃ part : Part, key = path (ps ++ [part]) ∧ reg.Has root (normal key) := by
  rw [children, subkeys_eq, List.map_map] at h
  obtain ⟨k, hk, rfl⟩ := List.mem_map.mp h
  obtain ⟨part, hjoin, hnormal⟩ := normal_child hf hclear ps hk
  obtain ⟨hmem, hroot⟩ := List.mem_filter.mp hk
  rw [Bool.and_eq_true, beq_iff_eq] at hroot
  refine ⟨part, hjoin, k, hmem, hroot.1, ?_⟩
  rw [Function.comp_apply, hjoin, hnormal]

/-- A subkey is one step further on. -/
theorem placeOf_join {ps : List Part} {name : String} (h : name ∈ reg.subkeys root (path ps)) :
    placeOf (join (path ps) name) = placeOf (path ps) ++ [Text.lower name] := by
  rw [subkeys_eq, normal_path] at h
  obtain ⟨k, hk, rfl⟩ := List.mem_map.mp h
  obtain ⟨hmem, -, part, hpath⟩ := (mem_childKeys hf hclear).mp hk
  obtain ⟨⟨spelled, -, hname⟩, -⟩ := hf.spelled hmem hpath
  rw [hname, ← path_concat, placeOf_path, placeOf_path, List.map_append, List.map_append]
  rfl

/-- The tour from a key ends. It comes to no more keys than there are. -/
theorem exists_tour (recurse : Bool) (ps : List Part) :
    ∃ visited, Tour (inner reg root recurse) [path ps] visited ∧ visited.length ≤ 1 + reg.keys.length := by
  have hinner : ∀ key, (∃ qs, key = path qs) → ∀ child ∈ inner reg root recurse key, ∃ qs, child = path qs := by
    rintro _ ⟨qs, rfl⟩ child hchild
    rw [inner] at hchild
    split at hchild
    · exact spelled_children hf hclear qs hchild
    · cases hchild
  have hsize : ∀ key, (∃ qs, key = path qs) → ((inner reg root recurse key).map (size reg root)).sum < size reg root key := by
    rintro _ ⟨qs, rfl⟩
    rw [inner, size]
    split
    · have hperm := (perm_children hf hclear qs).length_eq
      have hnext : (children reg root (path qs)).length = (reg.childKeys root (normal (path qs))).length := by
        rw [children, subkeys_eq, List.length_map, List.length_map]
      rw [List.length_append] at hperm
      rw [sum_size]
      omega
    · rw [List.map_nil, List.sum_nil]
      omega
  obtain ⟨visited, htour, hlength⟩ := Tour.exists_tour hinner hsize [path ps] (by simp)
  refine ⟨visited, htour, Nat.le_trans hlength ?_⟩
  have hbelow : (reg.below root (normal (path ps))).length ≤ reg.keys.length := List.length_filter_le _ _
  simpa [size] using hbelow

variable {ps : List Part} {visited : List String} (htour : Tour (inner reg root recurse) [path ps] visited)

include htour

/-- A tour comes to keys at or below the one it starts from. -/
theorem path_of_visited :
    ∀ key ∈ visited, ∃ qs, key = path (ps ++ qs) ∧ (qs ≠ [] → recurse = true ∧ reg.Has root (normal key)) := by
  refine htour.forall_visited ?_ ?_
  · intro key hkey
    exact ⟨[], by rw [List.mem_singleton.mp hkey, List.append_nil], fun h => absurd rfl h⟩
  · rintro _ ⟨qs, rfl, -⟩ child hchild
    rw [inner] at hchild
    split at hchild
    · obtain ⟨part, rfl, hhas⟩ := mem_children hf hclear hchild
      exact ⟨qs ++ [part], by rw [List.append_assoc], fun _ => ⟨‹_›, hhas⟩⟩
    · cases hchild

/-- If it recurses, it comes to all of them. -/
theorem visited_of_has (rest : List Part) (h : rest = [] ∨ recurse = true ∧ reg.Has root (path (ps.map Part.lower ++ rest))) :
    ∃ key ∈ visited, normal key = path (ps.map Part.lower ++ rest) := by
  induction rest using List.reverseRecOn with
  | nil => exact ⟨path ps, htour.subset List.mem_cons_self, by rw [normal_path, List.append_nil]⟩
  | append_singleton rest part ih =>
    obtain ⟨hrecurse, hhas⟩ := h.resolve_left (by simp)
    rw [← List.append_assoc] at hhas
    obtain ⟨key, hkey, hnormal⟩ := ih <| by
      by_cases hrest : rest = []
      · exact .inl hrest
      · exact .inr ⟨hrecurse, hf.has_above (by simp [hrest]) hhas⟩
    obtain ⟨qs, rfl, -⟩ := path_of_visited hf hclear htour key hkey
    obtain ⟨k, hk, hroot, hpath⟩ := hhas
    rw [normal_path] at hnormal
    have hchild : k ∈ reg.childKeys root (normal (path (ps ++ qs))) := by
      rw [normal_path, mem_childKeys hf hclear]
      exact ⟨hk, hroot, part, by rw [hpath, path_injective hnormal]⟩
    obtain ⟨spelled, hjoin, hplace⟩ := normal_child hf hclear _ hchild
    refine ⟨join (path (ps ++ qs)) k.name, htour.inner_subset _ hkey ?_, by rw [hjoin, hplace, hpath, List.append_assoc]⟩
    rw [inner, if_pos hrecurse]
    exact List.mem_map_of_mem (List.mem_map_of_mem hchild)

/-- Each key is visited once at most. -/
theorem nodup_visited : (visited.map normal).Nodup := by
  have hplaces : (visited.map placeOf).Nodup := by
    refine htour.nodup (fun key hkey child hchild => ?_) (fun key hkey => ?_) (List.pairwise_singleton _ _)
    · obtain ⟨qs, rfl, -⟩ := path_of_visited hf hclear htour key hkey
      rw [inner] at hchild
      split at hchild
      · obtain ⟨part, rfl, -⟩ := mem_children hf hclear hchild
        exact ⟨part.lower.text, by rw [placeOf_path, placeOf_path, List.map_append, List.map_append]; rfl⟩
      · cases hchild
    · obtain ⟨qs, rfl, -⟩ := path_of_visited hf hclear htour key hkey
      rw [inner]
      split
      · rw [children, List.map_map]
        refine List.pairwise_map.mpr ((pairwise_subkeys hf hclear (ps ++ qs)).imp_of_mem fun {a b} ha hb hlt heq => ?_)
        rw [Function.comp_apply, Function.comp_apply, placeOf_join hf hclear ha, placeOf_join hf hclear hb] at heq
        rw [(List.cons.inj (List.append_cancel_left heq)).1] at hlt
        exact String.lt_irrefl _ hlt
      · exact List.nodup_nil
  have hparts : visited.map placeOf = (visited.map normal).map parts := by
    rw [List.map_map]
    exact List.map_congr_left fun key _ => by rw [Function.comp_apply, placeOf]
  exact List.Nodup.of_map parts (hparts ▸ hplaces)

end

/-- A loop starts with the key of its path to be visited. -/
theorem start_path (root : RegRoot) (ps : List Part) (mode : KeyMode) (recurse : Bool) :
    start root (path ps) mode recurse = going root mode recurse [path ps] [] := by
  rw [start, trimmed_path]
  rfl

/-- A loop from a key ends, if requests for keys without blank parts filled the registry. It makes a tour through the key and, if it
recurses, those below it, and hands out what is wanted in each: the subkeys in the order of their lower-case names, under the names
they were first created with, then the values in the order in which their names were first stored, with what was stored last. It comes
to every key that was asked for at or below the first one, once, and an item tells the path under which its key was visited. -/
theorem drains_asked (requests : List Request) (hproper : Proper requests) (root : RegRoot) (key : String)
    (hkey : key = "" ∨ holdsBlank key = false) (mode : KeyMode) (recurse : Bool) :
    ∃ visited : List String,
      Tour (inner (after requests) root recurse) [key] visited ∧
      Drains (after requests) (start root key mode recurse) (visited.flatMap (itemsOf (after requests) root mode)) ∧
      (visited.map normal).Nodup ∧
      (∀ p, p ∈ visited.map normal ↔
        p = normal key ∨ recurse = true ∧ ∃ k ∈ requests.flatMap Request.keys, isBelow root (normal key) k = true ∧ k.path = p) ∧
      ∀ v ∈ visited,
        (((after requests).subkeys root v).Pairwise fun a b => Text.lower a < Text.lower b) ∧
        (∀ name, name ∈ (after requests).subkeys root v ↔ spelling requests root (normal (join v name)) = some name) ∧
        ((after requests).values root v).map (asciiLower ·.name) =
          ((storedIn requests root (normal v)).map (asciiLower ·.name)).eraseDups ∧
        ((after requests).values root v).Perm (latest RegValue.sameName (storedIn requests root (normal v))) := by
  have hf := filed_after requests
  have hclear : ¬ (after requests).Has root "" := not_has_blank hproper
  obtain ⟨ps, rfl⟩ : ∃ ps, key = path ps := by
    rcases hkey with rfl | hkey
    · exact ⟨[], rfl⟩
    · obtain ⟨ps, -, hpath⟩ := exists_path hkey
      exact ⟨ps, hpath.symm⟩
  obtain ⟨visited, htour, hlength⟩ := exists_tour hf hclear recurse ps
  have hpaths := path_of_visited hf hclear htour
  refine ⟨visited, htour, ?_, nodup_visited hf hclear htour, fun p => ⟨fun hp => ?_, fun hp => ?_⟩, fun v hv => ?_⟩
  · rw [start_path]
    exact drains_of_tour mode htour hlength
  · obtain ⟨v, hv, rfl⟩ := List.mem_map.mp hp
    obtain ⟨qs, rfl, hhas⟩ := hpaths v hv
    by_cases hqs : qs = []
    · exact .inl (by rw [hqs, List.append_nil])
    · obtain ⟨hrecurse, hhas⟩ := hhas hqs
      obtain ⟨k, hk, hroot, hpath⟩ := (has_after_iff hproper).mp hhas
      refine .inr ⟨hrecurse, k, hk, ?_, hpath⟩
      rw [normal_path, isBelow_iff]
      exact ⟨hroot, qs.map Part.lower, by simpa using hqs, by rw [hpath, normal_path, List.map_append]⟩
  · rcases hp with rfl | ⟨hrecurse, k, hk, hbelow, rfl⟩
    · exact List.mem_map_of_mem (htour.subset List.mem_cons_self)
    · rw [normal_path, isBelow_iff] at hbelow
      obtain ⟨hroot, rest, -, hpath⟩ := hbelow
      have hhas : (after requests).Has root (path (ps.map Part.lower ++ rest)) :=
        (has_after_iff hproper).mpr ⟨k, hk, hroot, hpath⟩
      obtain ⟨v, hv, hnormal⟩ := visited_of_has hf hclear htour rest (.inr ⟨hrecurse, hhas⟩)
      exact List.mem_map.mpr ⟨v, hv, hnormal.trans hpath.symm⟩
  · obtain ⟨qs, rfl, -⟩ := hpaths v hv
    have hvalues : (after requests).values root (path (ps ++ qs)) =
        (storedIn requests root (normal (path (ps ++ qs)))).foldl (fun stored value => putValue value stored) [] :=
      valuesAt_after root _ requests
    rw [hvalues]
    exact ⟨pairwise_subkeys hf hclear _, fun name => mem_subkeys_after hproper _, names_foldl_putValue _, foldl_putValue_perm _⟩

/-- Keys of one program, asked for in several spellings. -/
def plugins : List Request := [
  .create .currentUser "Software\\App\\Cache",
  .set .currentUser "software\\APP" ⟨"Version", "REG_SZ", "1.0"⟩,
  .set .currentUser "SOFTWARE\\app\\Plugins" ⟨"Count", "REG_DWORD", "2"⟩,
  .set .currentUser "Software\\App" ⟨"VERSION", "REG_SZ", "1.1"⟩]

/-- The loop over the plugins comes to the key two levels below its start. -/
theorem drains_asked_plugins :
    ∃ visited, Tour (inner (after plugins) .currentUser true) ["software"] visited ∧
      Drains (after plugins) (start .currentUser "software" .both true)
        (visited.flatMap (itemsOf (after plugins) .currentUser .both)) ∧
      "software\\app\\plugins" ∈ visited.map normal := by
  have hproper : Proper plugins := by
    unfold Proper
    decide
  obtain ⟨visited, htour, hdrains, -, hvisited, -⟩ := drains_asked plugins hproper .currentUser "software" (.inr (by decide)) .both true
  refine ⟨visited, htour, hdrains, (hvisited _).mpr (.inr ⟨rfl, ?_⟩)⟩
  decide +kernel

end KeyCursor

end LineScript
