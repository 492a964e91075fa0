import LineScript.Proofs.Registry.Stored

/-!
# Keys that were asked for

A request creates the keys of its path from the top down (`Request.keys`). Where no path holds a blank part, these are all keys there
are, and each has the spelling it was first created with (`Registry.nameAt_after`). So a subkey is listed exactly if it was asked for,
under its first spelling (`Registry.mem_subkeys_after`), in the order of the lower-case names (`Registry.pairwise_subkeys`). The values
of a key stand in the order in which their names were first stored (`Registry.names_foldl_putValue`).
-/

namespace LineScript

open Text

namespace Registry

/-! ## Names of keys -/

section

variable {reg : Registry} {root : RegRoot} {p : String} {keys : List RegKey}

/-- The name of the key at a place, if there is one. -/
def nameAt (reg : Registry) (root : RegRoot) (p : String) : Option String :=
  (reg.find? root p).map (·.name)

/-- In a registry whose keys are in order, the key found at a place is the one there. -/
theorem find?_eq_some_iff (h : reg.keys.Pairwise RegKey.Precedes) {k : RegKey} :
    reg.find? root p = some k ↔ k ∈ reg.keys ∧ k.At root p := by
  refine ⟨find?_eq_some, fun ⟨hk, hat⟩ => ?_⟩
  obtain ⟨found, hfound⟩ := exists_find? ⟨k, hk, hat⟩
  obtain ⟨hmem, hplace⟩ := find?_eq_some hfound
  rw [hfound, eq_of_at h hmem hk ⟨hat.1.trans hplace.1.symm, hat.2.trans hplace.2.symm⟩]

/-- A key that is put in is found where none was before. -/
theorem find?_insertKey (h : keys.Pairwise RegKey.Precedes) (key : RegKey) (root : RegRoot) (p : String) :
    find? ⟨insertKey key keys⟩ root p = (find? ⟨keys⟩ root p).or ([key].find? fun k => k.root == root && k.path == p) := by
  have hsorted : (insertKey key keys).Pairwise RegKey.Precedes := pairwise_insertKey h
  cases hfind : find? ⟨keys⟩ root p with
  | some k =>
    obtain ⟨hk, hat⟩ := find?_eq_some hfind
    exact (find?_eq_some_iff hsorted).mpr ⟨mem_insertKey_of_mem hk, hat⟩
  | none =>
    have hnone {k : RegKey} (hk : k ∈ insertKey key keys) (hat : k.At root p) : k = key := by
      refine (mem_insertKey hk).resolve_left fun hold => ?_
      obtain ⟨found, hfound⟩ := exists_find? (⟨k, hold, hat⟩ : Has ⟨keys⟩ root p)
      cases hfind.symm.trans hfound
    rw [Option.none_or]
    by_cases hat : key.At root p
    · obtain ⟨k, hk, hroot, hpath⟩ := exists_insertKey key keys
      obtain rfl := hnone hk ⟨hroot.trans hat.1, hpath.trans hat.2⟩
      rw [List.find?_cons_of_pos (by simp [hat.1, hat.2])]
      exact (find?_eq_some_iff hsorted).mpr ⟨hk, hat⟩
    · rw [List.find?_cons_of_neg (by simpa [RegKey.At] using hat), List.find?_nil]
      cases hnew : find? ⟨insertKey key keys⟩ root p with
      | none => rfl
      | some k =>
        obtain ⟨hk, hk'⟩ := find?_eq_some hnew
        exact absurd (hnone hk hk' ▸ hk') hat

/-- The keys that are created for some parts below another key, from the top down. -/
def created (root : RegRoot) : (above : String) → List String → List RegKey
  | _, [] => []
  | above, part :: rest =>
    let path := KeyCursor.join above part
    { root, path := Text.lower path, name := part } :: created root path rest

/-- The first of some keys to be put in counts. -/
theorem find?_foldl_insertKey (h : keys.Pairwise RegKey.Precedes) (new : List RegKey) (root : RegRoot) (p : String) :
    find? ⟨new.foldl (fun keys key => insertKey key keys) keys⟩ root p =
      (find? ⟨keys⟩ root p).or (new.find? fun k => k.root == root && k.path == p) := by
  induction new generalizing keys with
  | nil => exact (Option.or_none).symm
  | cons key new ih =>
    rw [List.foldl_cons, ih (pairwise_insertKey h), find?_insertKey h, Option.or_assoc, ← List.find?_append,
      List.singleton_append]

/-- Creating parts below a key puts in the keys of their paths, one after the other. -/
theorem createBelow_eq (root : RegRoot) (above : String) (parts : List String) (reg : Registry) :
    createBelow root above parts reg =
      ⟨(created root above parts).foldl (fun keys key => insertKey key keys) reg.keys⟩ := by
  induction parts generalizing above reg with
  | nil => rfl
  | cons part parts ih =>
    rw [createBelow, ih]
    rfl

/-- A created key has the path of the parts so far, in lower case, and the spelling of the last one. -/
theorem exists_of_mem_created (above ps : List Part) {k : RegKey} (h : k ∈ created root (path above) (ps.map Part.text)) :
    ∃ (as : List Part) (part : Part), k.root = root ∧ k.path = path (as ++ [part.lower]) ∧ k.name = part.text := by
  induction ps generalizing above with
  | nil => cases h
  | cons part ps ih =>
    rw [List.map_cons, created, ← path_concat] at h
    rcases List.mem_cons.mp h with rfl | h
    · refine ⟨above.map Part.lower, part, rfl, ?_, rfl⟩
      rw [lower_path, List.map_append, List.map_singleton]
    · exact ih _ h

end

/-! ## Requests -/

namespace Request

/-- The key a request is about. -/
def key : Request → String
  | create _ key => key
  | set _ key _ => key

/-- Its root. -/
def root : Request → RegRoot
  | create root _ => root
  | set root _ _ => root

/-- The keys that a request creates where they are missing: that of its path and those above, from the top down. -/
def keys (request : Request) : List RegKey :=
  created request.root "" (parts request.key)

end Request

/-- The name that the key at a place was first created with. -/
def spelling (requests : List Request) (root : RegRoot) (p : String) : Option String :=
  ((requests.flatMap Request.keys).find? fun k => k.root == root && k.path == p).map (·.name)

/-- The requests are about keys without blank parts. -/
def Proper (requests : List Request) : Prop :=
  ∀ request ∈ requests, holdsBlank request.key = false

section

variable {requests : List Request} {root : RegRoot} {p : String}

/-- Creating a key puts in the keys of its path from the top down. -/
theorem create_eq (reg : Registry) (root : RegRoot) (key : String) :
    reg.create root key = ⟨(created root "" (parts key)).foldl (fun keys key => insertKey key keys) reg.keys⟩ :=
  createBelow_eq root "" _ reg

/-- A key without blank parts has none in the form it is filed under. -/
theorem holdsBlank_normal {key : String} (h : holdsBlank key = false) : holdsBlank (normal key) = false := by
  obtain ⟨ps, hps, rfl⟩ := exists_path h
  rw [normal_path, holdsBlank_path (by simpa using hps)]

/-- A value is put into a key that was created for it. -/
theorem setValue_proper {reg : Registry} (hf : reg.Filed) (root : RegRoot) {key : String} (h : holdsBlank key = false)
    (value : RegValue) : reg.setValue root key value = (reg.create root key).put root (normal key) value := by
  obtain ⟨hfiled, -⟩ := create_spec hf root key
  have hthere : insertKey { root, path := normal key, name := "" } (reg.create root key).keys = (reg.create root key).keys :=
    insertKey_of_has hfiled.sorted (has_create hf root (holdsBlank_normal h))
  rw [setValue_eq, hthere]

/-- Putting in a value changes no name. -/
theorem nameAt_put (reg : Registry) (root : RegRoot) (q : String) (value : RegValue) (r : RegRoot) (p : String) :
    nameAt (reg.put root q value) r p = nameAt reg r p := by
  have hfind : (reg.put root q value).find? r p = (reg.find? r p).map (putInto root q value) := by
    rw [find?, put, List.find?_map, find?]
    congr 2
    funext k
    simp
  rw [nameAt, hfind, Option.map_map, nameAt]
  exact Option.map_congr fun k _ => name_putInto root q value k

/-- A request adds names where there were none. -/
theorem nameAt_serve {reg : Registry} (hf : reg.Filed) {request : Request} (h : holdsBlank request.key = false) :
    nameAt (reg.serve request) root p =
      (nameAt reg root p).or ((request.keys.find? fun k => k.root == root && k.path == p).map (·.name)) := by
  have hcreate : nameAt (reg.create request.root request.key) root p =
      (nameAt reg root p).or ((request.keys.find? fun k => k.root == root && k.path == p).map (·.name)) := by
    rw [nameAt, create_eq, find?_foldl_insertKey hf.sorted, Option.map_or]
    rfl
  cases request with
  | create r key => exact hcreate
  | set r key value =>
    have hput : reg.serve (.set r key value) = (reg.create r key).put r (normal key) value := setValue_proper hf r h value
    rw [hput, nameAt_put]
    exact hcreate

/-- A key has the name it was first created with. -/
theorem nameAt_after (h : Proper requests) : nameAt (after requests) root p = spelling requests root p := by
  induction requests using List.reverseRecOn with
  | nil => rfl
  | append_singleton requests request ih =>
    have hbefore : Proper requests := fun r hr => h r (List.mem_append_left _ hr)
    rw [after_concat, nameAt_serve (filed_after requests) (h request (by simp)), ih hbefore, spelling, spelling,
      List.flatMap_append, List.find?_append, Option.map_or, List.flatMap_singleton]

/-- There is a key where one was asked for. -/
theorem has_after_iff (h : Proper requests) :
    (after requests).Has root p ↔ ∃ k ∈ requests.flatMap Request.keys, k.At root p := by
  have hname : (after requests).Has root p ↔ (nameAt (after requests) root p).isSome := by
    rw [nameAt, Option.isSome_map]
    refine ⟨fun hhas => ?_, fun hsome => ?_⟩
    · obtain ⟨k, hk⟩ := exists_find? hhas
      rw [hk]
      rfl
    · obtain ⟨k, hk⟩ := Option.isSome_iff_exists.mp hsome
      exact ⟨k, (find?_eq_some hk).1, (find?_eq_some hk).2⟩
  rw [hname, nameAt_after h, spelling, Option.isSome_map, List.find?_isSome]
  simp [RegKey.At]

/-- The keys that are asked for have paths without blank parts. -/
theorem exists_of_mem_keys {k : RegKey} (h : k ∈ requests.flatMap Request.keys) :
    ∃ (as : List Part) (part : Part), k.path = path (as ++ [part.lower]) ∧ k.name = part.text := by
  obtain ⟨request, -, hk⟩ := List.mem_flatMap.mp h
  obtain ⟨ps, hps⟩ := exists_parts request.key
  rw [Request.keys, hps] at hk
  obtain ⟨as, part, -, hpath, hname⟩ := exists_of_mem_created [] ps hk
  exact ⟨as, part, hpath, hname⟩

/-- Requests about keys without blank parts make no key with a blank path. -/
theorem not_has_blank (h : Proper requests) : ¬ (after requests).Has root "" := by
  rw [has_after_iff h]
  rintro ⟨k, hk, -, hpath⟩
  obtain ⟨as, part, hk, -⟩ := exists_of_mem_keys hk
  exact absurd (path_eq_empty_iff.mp (hk.symm.trans hpath)) (by simp)

/-! ## Subkeys -/

/-- A subkey is listed under the name it was first created with. -/
theorem mem_subkeys_after (h : Proper requests) (ps : List Part) {name : String} :
    name ∈ (after requests).subkeys root (path ps) ↔
      spelling requests root (normal (KeyCursor.join (path ps) name)) = some name := by
  have hf := filed_after requests
  have hclear : ¬ (after requests).Has root "" := not_has_blank h
  rw [subkeys_eq, List.mem_map, ← nameAt_after h, nameAt, Option.map_eq_some_iff, normal_path]
  refine ⟨?_, ?_⟩
  · rintro ⟨k, hk, rfl⟩
    obtain ⟨hmem, hroot, part, hpath⟩ := (mem_childKeys hf hclear).mp hk
    obtain ⟨spelled, hjoin, hnormal⟩ := normal_join hf hmem hpath
    exact ⟨k, (find?_eq_some_iff hf.sorted).mpr ⟨hmem, hroot, by rw [hjoin, hnormal]⟩, rfl⟩
  · rintro ⟨k, hk, hname⟩
    obtain ⟨hmem, hroot, hpath⟩ := find?_eq_some hk
    have hspelling : spelling requests root (normal (KeyCursor.join (path ps) name)) = some name := by
      rw [← nameAt_after h, nameAt, hk, Option.map_some, hname]
    obtain ⟨c, hc, hcname⟩ := Option.map_eq_some_iff.mp hspelling
    obtain ⟨as, part, -, hpart⟩ := exists_of_mem_keys (List.mem_of_find?_eq_some hc)
    rw [← hcname, hpart, ← path_concat, normal_path, List.map_append, List.map_singleton] at hpath
    exact ⟨k, (mem_childKeys hf hclear).mpr ⟨hmem, hroot, _, hpath⟩, hname⟩

/-- What decides the order of two texts with a common start comes after that start. -/
theorem lt_of_append_lt {cs ds es : List Char} (h : cs ++ ds < cs ++ es) : ds < es := by
  induction cs with
  | nil => exact h
  | cons c cs ih =>
    rcases List.cons_lt_cons_iff.mp h with hlt | ⟨-, h⟩
    · exact absurd hlt (Char.lt_irrefl c)
    · exact ih h

/-- Keys below the same one stand in the order of their names. -/
theorem lt_of_path_lt {as : List Part} {a b : Part} (h : path (as ++ [a]) < path (as ++ [b])) : a.text < b.text := by
  rw [path_concat, path_concat] at h
  by_cases hnil : path as = ""
  · rwa [hnil, join_empty, join_empty] at h
  · rw [join_of_ne_empty hnil, join_of_ne_empty hnil, String.lt_iff] at h
    simp only [String.toList_append, List.append_assoc] at h
    exact String.lt_iff.mpr (lt_of_append_lt (lt_of_append_lt h))

/-- The subkeys of a key stand in the order of their lower-case names. -/
theorem pairwise_subkeys {reg : Registry} (hf : reg.Filed) (hclear : ¬ reg.Has root "") (ps : List Part) :
    (reg.subkeys root (path ps)).Pairwise fun a b => Text.lower a < Text.lower b := by
  have hchild {k : RegKey} (hk : k ∈ reg.childKeys root (path (ps.map Part.lower))) :
      k.root = root ∧ ∃ part : Part, k.path = path (ps.map Part.lower ++ [part]) ∧ part.text = Text.lower k.name := by
    obtain ⟨hmem, hroot, part, hpath⟩ := (mem_childKeys hf hclear).mp hk
    obtain ⟨⟨spelled, rfl, hname⟩, -⟩ := hf.spelled hmem hpath
    exact ⟨hroot, _, hpath, by rw [hname]; rfl⟩
  rw [subkeys_eq, List.pairwise_map, normal_path]
  refine (hf.sorted.filter _).imp_of_mem fun {a b} ha hb hab => ?_
  obtain ⟨haroot, apart, hapath, haname⟩ := hchild ha
  obtain ⟨hbroot, bpart, hbpath, hbname⟩ := hchild hb
  rcases hab with hrank | ⟨-, hlt⟩
  · rw [haroot, hbroot] at hrank
    exact absurd hrank (Nat.lt_irrefl _)
  · rw [hapath, hbpath] at hlt
    rw [← haname, ← hbname]
    exact lt_of_path_lt hlt

end

/-! ## Values -/

/-- The values that requests store in a key, in the order of the requests. -/
def storedIn (requests : List Request) (root : RegRoot) (p : String) : List RegValue :=
  ((requests.filterMap (·.value? root)).filter (·.1 == p)).map (·.2)

/-- A value takes the place of the one of its name. -/
theorem names_putValue_of_mem {value : RegValue} {values : List RegValue}
    (h : asciiLower value.name ∈ values.map (asciiLower ·.name)) :
    (putValue value values).map (asciiLower ·.name) = values.map (asciiLower ·.name) := by
  induction values with
  | nil => cases h
  | cons a values ih =>
    rw [putValue, sameAscii]
    by_cases hsame : asciiLower a.name = asciiLower value.name
    · rw [if_pos (beq_iff_eq.mpr hsame), List.map_cons, List.map_cons, hsame]
    · rw [if_neg (mt beq_iff_eq.mp hsame), List.map_cons, List.map_cons,
        ih ((List.mem_cons.mp h).resolve_left (Ne.symm hsame))]

/-- A value of a new name comes after the others. -/
theorem putValue_of_not_mem {value : RegValue} {values : List RegValue}
    (h : asciiLower value.name ∉ values.map (asciiLower ·.name)) : putValue value values = values ++ [value] := by
  induction values with
  | nil => rfl
  | cons a values ih =>
    rw [List.map_cons, List.mem_cons, not_or] at h
    rw [putValue, sameAscii, if_neg (mt beq_iff_eq.mp (Ne.symm h.1)), ih h.2, List.cons_append]

/-- The names in a key stand in the order in which they were first stored. -/
theorem names_foldl_putValue (values : List RegValue) :
    (values.foldl (fun stored value => putValue value stored) []).map (asciiLower ·.name) =
      (values.map (asciiLower ·.name)).eraseDups := by
  induction values using List.reverseRecOn with
  | nil => rfl
  | append_singleton values value ih =>
    rw [List.foldl_append, List.map_append, List.eraseDups_append, List.map_singleton, List.removeAll, List.foldl_cons,
      List.foldl_nil]
    by_cases hmem : asciiLower value.name ∈ values.map (asciiLower ·.name)
    · rw [names_putValue_of_mem (by rwa [ih, List.mem_eraseDups]), ih, List.filter_cons_of_neg (by simpa using hmem)]
      exact (List.append_nil _).symm
    · rw [putValue_of_not_mem (by rwa [ih, List.mem_eraseDups]), List.map_append, ih,
        List.filter_cons_of_pos (by simpa using hmem)]
      rfl

end Registry

end LineScript
