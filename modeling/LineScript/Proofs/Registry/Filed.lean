import LineScript.Proofs.Registry.Paths

/-!
# How keys are filed

Keys stand in the order of their roots and paths, so there is one at most for a root and a path, and its values are those found
there (`Registry.valuesAt_of_mem`). A key is found below the key above it, by the name it was first created with
(`Registry.Spelled`), unless its path holds a blank part: then it has no name (`Registry.Lost`). No request changes this
(`Registry.Filed`).
-/

namespace LineScript

open Text

/-- A key stands before another one: its root comes first, or its path below the same root. -/
def RegKey.Precedes (a b : RegKey) : Prop :=
  a.root.rank < b.root.rank ∨ a.root = b.root ∧ a.path < b.path

/-- Whether a key is the one of a root and a path. -/
def RegKey.At (root : RegRoot) (path : String) (k : RegKey) : Prop :=
  k.root = root ∧ k.path = path

/-- Roots are told apart by their ranks. -/
theorem RegRoot.eq_of_rank {r s : RegRoot} (h : r.rank = s.rank) : r = s := by
  cases r <;> cases s <;> first | rfl | cases h

namespace RegKey

/-- What precedes a preceding key precedes the key as well. -/
theorem Precedes.trans {a b c : RegKey} (hab : a.Precedes b) (hbc : b.Precedes c) : a.Precedes c := by
  rcases hab with hab | ⟨hroot, hab⟩
  · rcases hbc with hbc | ⟨hroot', -⟩
    · exact .inl (Nat.lt_trans hab hbc)
    · exact .inl (hroot' ▸ hab)
  · rcases hbc with hbc | ⟨hroot', hbc⟩
    · exact .inl (hroot ▸ hbc)
    · exact .inr ⟨hroot.trans hroot', String.lt_trans hab hbc⟩

/-- Of two keys in order, the second is at another place. -/
theorem Precedes.not_at {a b : RegKey} (h : a.Precedes b) : ¬ b.At a.root a.path := by
  rintro ⟨hroot, hpath⟩
  rcases h with h | ⟨-, h⟩
  · rw [hroot] at h
    exact Nat.lt_irrefl _ h
  · rw [hpath] at h
    exact String.lt_irrefl _ h

end RegKey

namespace Registry

/-! ## Order -/

/-- A place comes before another one by its root, or below the same root by its path. -/
theorem order_eq_lt_iff {r s : RegRoot} {p q : String} : order r p s q = .lt ↔ r.rank < s.rank ∨ r = s ∧ p < q := by
  rw [order, Ordering.then_eq_lt, Nat.compare_eq_lt, Nat.compare_eq_eq, Text.order]
  refine or_congr Iff.rfl (and_congr ⟨RegRoot.eq_of_rank, fun h => h ▸ rfl⟩ ?_)
  split
  · rename_i hlt
    exact ⟨fun _ => hlt, fun _ => rfl⟩
  · rename_i hlt
    split
    · exact ⟨nofun, fun h => absurd h hlt⟩
    · exact ⟨nofun, fun h => absurd h hlt⟩

/-- Only the same root and the same path make the same place. -/
theorem order_eq_eq_iff {r s : RegRoot} {p q : String} : order r p s q = .eq ↔ r = s ∧ p = q := by
  rw [order, Ordering.then_eq_eq, Nat.compare_eq_eq, Text.order]
  refine and_congr ⟨RegRoot.eq_of_rank, fun h => h ▸ rfl⟩ ?_
  split
  · rename_i hlt
    refine ⟨nofun, ?_⟩
    rintro rfl
    exact absurd hlt (String.lt_irrefl _)
  · split
    · rename_i heq
      exact ⟨fun _ => eq_of_beq heq, fun _ => rfl⟩
    · rename_i hne
      exact ⟨nofun, fun h => absurd (beq_iff_eq.mpr h) hne⟩

/-- What does not come before a place or stand at it comes after it. -/
theorem lt_of_order_eq_gt {r s : RegRoot} {p q : String} (h : order r p s q = .gt) : s.rank < r.rank ∨ s = r ∧ q < p := by
  rw [order, Ordering.then_eq_gt, Nat.compare_eq_gt, Nat.compare_eq_eq, Text.order] at h
  rcases h with h | ⟨hrank, h⟩
  · exact .inl h
  · split at h
    · cases h
    · rename_i hlt
      split at h
      · cases h
      · rename_i hne
        exact .inr ⟨(RegRoot.eq_of_rank hrank).symm, Std.lt_of_le_of_ne (String.not_lt.mp hlt) fun heq => hne (by simp [heq])⟩

variable {key k : RegKey} {keys : List RegKey} {root : RegRoot}

/-- Putting in a key adds no other one. -/
theorem mem_insertKey (h : k ∈ insertKey key keys) : k ∈ keys ∨ k = key := by
  induction keys with
  | nil => exact .inr (List.mem_singleton.mp h)
  | cons a keys ih =>
    rw [insertKey] at h
    split at h
    · rcases List.mem_cons.mp h with rfl | h
      · exact .inr rfl
      · exact .inl h
    · exact .inl h
    · rcases List.mem_cons.mp h with rfl | h
      · exact .inl List.mem_cons_self
      · rcases ih h with h | h
        · exact .inl (List.mem_cons_of_mem _ h)
        · exact .inr h

/-- Putting in a key takes none away. -/
theorem mem_insertKey_of_mem (h : k ∈ keys) : k ∈ insertKey key keys := by
  induction keys with
  | nil => cases h
  | cons a keys ih =>
    rw [insertKey]
    split
    · exact List.mem_cons_of_mem _ h
    · exact h
    · rcases List.mem_cons.mp h with rfl | h
      · exact List.mem_cons_self
      · exact List.mem_cons_of_mem _ (ih h)

/-- There is a key at the place of one that was put in. -/
theorem exists_insertKey (key : RegKey) (keys : List RegKey) : ∃ k ∈ insertKey key keys, k.At key.root key.path := by
  induction keys with
  | nil => exact ⟨key, List.mem_singleton_self key, rfl, rfl⟩
  | cons a keys ih =>
    rw [insertKey]
    split
    · exact ⟨key, List.mem_cons_self, rfl, rfl⟩
    · rename_i heq
      obtain ⟨hroot, hpath⟩ := order_eq_eq_iff.mp heq
      exact ⟨a, List.mem_cons_self, hroot.symm, hpath.symm⟩
    · obtain ⟨k, hk, hat⟩ := ih
      exact ⟨k, List.mem_cons_of_mem _ hk, hat⟩

/-- Keys in order are still in order after one was put in. -/
theorem pairwise_insertKey (h : keys.Pairwise RegKey.Precedes) : (insertKey key keys).Pairwise RegKey.Precedes := by
  induction keys with
  | nil => exact List.pairwise_singleton _ _
  | cons a keys ih =>
    obtain ⟨ha, hkeys⟩ := List.pairwise_cons.mp h
    rw [insertKey]
    split
    · rename_i hlt
      have hbefore : key.Precedes a := order_eq_lt_iff.mp hlt
      refine List.pairwise_cons.mpr ⟨fun b hb => ?_, h⟩
      rcases List.mem_cons.mp hb with rfl | hb
      · exact hbefore
      · exact hbefore.trans (ha b hb)
    · exact h
    · rename_i hgt
      have hafter : a.Precedes key := lt_of_order_eq_gt hgt
      refine List.pairwise_cons.mpr ⟨fun b hb => ?_, ih hkeys⟩
      rcases mem_insertKey hb with hb | rfl
      · exact ha b hb
      · exact hafter

/-! ## Places -/

variable {reg reg' : Registry} {p : String}

/-- Whether there is a key at a place. -/
def Has (reg : Registry) (root : RegRoot) (p : String) : Prop :=
  ∃ k ∈ reg.keys, k.At root p

/-- The values at a place, none where there is no key. -/
def valuesAt (reg : Registry) (root : RegRoot) (p : String) : List RegValue :=
  ((reg.find? root p).map (·.values)).getD []

/-- There is one key at most at a place. -/
theorem eq_of_at (h : keys.Pairwise RegKey.Precedes) {a b : RegKey} (ha : a ∈ keys) (hb : b ∈ keys)
    (hat : b.At a.root a.path) : a = b := by
  induction keys with
  | nil => cases ha
  | cons c keys ih =>
    obtain ⟨hc, hkeys⟩ := List.pairwise_cons.mp h
    rcases List.mem_cons.mp ha with rfl | ha'
    · rcases List.mem_cons.mp hb with rfl | hb'
      · rfl
      · exact absurd hat (hc b hb').not_at
    · rcases List.mem_cons.mp hb with rfl | hb'
      · exact absurd ⟨hat.1.symm, hat.2.symm⟩ (hc a ha').not_at
      · exact ih hkeys ha' hb'

/-- The key that is found at a place is one of the keys and stands there. -/
theorem find?_eq_some {k : RegKey} (h : reg.find? root p = some k) : k ∈ reg.keys ∧ k.At root p := by
  refine ⟨List.mem_of_find?_eq_some h, ?_⟩
  simpa [RegKey.At] using List.find?_some h

/-- Where there is a key, one is found. -/
theorem exists_find? (h : reg.Has root p) : ∃ k, reg.find? root p = some k := by
  obtain ⟨k, hk, hroot, hpath⟩ := h
  refine Option.isSome_iff_exists.mp (List.find?_isSome.mpr ⟨k, hk, ?_⟩)
  simp [hroot, hpath]

/-- The values at the place of a key are the key's. -/
theorem valuesAt_of_mem (h : reg.keys.Pairwise RegKey.Precedes) (hk : k ∈ reg.keys) (hat : k.At root p) :
    reg.valuesAt root p = k.values := by
  obtain ⟨found, hfind⟩ := exists_find? ⟨k, hk, hat⟩
  obtain ⟨hfound, hat'⟩ := find?_eq_some hfind
  have heq : found = k := eq_of_at h hfound hk ⟨hat.1.trans hat'.1.symm, hat.2.trans hat'.2.symm⟩
  rw [valuesAt, hfind, heq]
  rfl

/-- Where there is no key, there are no values. -/
theorem valuesAt_of_not_has (h : ¬ reg.Has root p) : reg.valuesAt root p = [] := by
  cases hfind : reg.find? root p with
  | none => rw [valuesAt, hfind]; rfl
  | some k =>
    obtain ⟨hk, hat⟩ := find?_eq_some hfind
    exact absurd ⟨k, hk, hat⟩ h

/-- A registry with all keys of another one, and the same values in them. -/
structure Extends (reg reg' : Registry) : Prop where
  has : ∀ {root p}, reg.Has root p → reg'.Has root p
  values : ∀ root p, reg'.valuesAt root p = reg.valuesAt root p

/-- A key without values that is put in changes no values. -/
theorem extends_insertKey (h : reg.keys.Pairwise RegKey.Precedes) (hkey : key.values = []) :
    reg.Extends { keys := insertKey key reg.keys } := by
  have hhas {root : RegRoot} {p : String} (h : reg.Has root p) : Has { keys := insertKey key reg.keys } root p := by
    obtain ⟨k, hk, hat⟩ := h
    exact ⟨k, mem_insertKey_of_mem hk, hat⟩
  refine ⟨hhas, fun root p => ?_⟩
  by_cases hold : reg.Has root p
  · obtain ⟨k, hk, hat⟩ := hold
    rw [valuesAt_of_mem h hk hat, valuesAt_of_mem (pairwise_insertKey h) (mem_insertKey_of_mem hk) hat]
  · rw [valuesAt_of_not_has hold]
    by_cases hnew : Has { keys := insertKey key reg.keys } root p
    · obtain ⟨k, hk, hat⟩ := hnew
      rw [valuesAt_of_mem (pairwise_insertKey h) hk hat]
      rcases mem_insertKey hk with hk | rfl
      · exact absurd ⟨k, hk, hat⟩ hold
      · exact hkey
    · exact valuesAt_of_not_has hnew

/-! ## Keys with and without a name -/

/-- A key that is found by its name in the key above it. -/
def Spelled (reg : Registry) (k : RegKey) : Prop :=
  ∃ above part, k.path = path (above ++ [Part.lower part]) ∧ k.name = part.text ∧ (above = [] ∨ reg.Has k.root (path above))

/-- A key without a name, whose path holds a blank part. -/
def Lost (k : RegKey) : Prop :=
  k.name = "" ∧ Trimmed k.path ∧ holdsBlank k.path = true

/-- What holds of every registry that was filled by requests: its keys are in order, and each is found by its name or lost. -/
structure Filed (reg : Registry) : Prop where
  sorted : reg.keys.Pairwise RegKey.Precedes
  known : ∀ k ∈ reg.keys, reg.Spelled k ∨ Lost k

/-- An empty registry is filed. -/
theorem filed_empty : Filed {} :=
  ⟨List.Pairwise.nil, nofun⟩

/-- A filed registry stays filed when a key without values is put in that is found by its name or lost. -/
theorem Filed.insert (hf : reg.Filed) (hvalues : key.values = []) (hkey : reg.Spelled key ∨ Lost key) :
    Filed { keys := insertKey key reg.keys } := by
  have hext := extends_insertKey hf.sorted hvalues
  refine ⟨pairwise_insertKey hf.sorted, fun k hk => ?_⟩
  have hknown : reg.Spelled k ∨ Lost k := by
    rcases mem_insertKey hk with hk | rfl
    · exact hf.known k hk
    · exact hkey
  rcases hknown with ⟨above, part, hpath, hname, habove⟩ | hlost
  · exact .inl ⟨above, part, hpath, hname, habove.imp_right hext.has⟩
  · exact .inr hlost

/-! ## Creating keys -/

theorem Extends.refl (reg : Registry) : reg.Extends reg :=
  ⟨id, fun _ _ => rfl⟩

theorem Extends.trans {a b c : Registry} (hab : a.Extends b) (hbc : b.Extends c) : a.Extends c :=
  ⟨fun h => hbc.has (hab.has h), fun root p => (hbc.values root p).trans (hab.values root p)⟩

/-- After a key was put in, there are keys where there were some before and at the place of the new one. -/
theorem has_insertKey (h : Has { keys := insertKey key reg.keys } root p) : reg.Has root p ∨ key.At root p := by
  obtain ⟨k, hk, hat⟩ := h
  rcases mem_insertKey hk with hk | rfl
  · exact .inl ⟨k, hk, hat⟩
  · exact .inr hat

/-- Keys are created from one key down: there is one for the whole path then, and none with a blank path unless there was
one. -/
theorem createBelow_spec (hf : reg.Filed) (root : RegRoot) (above ps : List Part)
    (habove : above = [] ∨ reg.Has root (path (above.map Part.lower))) :
    let reg' := createBelow root (path above) (ps.map Part.text) reg
    reg'.Filed ∧ reg.Extends reg' ∧ (ps ≠ [] → reg'.Has root (path ((above ++ ps).map Part.lower))) ∧
      ∀ r, reg'.Has r "" → reg.Has r "" := by
  induction ps generalizing above reg with
  | nil => exact ⟨hf, .refl reg, fun h => absurd rfl h, fun _ => id⟩
  | cons part ps ih =>
    have hlower : Text.lower (path (above ++ [part])) = path (above.map Part.lower ++ [part.lower]) := by
      rw [lower_path, List.map_append, List.map_singleton]
    obtain ⟨key, hkey⟩ : ∃ key : RegKey, key = { root, path := Text.lower (path (above ++ [part])), name := part.text } :=
      ⟨_, rfl⟩
    have hstep : createBelow root (path above) ((part :: ps).map Part.text) reg =
        createBelow root (path (above ++ [part])) (ps.map Part.text) { keys := insertKey key reg.keys } := by
      rw [hkey, path_concat]
      rfl
    have hspelled : reg.Spelled key := by
      rw [hkey]
      exact ⟨above.map Part.lower, part, hlower, rfl, by simpa using habove⟩
    have hplace : Has { keys := insertKey key reg.keys } root (path ((above ++ [part]).map Part.lower)) := by
      rw [List.map_append, List.map_singleton, ← hlower]
      have hexists := exists_insertKey key reg.keys
      rw [hkey] at hexists ⊢
      exact hexists
    have hext : reg.Extends { keys := insertKey key reg.keys } := extends_insertKey hf.sorted (by rw [hkey])
    obtain ⟨hfiled, hextends, hhas, hblank⟩ :=
      ih (hf.insert (by rw [hkey]) (.inl hspelled)) (above ++ [part]) (.inr hplace)
    simp only [hstep]
    refine ⟨hfiled, hext.trans hextends, fun _ => ?_, fun r hr => ?_⟩
    · by_cases hps : ps = []
      · subst hps
        exact hextends.has hplace
      · have hwhole := hhas hps
        rwa [List.append_assoc] at hwhole
    · rcases has_insertKey (hblank r hr) with hr | hat
      · exact hr
      · have hpath := hat.2
        rw [hkey] at hpath
        exact absurd (path_eq_empty_iff.mp (lower_eq_empty_iff.mp hpath)) (by simp)

/-- Creating a key keeps the values of all keys. -/
theorem create_spec (hf : reg.Filed) (root : RegRoot) (key : String) :
    (reg.create root key).Filed ∧ reg.Extends (reg.create root key) ∧ ∀ r, (reg.create root key).Has r "" → reg.Has r "" := by
  obtain ⟨ps, hps⟩ := exists_parts key
  obtain ⟨hfiled, hextends, -, hblank⟩ := createBelow_spec hf root [] ps (.inl rfl)
  rw [create, hps]
  exact ⟨hfiled, hextends, hblank⟩

/-! ## Storing values -/

/-- A key after a value was stored at a place, which is that of the key or not. -/
def putInto (root : RegRoot) (p : String) (value : RegValue) (k : RegKey) : RegKey :=
  if k.root == root && k.path == p then { k with values := putValue value k.values } else k

/-- Puts a value into the key at a place, if there is one. -/
def put (reg : Registry) (root : RegRoot) (p : String) (value : RegValue) : Registry :=
  { keys := reg.keys.map (putInto root p value) }

/-- Storing a value creates the key, puts in one without a name if there is none at the place yet, and puts the value into it. -/
theorem setValue_eq (reg : Registry) (root : RegRoot) (key : String) (value : RegValue) :
    reg.setValue root key value =
      put { keys := insertKey { root, path := normal key, name := "" } (reg.create root key).keys } root (normal key) value :=
  rfl

section

variable (root : RegRoot) (p : String) (value : RegValue)

/-- A key that takes a value keeps its root. -/
@[simp] theorem root_putInto (k : RegKey) : (putInto root p value k).root = k.root := by
  unfold putInto
  split <;> rfl

@[simp] theorem path_putInto (k : RegKey) : (putInto root p value k).path = k.path := by
  unfold putInto
  split <;> rfl

@[simp] theorem name_putInto (k : RegKey) : (putInto root p value k).name = k.name := by
  unfold putInto
  split <;> rfl

/-- Putting in a value makes and removes no keys. -/
theorem has_put {r : RegRoot} {q : String} : (reg.put root p value).Has r q ↔ reg.Has r q := by
  simp [Has, put, RegKey.At]

/-- A filed registry stays filed when a value is put in. -/
theorem Filed.put (hf : reg.Filed) : (reg.put root p value).Filed := by
  refine ⟨List.pairwise_map.mpr (hf.sorted.imp fun {a b} hab => ?_), fun k' hk' => ?_⟩
  · simpa [RegKey.Precedes] using hab
  · obtain ⟨k, hk, rfl⟩ := List.mem_map.mp hk'
    rcases hf.known k hk with ⟨above, part, hpath, hname, habove⟩ | hlost
    · refine .inl ⟨above, part, ?_, ?_, habove.imp_right fun h => ?_⟩
      · rw [path_putInto, hpath]
      · rw [name_putInto, hname]
      · rw [root_putInto]
        exact (has_put root p value).mpr h
    · exact .inr (by simpa [Lost] using hlost)

/-- A value that is put in changes the values of its key only. -/
theorem valuesAt_put (h : reg.Has root p) (r : RegRoot) (q : String) :
    (reg.put root p value).valuesAt r q =
      if r = root ∧ q = p then putValue value (reg.valuesAt r q) else reg.valuesAt r q := by
  have hfind : (reg.put root p value).find? r q = (reg.find? r q).map (putInto root p value) := by
    rw [find?, put, List.find?_map, find?]
    congr 2
    funext k
    simp
  rw [valuesAt, hfind, valuesAt]
  cases hkey : reg.find? r q with
  | none =>
    rw [if_neg]
    · rfl
    · rintro ⟨rfl, rfl⟩
      obtain ⟨k, hk⟩ := exists_find? h
      cases hk.symm.trans hkey
  | some k =>
    obtain ⟨-, rfl, rfl⟩ := find?_eq_some hkey
    simp only [Option.map_some, Option.getD_some, putInto, Bool.and_eq_true, beq_iff_eq]
    split <;> rfl

end

/-- The key that takes a value was created, unless its path holds a blank part. -/
theorem has_create (hf : reg.Filed) (root : RegRoot) {key : String} (h : holdsBlank (normal key) = false) :
    (reg.create root key).Has root (normal key) := by
  rw [normal, holdsBlank_lower] at h
  obtain ⟨ps, hps, hpath⟩ := exists_path h
  have hparts : parts key = ps.map Part.text := by rw [← parts_trimBy, ← hpath, parts_path]
  obtain ⟨-, -, hhas, -⟩ := createBelow_spec hf root [] ps (.inl rfl)
  rw [create, hparts, normal, ← hpath, lower_path]
  exact hhas hps

/-- A key is filed under a text without backslashes at its ends. -/
theorem trimmed_normal (key : String) : Trimmed (normal key) :=
  (trimmed_trimBy key).lower

/-- A key is not put in again. -/
theorem insertKey_of_has (h : keys.Pairwise RegKey.Precedes) (hhas : ∃ k ∈ keys, k.At key.root key.path) :
    insertKey key keys = keys := by
  obtain ⟨k, hk, hat⟩ := hhas
  induction keys with
  | nil => cases hk
  | cons a keys ih =>
    obtain ⟨ha, hkeys⟩ := List.pairwise_cons.mp h
    rw [insertKey]
    split
    · rename_i hlt
      have hbefore : key.Precedes a := order_eq_lt_iff.mp hlt
      rcases List.mem_cons.mp hk with rfl | hk
      · exact absurd hat hbefore.not_at
      · exact absurd hat (hbefore.trans (ha k hk)).not_at
    · rfl
    · rename_i hgt
      have hafter : a.Precedes key := lt_of_order_eq_gt hgt
      rcases List.mem_cons.mp hk with rfl | hk
      · exact absurd ⟨hat.1.symm, hat.2.symm⟩ hafter.not_at
      · rw [ih hkeys hk]

/-- Storing a value keeps all keys, and changes the values of its own key only. -/
theorem setValue_spec (hf : reg.Filed) (root : RegRoot) (key : String) (value : RegValue) :
    let reg' := reg.setValue root key value
    reg'.Filed ∧ reg'.Has root (normal key) ∧ (∀ {r p}, reg.Has r p → reg'.Has r p) ∧
      (∀ r p, reg'.valuesAt r p =
        if r = root ∧ p = normal key then putValue value (reg.valuesAt r p) else reg.valuesAt r p) ∧
      ∀ r, reg'.Has r "" → reg.Has r "" ∨ r = root ∧ normal key = "" := by
  obtain ⟨hcreated, hextends, hblank⟩ := create_spec hf root key
  obtain ⟨k, hk⟩ : ∃ k : RegKey, k = { root, path := normal key, name := "" } := ⟨_, rfl⟩
  have hfiled : Filed { keys := insertKey k (reg.create root key).keys } := by
    cases hholds : holdsBlank (normal key) with
    | true =>
      have hlost : Lost k := by
        rw [hk]
        exact ⟨rfl, trimmed_normal key, hholds⟩
      exact hcreated.insert (by rw [hk]) (.inr hlost)
    | false =>
      rw [insertKey_of_has hcreated.sorted (by rw [hk]; exact has_create hf root hholds)]
      exact hcreated
  have hinsert : (reg.create root key).Extends { keys := insertKey k (reg.create root key).keys } :=
    extends_insertKey hcreated.sorted (by rw [hk])
  have hhas : Has { keys := insertKey k (reg.create root key).keys } root (normal key) := by
    have hexists := exists_insertKey k (reg.create root key).keys
    rw [hk] at hexists ⊢
    exact hexists
  rw [setValue_eq, ← hk]
  refine ⟨hfiled.put _ _ _, (has_put _ _ _).mpr hhas, fun h => ?_, fun r p => ?_, fun r hr => ?_⟩
  · exact (has_put _ _ _).mpr (hinsert.has (hextends.has h))
  · rw [valuesAt_put _ _ _ hhas, hinsert.values, hextends.values]
  · rcases has_insertKey ((has_put _ _ _).mp hr) with h | hat
    · exact .inl (hblank r h)
    · rw [hk] at hat
      exact .inr ⟨hat.1.symm, hat.2⟩

end Registry

end LineScript
