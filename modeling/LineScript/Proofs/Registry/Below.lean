import LineScript.Proofs.Registry.Filed
import Mathlib.Data.List.Nodup
import Mathlib.Data.List.Perm.Basic

/-!
# Keys below others

The keys below a key are those directly below it, each with the keys below that one (`Registry.perm_below`). The registry finds
the keys directly below one by their paths, and tells their names; from these their paths are put together again
(`Registry.normal_join`).
-/

namespace LineScript

open Text

/-- A list falls apart into what the elements of another one pick, if each element is picked once. -/
theorem perm_flatMap_filter {α β : Type} [BEq α] [LawfulBEq α] {p : α → Bool} {q : β → α → Bool} {cs : List β} {l : List α}
    (h : ∀ a ∈ l, cs.countP (q · a) = if p a then 1 else 0) : (l.filter p).Perm (cs.flatMap fun c => l.filter (q c)) := by
  have hfilter (p : α → Bool) (a : α) : (l.filter p).count a = if p a then l.count a else 0 := by
    split
    · rename_i ha
      exact List.count_filter ha
    · rename_i ha
      exact List.count_eq_zero.mpr fun hmem => ha (List.mem_filter.mp hmem).2
  have hpicked (a : α) : (cs.flatMap fun c => l.filter (q c)).count a = cs.countP (q · a) * l.count a := by
    clear h
    induction cs with
    | nil => simp
    | cons c cs ih =>
      rw [List.flatMap_cons, List.count_append, ih, hfilter, List.countP_cons]
      split
      · rw [Nat.add_mul, Nat.one_mul, Nat.add_comm]
      · rw [Nat.add_zero, Nat.zero_add]
  refine List.perm_iff_count.mpr fun a => ?_
  rw [hfilter, hpicked]
  by_cases ha : a ∈ l
  · rw [h a ha]
    split
    · exact (Nat.one_mul _).symm
    · exact (Nat.zero_mul _).symm
  · rw [List.count_eq_zero.mpr ha, Nat.mul_zero, ite_self]

/-- An element of a list without repetitions, the only one to satisfy a predicate, is counted once. -/
theorem countP_eq_one {α : Type} [BEq α] [LawfulBEq α] {p : α → Bool} {l : List α} (hl : l.Nodup) {a : α} (ha : a ∈ l)
    (hpa : p a = true) (h : ∀ b ∈ l, p b = true → b = a) : l.countP p = 1 := by
  have hcount : l.countP p = l.count a := by
    refine List.countP_congr fun b hb => ⟨fun hpb => beq_iff_eq.mpr (h b hb hpb), fun hba => ?_⟩
    rwa [eq_of_beq hba]
  rw [hcount, List.count_eq_one_of_mem hl ha]

namespace Registry

variable {reg : Registry} {root : RegRoot} {k : RegKey} {as : List Part}

/-- No key is filed twice. -/
theorem Filed.nodup (hf : reg.Filed) : reg.keys.Nodup := by
  refine hf.sorted.imp fun hab heq => hab.not_at ?_
  rw [heq]
  exact ⟨rfl, rfl⟩

/-! ## Keys above -/

/-- A key whose path holds no blank part is found by its name, below a key of the path above. -/
theorem Filed.spelled (hf : reg.Filed) (hk : k ∈ reg.keys) {part : Part} (hpath : k.path = path (as ++ [part])) :
    (∃ spelled : Part, part = spelled.lower ∧ k.name = spelled.text) ∧ (as = [] ∨ reg.Has k.root (path as)) := by
  rcases hf.known k hk with ⟨above, spelled, hk', hname, habove⟩ | ⟨-, -, hblank⟩
  · obtain ⟨rfl, hpart⟩ := List.append_inj' (path_injective (hpath.symm.trans hk')) rfl
    exact ⟨⟨spelled, (List.cons.inj hpart).1, hname⟩, habove⟩
  · rw [hpath, holdsBlank_path (by simp)] at hblank
    cases hblank

/-- There is a key for each path above that of a key. -/
theorem Filed.has_above (hf : reg.Filed) (has : as ≠ []) {rest : List Part} (hk : reg.Has root (path (as ++ rest))) :
    reg.Has root (path as) := by
  induction rest using List.reverseRecOn with
  | nil => rwa [List.append_nil] at hk
  | append_singleton rest part ih =>
    obtain ⟨k, hk, hroot, hpath⟩ := hk
    rw [← List.append_assoc] at hpath
    rcases (hf.spelled hk hpath).2 with hnil | habove
    · simp [has] at hnil
    · exact ih (hroot ▸ habove)

/-! ## Keys below -/

/-- Whether a key is below a path: its own path goes on from there and holds no blank part. -/
def isBelow (root : RegRoot) (p : String) (k : RegKey) : Bool :=
  k.root == root && !holdsBlank k.path && (p.isEmpty || (p ++ "\\").toList.isPrefixOf k.path.toList)

/-- The keys below a path. -/
def below (reg : Registry) (root : RegRoot) (p : String) : List RegKey :=
  reg.keys.filter (isBelow root p)

/-- The keys directly below a path, as the registry finds them. -/
def childKeys (reg : Registry) (root : RegRoot) (p : String) : List RegKey :=
  reg.keys.filter fun k => k.root == root && isWithin p k.path

/-- The subkeys of a key are the names of the keys directly below it. -/
theorem subkeys_eq (reg : Registry) (root : RegRoot) (key : String) :
    reg.subkeys root key = (reg.childKeys root (normal key)).map (·.name) :=
  rfl

/-- Below the root itself are all its keys whose paths hold no blank part. -/
theorem isBelow_empty_iff : isBelow root "" k = true ↔ k.root = root ∧ holdsBlank k.path = false := by
  simp [isBelow]

/-- A key is below another one if its path has more parts after those of the other. -/
theorem isBelow_iff : isBelow root (path as) k = true ↔ k.root = root ∧ ∃ rest, rest ≠ [] ∧ k.path = path (as ++ rest) := by
  rw [isBelow, Bool.and_eq_true, Bool.and_eq_true, Bool.not_eq_true', beq_iff_eq, and_assoc]
  refine and_congr_right fun _ => ⟨?_, ?_⟩
  · rintro ⟨hblank, h⟩
    obtain ⟨ps, hps, hpath⟩ := exists_path hblank
    by_cases has : as = []
    · exact ⟨ps, hps, by rw [has, List.nil_append, hpath]⟩
    · have hne : (path as).isEmpty = false := by simpa using mt path_eq_empty_iff.mp has
      rw [hne, Bool.false_or, List.isPrefixOf_iff_prefix] at h
      obtain ⟨tail, htail⟩ := h
      have hpieces : ps.map (·.text.toList) = as.map (·.text.toList) ++ splitBy (· == '\\') tail := by
        have hlist : (path ps).toList = (path as).toList ++ '\\' :: tail := by
          rw [hpath, ← htail]
          simp
        rw [← splitBy_path hps, hlist, splitBy_append rfl, splitBy_path has]
      obtain ⟨front, rest, rfl, hfront, hrest⟩ := List.map_eq_append_iff.mp hpieces
      obtain rfl : front = as :=
        (List.map_inj_right fun _ _ h => Part.ext (String.toList_injective h)).mp hfront
      refine ⟨rest, ?_, hpath.symm⟩
      rintro rfl
      exact splitBy_ne_nil tail hrest.symm
  · rintro ⟨rest, hrest, hpath⟩
    refine ⟨by rw [hpath, holdsBlank_path (by simp [hrest])], ?_⟩
    by_cases has : as = []
    · rw [has]
      rfl
    · rw [hpath, path_append has hrest, Bool.or_eq_true, List.isPrefixOf_iff_prefix]
      exact .inr ⟨(path rest).toList, String.toList_append.symm⟩

/-- No key is below itself. -/
theorem isBelow_self (root : RegRoot) (k : RegKey) : isBelow root k.path k = false := by
  rw [Bool.eq_false_iff]
  intro h
  rw [isBelow, Bool.and_eq_true, Bool.and_eq_true, Bool.not_eq_true', Bool.or_eq_true, List.isPrefixOf_iff_prefix] at h
  obtain ⟨⟨-, hblank⟩, hempty | hprefix⟩ := h
  · rw [String.isEmpty_iff.mp hempty] at hblank
    cases hblank
  · have hlength := hprefix.length_le
    rw [String.toList_append, List.length_append] at hlength
    exact absurd hlength (Nat.not_le.mpr (Nat.lt_succ_self _))

/-- The registry finds the keys that have one part more, if no value was stored in the key with a blank path. -/
theorem mem_childKeys (hf : reg.Filed) (hclear : ¬ reg.Has root "") :
    k ∈ reg.childKeys root (path as) ↔ k ∈ reg.keys ∧ k.root = root ∧ ∃ part, k.path = path (as ++ [part]) := by
  rw [childKeys, List.mem_filter, Bool.and_eq_true, beq_iff_eq]
  refine and_congr_right fun hk => and_congr_right fun hroot => ⟨fun h => ?_, ?_⟩
  · rcases hf.known k hk with ⟨above, spelled, hpath, -⟩ | ⟨-, htrimmed, hblank⟩
    · rw [hpath, isWithin_path_iff] at h
      exact ⟨_, h ▸ hpath⟩
    · obtain ⟨-, hpath⟩ := (isWithin_of_holdsBlank htrimmed hblank).mp h
      exact absurd ⟨k, hk, hroot, hpath⟩ hclear
  · rintro ⟨part, hpath⟩
    rw [hpath, isWithin_path_iff]

/-- The path of a key is that of the key above it, as it was spelled, joined with its name. -/
theorem normal_join (hf : reg.Filed) {ps : List Part} {part : Part} (hk : k ∈ reg.keys)
    (hpath : k.path = path (ps.map Part.lower ++ [part])) :
    ∃ spelled : Part, KeyCursor.join (path ps) k.name = path (ps ++ [spelled]) ∧ normal (path (ps ++ [spelled])) = k.path := by
  obtain ⟨⟨spelled, rfl, hname⟩, -⟩ := hf.spelled hk hpath
  refine ⟨spelled, ?_, ?_⟩
  · rw [hname, path_concat]
  · rw [normal_path, hpath, List.map_append, List.map_singleton]

/-- What is at or below a key that has one part more than a path. -/
theorem below_or_eq_iff (hf : reg.Filed) {c : RegKey} (hc : c ∈ reg.keys) (hcroot : c.root = root) {part : Part}
    (hcpath : c.path = path (as ++ [part])) (hk : k ∈ reg.keys) :
    (k == c || isBelow root c.path k) = true ↔ k.root = root ∧ ∃ rest, k.path = path (as ++ part :: rest) := by
  rw [Bool.or_eq_true, beq_iff_eq, hcpath, isBelow_iff]
  constructor
  · rintro (rfl | ⟨hroot, rest, -, hpath⟩)
    · exact ⟨hcroot, [], hcpath⟩
    · exact ⟨hroot, rest, by rw [hpath, List.append_cons as part rest]⟩
  · rintro ⟨hroot, rest, hpath⟩
    by_cases hrest : rest = []
    · subst hrest
      exact .inl (eq_of_at hf.sorted hk hc ⟨hcroot.trans hroot.symm, hcpath.trans hpath.symm⟩)
    · exact .inr ⟨hroot, rest, hrest, by rw [hpath, List.append_cons as part rest]⟩

/-- The keys below a path are those directly below it, each with the keys below its own. -/
theorem perm_below (hf : reg.Filed) (hclear : ¬ reg.Has root "") (as : List Part) :
    (reg.below root (path as)).Perm ((reg.childKeys root (path as)).flatMap fun c => c :: reg.below root c.path) := by
  have hpicked : ∀ k ∈ reg.keys, (reg.childKeys root (path as)).countP (fun c => k == c || isBelow root c.path k) =
      if isBelow root (path as) k then 1 else 0 := by
    intro k hk
    by_cases hbelow : isBelow root (path as) k = true
    · rw [if_pos hbelow]
      obtain ⟨hroot, rest, hrest, hpath⟩ := isBelow_iff.mp hbelow
      obtain ⟨part, rest, rfl⟩ := List.exists_cons_of_ne_nil hrest
      have hwhole : reg.Has root (path (as ++ [part] ++ rest)) := ⟨k, hk, hroot, by rw [hpath, List.append_cons]⟩
      obtain ⟨c, hc, hcroot, hcpath⟩ := hf.has_above (by simp) hwhole
      refine countP_eq_one (hf.nodup.filter _) (a := c) ((mem_childKeys hf hclear).mpr ⟨hc, hcroot, part, hcpath⟩) ?_ ?_
      · exact (below_or_eq_iff hf hc hcroot hcpath hk).mpr ⟨hroot, rest, hpath⟩
      · intro b hb hpicks
        obtain ⟨hb, hbroot, part', hbpath⟩ := (mem_childKeys hf hclear).mp hb
        obtain ⟨-, rest', hpath'⟩ := (below_or_eq_iff hf hb hbroot hbpath hk).mp hpicks
        obtain ⟨rfl, -⟩ := List.cons.inj (List.append_cancel_left (path_injective (hpath'.symm.trans hpath)))
        exact eq_of_at hf.sorted hb hc ⟨hcroot.trans hbroot.symm, hcpath.trans hbpath.symm⟩
    · rw [if_neg hbelow, List.countP_eq_zero]
      intro c hc hpicks
      obtain ⟨hc, hcroot, part, hcpath⟩ := (mem_childKeys hf hclear).mp hc
      obtain ⟨hroot, rest, hpath⟩ := (below_or_eq_iff hf hc hcroot hcpath hk).mp hpicks
      exact hbelow (isBelow_iff.mpr ⟨hroot, part :: rest, List.cons_ne_nil _ _, hpath⟩)
  have hown : ∀ c ∈ reg.childKeys root (path as),
      (reg.keys.filter fun k => k == c || isBelow root c.path k).Perm (c :: reg.below root c.path) := by
    intro c hc
    have hmem := (List.mem_filter.mp hc).1
    have hnot : c ∉ reg.below root c.path := by
      intro hbelow
      rw [below, List.mem_filter, isBelow_self] at hbelow
      cases hbelow.2
    refine (List.perm_ext_iff_of_nodup (hf.nodup.filter _) (List.nodup_cons.mpr ⟨hnot, hf.nodup.filter _⟩)).mpr fun k => ?_
    rw [List.mem_cons, below, List.mem_filter, List.mem_filter, Bool.or_eq_true, beq_iff_eq]
    constructor
    · rintro ⟨hk, rfl | hbelow⟩
      · exact .inl rfl
      · exact .inr ⟨hk, hbelow⟩
    · rintro (rfl | ⟨hk, hbelow⟩)
      · exact ⟨hmem, .inl rfl⟩
      · exact ⟨hk, .inr hbelow⟩
  exact (perm_flatMap_filter hpicked).trans (List.Perm.flatMap_left _ hown)

end Registry

end LineScript
