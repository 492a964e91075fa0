import LineScript.Proofs.Registry.Below

/-!
# What is stored in a registry

A registry is filled by requests. A value that was stored is found in its key until one of the same name, ASCII case aside, is
stored there (`Registry.stored`). The keys of a root whose paths hold no blank part have, all together, the values stored in them
(`Registry.perm_stored`).
-/

namespace LineScript

open Text

/-! ## The last of each kind -/

section

variable {α β : Type}

/-- The elements of a list that no later one stands in place of. -/
def latest (same : α → α → Bool) : List α → List α
  | [] => []
  | a :: rest => if rest.any (same a) then latest same rest else a :: latest same rest

theorem mem_of_mem_latest {same : α → α → Bool} {a : α} {l : List α} (h : a ∈ latest same l) : a ∈ l := by
  induction l with
  | nil => cases h
  | cons b l ih =>
    rw [latest] at h
    split at h
    · exact List.mem_cons_of_mem _ (ih h)
    · rcases List.mem_cons.mp h with rfl | h
      · exact List.mem_cons_self
      · exact List.mem_cons_of_mem _ (ih h)

/-- A new element at the end takes the place of those before it. -/
theorem latest_concat (same : α → α → Bool) (l : List α) (a : α) :
    latest same (l ++ [a]) = (latest same l).filter (fun b => !same b a) ++ [a] := by
  induction l with
  | nil => rfl
  | cons b l ih =>
    rw [List.cons_append, latest, latest, List.any_append, ih]
    simp only [List.any_cons, List.any_nil, Bool.or_false]
    cases hrest : l.any (same b) <;> cases ha : same b a <;> simp [ha]

/-- Elements that stand in place of one another are taken or left together. -/
theorem latest_filter {same : α → α → Bool} {p : α → Bool} (h : ∀ a b, same a b = true → p a = p b) (l : List α) :
    latest same (l.filter p) = (latest same l).filter p := by
  induction l with
  | nil => rfl
  | cons a l ih =>
    by_cases ha : p a = true
    · have hany : (l.filter p).any (same a) = l.any (same a) := by
        rw [List.any_filter]
        refine List.any_congr rfl fun b => ?_
        cases hb : same a b with
        | false => rw [Bool.and_false]
        | true => rw [← h a b hb, ha, Bool.and_self]
      rw [List.filter_cons_of_pos ha, latest, latest, hany, ih]
      split
      · rfl
      · rw [List.filter_cons_of_pos ha]
    · rw [List.filter_cons_of_neg ha, latest, ih]
      split
      · rfl
      · rw [List.filter_cons_of_neg ha]

/-- Mapping keeps which elements are the latest, if it keeps which ones stand in place of one another. -/
theorem latest_map {same : α → α → Bool} {same' : β → β → Bool} {f : α → β} {l : List α}
    (h : ∀ a ∈ l, ∀ b ∈ l, same' (f a) (f b) = same a b) : latest same' (l.map f) = (latest same l).map f := by
  induction l with
  | nil => rfl
  | cons a l ih =>
    have hany : (l.map f).any (same' (f a)) = l.any (same a) := by
      rw [List.any_map, Bool.eq_iff_iff, List.any_eq_true, List.any_eq_true]
      refine exists_congr fun b => and_congr_right fun hb => ?_
      rw [Function.comp_apply, h a List.mem_cons_self b (List.mem_cons_of_mem _ hb)]
    rw [List.map_cons, latest, latest, hany, ih fun a ha b hb => h a (List.mem_cons_of_mem _ ha) b (List.mem_cons_of_mem _ hb)]
    split <;> rfl

/-- No two of the latest elements stand in place of one another. -/
theorem pairwise_latest (same : α → α → Bool) (l : List α) : (latest same l).Pairwise fun a b => same a b = false := by
  induction l with
  | nil => exact List.Pairwise.nil
  | cons a l ih =>
    rw [latest]
    split
    · exact ih
    · rename_i hnew
      refine List.pairwise_cons.mpr ⟨fun b hb => Bool.eq_false_iff.mpr fun hsame => hnew ?_, ih⟩
      exact List.any_eq_true.mpr ⟨b, mem_of_mem_latest hb, hsame⟩

end

/-! ## Values of a key -/

namespace RegValue

/-- Whether a value stands in place of another one in a key. -/
def sameName (a b : RegValue) : Bool :=
  sameAscii a.name b.name

/-- Two values have the same name if their names agree but for ASCII case. -/
theorem sameName_iff {a b : RegValue} : a.sameName b = true ↔ asciiLower a.name = asciiLower b.name :=
  beq_iff_eq

end RegValue

namespace Registry

/-- A value is stored in place of the one of its name, or beside the others. -/
theorem putValue_perm (value : RegValue) {values : List RegValue} (h : values.Pairwise fun a b => a.sameName b = false) :
    (putValue value values).Perm (values.filter (fun b => !b.sameName value) ++ [value]) := by
  induction values with
  | nil => exact List.Perm.refl _
  | cons a values ih =>
    obtain ⟨ha, hvalues⟩ := List.pairwise_cons.mp h
    rw [putValue, ← RegValue.sameName]
    by_cases hsame : a.sameName value = true
    · have hothers : values.filter (fun b => !b.sameName value) = values := by
        refine List.filter_eq_self.mpr fun b hb => ?_
        rw [Bool.not_eq_true', Bool.eq_false_iff]
        intro hb'
        have hab : a.sameName b = true := RegValue.sameName_iff.mpr
          ((RegValue.sameName_iff.mp hsame).trans (RegValue.sameName_iff.mp hb').symm)
        rw [ha b hb] at hab
        cases hab
      rw [if_pos hsame, List.filter_cons_of_neg (by simp [hsame]), hothers]
      exact (List.perm_append_singleton _ _).symm
    · rw [if_neg hsame, List.filter_cons_of_pos (by simpa using hsame)]
      exact (ih hvalues).cons a

/-- Stored one after the other, the latest values of each name are in a key. -/
theorem foldl_putValue_perm (values : List RegValue) :
    (values.foldl (fun stored value => putValue value stored) []).Perm (latest RegValue.sameName values) := by
  induction values using List.reverseRecOn with
  | nil => exact List.Perm.refl _
  | append_singleton values value ih =>
    have hsymm {a b : RegValue} (h : a.sameName b = false) : b.sameName a = false := by
      rw [Bool.eq_false_iff, ne_eq, RegValue.sameName_iff] at h ⊢
      exact fun hba => h hba.symm
    have hdistinct := (ih.pairwise_iff hsymm).mpr (pairwise_latest _ values)
    rw [List.foldl_append, latest_concat]
    exact (putValue_perm value hdistinct).trans ((ih.filter _).append_right _)

/-! ## Requests -/

/-- What can be asked of a registry. -/
inductive Request where
  | create (root : RegRoot) (key : String)
  | set (root : RegRoot) (key : String) (value : RegValue)

/-- Does what is asked. -/
def serve (reg : Registry) : Request → Registry
  | .create root key => reg.create root key
  | .set root key value => reg.setValue root key value

/-- A registry that was filled by requests. -/
def after (requests : List Request) : Registry :=
  requests.foldl serve {}

/-- The values a request stores below a root, with their paths. -/
def Request.value? (root : RegRoot) : Request → Option (String × RegValue)
  | .create _ _ => none
  | .set r key value => if r = root then some (normal key, value) else none

/-- Whether a value stands in place of another one: it has its name, in the same key. -/
def sameEntry (a b : String × RegValue) : Bool :=
  a.1 == b.1 && a.2.sameName b.2

/-- The values that are stored below a root, with their paths. -/
def stored (root : RegRoot) (requests : List Request) : List (String × RegValue) :=
  latest sameEntry (requests.filterMap (·.value? root))

/-- The last request is served after the others. -/
theorem after_concat (requests : List Request) (request : Request) :
    after (requests ++ [request]) = (after requests).serve request := by
  rw [after, List.foldl_append]
  rfl

/-- However it was filled, a registry is filed. -/
theorem filed_after (requests : List Request) : (after requests).Filed := by
  induction requests using List.reverseRecOn with
  | nil => exact filed_empty
  | append_singleton requests request ih =>
    rw [after_concat]
    cases request with
    | create root key => exact (create_spec ih root key).1
    | set root key value => exact (setValue_spec ih root key value).1

variable {root : RegRoot} {requests : List Request}

/-- A request that stores a value below a root is about a key of that root, and the value's path is where the key is filed. -/
theorem Request.value?_eq_some {request : Request} {entry : String × RegValue} (h : request.value? root = some entry) :
    ∃ key, request = .set root key entry.2 ∧ entry.1 = normal key := by
  cases request with
  | create r key => cases h
  | set r key value =>
    rw [Request.value?] at h
    split at h
    · rename_i hroot
      obtain rfl := Option.some.inj h
      exact ⟨key, by rw [hroot], rfl⟩
    · cases h

/-- The values stored below a root, with one more request. -/
theorem mem_concat {request : Request} {entry : String × RegValue} :
    entry ∈ (requests ++ [request]).filterMap (·.value? root) ↔
      entry ∈ requests.filterMap (·.value? root) ∨ request.value? root = some entry := by
  rw [List.filterMap_append, List.mem_append]
  simp

/-- A request keeps all keys. -/
theorem has_serve {reg : Registry} (hf : reg.Filed) (request : Request) {p : String} (h : reg.Has root p) :
    (reg.serve request).Has root p := by
  cases request with
  | create r key => exact (create_spec hf r key).2.1.has h
  | set r key value => exact (setValue_spec hf r key value).2.2.1 h

/-- There is a key for each value that was stored. -/
theorem has_after {entry : String × RegValue} (h : entry ∈ requests.filterMap (·.value? root)) :
    (after requests).Has root entry.1 := by
  induction requests using List.reverseRecOn with
  | nil => cases h
  | append_singleton requests request ih =>
    rw [after_concat]
    rcases mem_concat.mp h with h | h
    · exact has_serve (filed_after requests) request (ih h)
    · obtain ⟨key, rfl, hpath⟩ := Request.value?_eq_some h
      rw [hpath]
      exact (setValue_spec (filed_after requests) root key entry.2).2.1

/-- The key with a blank path is there only for values stored in it. -/
theorem exists_of_has_blank (h : (after requests).Has root "") :
    ∃ entry ∈ requests.filterMap (·.value? root), entry.1 = "" := by
  induction requests using List.reverseRecOn with
  | nil =>
    obtain ⟨k, hk, -⟩ := h
    cases hk
  | append_singleton requests request ih =>
    rw [after_concat] at h
    have hbefore (h : (after requests).Has root "") :
        ∃ entry ∈ (requests ++ [request]).filterMap (·.value? root), entry.1 = "" := by
      obtain ⟨entry, hentry, hpath⟩ := ih h
      exact ⟨entry, mem_concat.mpr (.inl hentry), hpath⟩
    cases request with
    | create r key => exact hbefore ((create_spec (filed_after requests) r key).2.2 root h)
    | set r key value =>
      rcases (setValue_spec (filed_after requests) r key value).2.2.2.2 root h with h | ⟨rfl, hpath⟩
      · exact hbefore h
      · exact ⟨(normal key, value), mem_concat.mpr (.inr (if_pos rfl)), hpath⟩

/-- The values of a key are those stored in it, one after the other. -/
theorem valuesAt_after (root : RegRoot) (p : String) (requests : List Request) :
    (after requests).valuesAt root p = (((requests.filterMap (·.value? root)).filter (·.1 == p)).map (·.2)).foldl
      (fun stored value => putValue value stored) [] := by
  induction requests using List.reverseRecOn with
  | nil => rfl
  | append_singleton requests request ih =>
    rw [after_concat, List.filterMap_append, List.filter_append, List.map_append, List.foldl_append, ← ih]
    cases request with
    | create r key => exact (create_spec (filed_after requests) r key).2.1.values root p
    | set r key value =>
      have hset := (setValue_spec (filed_after requests) r key value).2.2.2.1 root p
      rw [serve, hset]
      by_cases hroot : r = root
      · by_cases hpath : p = normal key
        · rw [if_pos ⟨hroot.symm, hpath⟩]
          simp [Request.value?, hroot, hpath]
        · rw [if_neg fun h => hpath h.2]
          simp [Request.value?, hroot, Ne.symm hpath]
      · rw [if_neg fun h => hroot h.1.symm]
        simp [Request.value?, hroot]

theorem putValue_ne_nil (value : RegValue) (values : List RegValue) : putValue value values ≠ [] := by
  cases values with
  | nil => exact List.cons_ne_nil _ _
  | cons a values =>
    rw [putValue]
    split <;> exact List.cons_ne_nil _ _

/-- A key with a blank path has a value. -/
theorem valuesAt_blank_ne_nil (h : (after requests).Has root "") : (after requests).valuesAt root "" ≠ [] := by
  obtain ⟨entry, hentry, hpath⟩ := exists_of_has_blank h
  rw [valuesAt_after]
  have hmem : entry.2 ∈ ((requests.filterMap (·.value? root)).filter (·.1 == "")).map (·.2) :=
    List.mem_map_of_mem (List.mem_filter.mpr ⟨hentry, by simp [hpath]⟩)
  rcases List.eq_nil_or_concat (((requests.filterMap (·.value? root)).filter (·.1 == "")).map (·.2)) with
    hnil | ⟨values, value, hlast⟩
  · rw [hnil] at hmem
    cases hmem
  · rw [hlast, List.concat_eq_append, List.foldl_append]
    exact putValue_ne_nil _ _

/-- The values stored in a key are the latest ones of those the requests store there. -/
theorem stored_at (root : RegRoot) (p : String) (requests : List Request) :
    ((stored root requests).filter fun entry => entry.1 == p).map (·.2) =
      latest RegValue.sameName (((requests.filterMap (·.value? root)).filter (·.1 == p)).map (·.2)) := by
  have hsame : ∀ a b, sameEntry a b = true → (a.1 == p) = (b.1 == p) := by
    intro a b hab
    rw [sameEntry, Bool.and_eq_true, beq_iff_eq] at hab
    rw [hab.1]
  rw [stored, ← latest_filter hsame]
  refine (latest_map fun a ha b hb => ?_).symm
  have ha := (List.mem_filter.mp ha).2
  have hb := (List.mem_filter.mp hb).2
  rw [beq_iff_eq] at ha hb
  rw [sameEntry, ha, hb, beq_self_eq_true, Bool.true_and]

/-- The keys below a root have, all together, the values that are stored where no blank part hides them. -/
theorem perm_stored (root : RegRoot) (requests : List Request) :
    (((after requests).below root "").flatMap (·.values)).Perm
      (((stored root requests).filter (fun entry => !holdsBlank entry.1)).map (·.2)) := by
  have hf := filed_after requests
  have hkey {k : RegKey} (hk : k ∈ (after requests).below root "") :
      k ∈ (after requests).keys ∧ k.root = root ∧ holdsBlank k.path = false := by
    rwa [below, List.mem_filter, isBelow_empty_iff] at hk
  have hvalues : ∀ k ∈ (after requests).below root "",
      k.values.Perm (((stored root requests).filter fun entry => entry.1 == k.path).map (·.2)) := by
    intro k hk
    obtain ⟨hmem, hroot, -⟩ := hkey hk
    rw [← valuesAt_of_mem hf.sorted hmem ⟨hroot, rfl⟩, valuesAt_after, stored_at]
    exact foldl_putValue_perm _
  have hpicked : ∀ entry ∈ stored root requests,
      ((after requests).below root "").countP (fun k => entry.1 == k.path) = if !holdsBlank entry.1 then 1 else 0 := by
    intro entry hentry
    cases hblank : holdsBlank entry.1 with
    | false =>
      obtain ⟨k, hk, hroot, hpath⟩ := has_after (mem_of_mem_latest hentry)
      have hbelow : k ∈ (after requests).below root "" := by
        rw [below, List.mem_filter, isBelow_empty_iff]
        exact ⟨hk, hroot, hpath ▸ hblank⟩
      refine countP_eq_one (hf.nodup.filter _) hbelow (beq_iff_eq.mpr hpath.symm) fun b hb hb' => ?_
      obtain ⟨hb, hbroot, -⟩ := hkey hb
      exact eq_of_at hf.sorted hb hk ⟨hroot.trans hbroot.symm, hpath.trans (eq_of_beq hb')⟩
    | true =>
      refine List.countP_eq_zero.mpr fun k hk hpath => ?_
      rw [eq_of_beq hpath, (hkey hk).2.2] at hblank
      cases hblank
  refine (List.Perm.flatMap_left _ hvalues).trans ?_
  rw [← List.map_flatMap]
  exact (perm_flatMap_filter hpicked).symm.map _

end Registry

end LineScript
