import LineScript.Proofs.Load.Reading

/-!
# The links of a laid out program

`Layout.LinkedBy` says of every line of a layout which line encloses it and which one it is related to, with the line after
each part given by its number. The links that the loader writes into the lines are of this kind, so whatever holds of every
loaded program can be shown by going through its layout.
-/

namespace LineScript

namespace Layout

/-- The lines of a part have the links of their places. `inside` is the innermost block around the part, `parent` what
encloses its first line, and `after` the number of the line after it. -/
def LinkedBy (link : Nat → Link) : Layout → (inside parent : Option Nat) → (after : Nat) → Prop
  | nil, _, _, _ => True
  | seq first rest, inside, _, after =>
    first.LinkedBy link inside inside (rest.first?.getD after) ∧ rest.LinkedBy link inside inside after
  | plain id, _, parent, _ => link id = ⟨parent, none⟩
  | block first last body, _, parent, _ =>
    link first = ⟨parent, some last⟩ ∧ body.LinkedBy link (some first) (some first) last ∧
      link last = ⟨some first, some first⟩
  | branch id body, inside, parent, after =>
    link id = ⟨parent, some after⟩ ∧ body.LinkedBy link inside (some id) after
  | branchElse id body other otherBody, inside, parent, after =>
    link id = ⟨parent, some other⟩ ∧ body.LinkedBy link inside (some id) other ∧
      link other = ⟨inside, some after⟩ ∧ otherBody.LinkedBy link inside (some other) after
  | loop id body, inside, parent, after => link id = ⟨parent, some after⟩ ∧ body.LinkedBy link inside (some id) after

section

variable {shape : Nat → Shape} {last : Nat} {p : Part} {inLoop : Bool} {layout : Layout} {i m : Nat}

/-- A part laid out from `i` on begins with line `i`, unless it has no lines. -/
theorem Laid.first?_eq (h : Laid shape last p inLoop layout i m) : layout.first? = if i < m then some i else none := by
  induction h with
  | plain _ => simp [first?]
  | inLoop _ => simp [first?]
  | block _ hb _ _ => simp [first?, Nat.lt_succ_of_le (Nat.le_of_succ_le hb.spans.le.1)]
  | branch _ _ hb _ _ => simp [first?, Nat.lt_of_succ_lt (hb.spans.le.2 rfl)]
  | branchElse _ _ h1 _ _ h2 _ _ =>
    have h1 := h1.spans.le.2 rfl
    have h2 := h2.spans.le.2 rfl
    rw [first?, if_pos (by omega)]
  | loop _ _ hb _ => simp [first?, Nat.lt_of_succ_lt (hb.spans.le.2 rfl)]
  | nil => simp [first?]
  | seq h1 h2 ih1 ih2 =>
    have h1 := h1.spans.le.2 rfl
    have h2 := h2.spans.le.1
    rw [first?, ih1, if_pos h1, if_pos (by omega)]
    rfl

/-- Every line of a part has one link. -/
theorem Laid.length_links (h : Laid shape last p inLoop layout i m) :
    ∀ inside parent after, (layout.links inside parent after).length = m - i := by
  induction h with
  | plain _ => simp [links]
  | inLoop _ => simp [links]
  | block _ hb _ ih =>
    intro inside parent after
    have := hb.spans.le.1
    simp only [links, List.length_append, List.length_cons, List.length_nil, ih]
    omega
  | branch _ _ hb _ ih =>
    intro inside parent after
    have := hb.spans.le.2 rfl
    simp only [links, List.length_cons, ih]
    omega
  | branchElse _ _ h1 _ _ h2 ih1 ih2 =>
    intro inside parent after
    have h1 := h1.spans.le.2 rfl
    have h2 := h2.spans.le.2 rfl
    simp only [links, List.length_append, List.length_cons, ih1, ih2]
    omega
  | loop _ _ hb ih =>
    intro inside parent after
    have := hb.spans.le.2 rfl
    simp only [links, List.length_cons, ih]
    omega
  | nil => simp [links]
  | seq h1 h2 ih1 ih2 =>
    intro inside parent after
    have h1 := h1.spans.le.1
    have h2 := h2.spans.le.1
    simp only [links, List.length_append, ih1, ih2]
    omega

/-- Lines that have the links written for a part have the links of their places. -/
theorem Laid.linkedBy (h : Laid shape last p inLoop layout i m) (link : Nat → Link) :
    ∀ inside parent, layout.links inside parent (some m) = stretch link i m → layout.LinkedBy link inside parent m := by
  induction h with
  | plain _ =>
    intro inside parent hl
    rw [links, stretch_singleton] at hl
    exact (List.cons.inj hl).1.symm
  | inLoop _ =>
    intro inside parent hl
    rw [links, stretch_singleton] at hl
    exact (List.cons.inj hl).1.symm
  | @block _ body i j ho hb hc ih =>
    intro inside parent hl
    have hle := hb.spans.le.1
    rw [links, stretch_cons link (by omega), stretch_append link hle (Nat.le_succ j), stretch_singleton,
      List.cons_append] at hl
    obtain ⟨h1, hl⟩ := List.cons.inj hl
    obtain ⟨h2, h3⟩ := List.append_inj hl (by rw [hb.length_links, length_stretch])
    exact ⟨h1.symm, ih _ _ h2, (List.cons.inj h3).1.symm⟩
  | @branch _ body i m hs hne hb he ih =>
    intro inside parent hl
    have hlt := hb.spans.le.2 rfl
    rw [links, stretch_cons link (by omega)] at hl
    obtain ⟨h1, hl⟩ := List.cons.inj hl
    exact ⟨h1.symm, ih _ _ hl⟩
  | @branchElse _ body other i j m hs hne hb he hne' ho ih1 ih2 =>
    intro inside parent hl
    have h1 := hb.spans.le.2 rfl
    have h2 := ho.spans.le.2 rfl
    rw [links, stretch_cons link (by omega), stretch_append link (Nat.le_of_lt h1) (by omega),
      stretch_cons link (i := j) (by omega), List.cons_append] at hl
    obtain ⟨h3, hl⟩ := List.cons.inj hl
    obtain ⟨h4, hl⟩ := List.append_inj hl (by rw [hb.length_links, length_stretch])
    obtain ⟨h5, h6⟩ := List.cons.inj hl
    exact ⟨h3.symm, ih1 _ _ h4, h5.symm, ih2 _ _ h6⟩
  | @loop _ body i m hs hne hb ih =>
    intro inside parent hl
    have hlt := hb.spans.le.2 rfl
    rw [links, stretch_cons link (by omega)] at hl
    obtain ⟨h1, hl⟩ := List.cons.inj hl
    exact ⟨h1.symm, ih _ _ hl⟩
  | nil =>
    intro _ _ _
    trivial
  | @seq _ first rest i j m h1 h2 ih1 ih2 =>
    intro inside parent hl
    have hij := h1.spans.le.1
    have hjm := h2.spans.le.1
    have hj : rest.first?.or (some m) = some j ∧ rest.first?.getD m = j := by
      rw [h2.first?_eq]
      split
      · exact ⟨rfl, rfl⟩
      · obtain rfl : j = m := by omega
        exact ⟨rfl, rfl⟩
    rw [links, stretch_append link hij hjm, hj.1] at hl
    obtain ⟨h3, h4⟩ := List.append_inj hl (by rw [h1.length_links, length_stretch])
    exact ⟨hj.2 ▸ ih1 _ _ h3, ih2 _ _ h4⟩

/-- A statement before the last line ends no later than there, if that line is a plain one. -/
theorem Laid.le_last (h : Laid shape last p inLoop layout i m) (hp : p = .one) (hlast : shape last = .plain)
    (hi : i < last) (hm : m ≤ last + 1) : m ≤ last := by
  induction h with
  | plain _ => exact hi
  | inLoop _ => exact hi
  | @block _ _ i j ho hb hc ih =>
    have hj : j ≠ last := fun h => by simp [h, hlast] at hc
    omega
  | branch _ hne _ _ ih => exact ih rfl (by omega) hm
  | @branchElse _ _ _ i j m _ hne _ he hne' ho ih1 ih2 =>
    have hj : j ≠ last := fun h => by simp [h, hlast] at he
    have hjm := ho.spans.le.2 rfl
    have := ih1 rfl (by omega) (by omega)
    exact ih2 rfl (by omega) hm
  | loop _ hne _ ih => exact ih rfl (by omega) hm
  | nil => cases hp
  | seq _ _ _ _ => cases hp

/-- The lines of a whole program with the links written for it have the links of their places: only the line that closes it
has no line after it, and no body ends there. -/
theorem Laid.linkedBy_program (h : Laid shape last p inLoop layout i m) (link : Nat → Link) (hp : p = .many)
    (hlast : shape last = .plain) (hm : m = last + 1) :
    ∀ parent, layout.links none parent none = stretch link i m → layout.LinkedBy link none parent m := by
  induction h with
  | nil =>
    intro _ _
    trivial
  | @seq _ first rest i j m h1 h2 _ ih =>
    intro parent hl
    have hij := h1.spans.le.2 rfl
    have hjm := h2.spans.le.1
    rw [links, stretch_append link (Nat.le_of_lt hij) hjm] at hl
    obtain ⟨h3, h4⟩ := List.append_inj hl (by rw [h1.length_links, length_stretch])
    refine ⟨?_, ih rfl hm _ h4⟩
    rw [h2.first?_eq] at h3 ⊢
    split at h3
    · rw [if_pos ‹_›]
      exact h1.linkedBy link _ _ h3
    · -- the last statement is the line that closes the program
      have hi : i = last := by
        refine Nat.le_antisymm (by omega) (Nat.le_of_not_lt fun hlt => ?_)
        have := h1.le_last rfl hlast hlt (by omega)
        omega
      subst hi
      cases h1 with
      | plain _ =>
        rw [links, stretch_singleton] at h3
        exact (List.cons.inj h3).1.symm
      | inLoop hs => rw [hlast] at hs; cases hs
      | block hs _ _ => rw [hlast] at hs; cases hs
      | branch hs _ _ _ => rw [hlast] at hs; cases hs
      | branchElse hs _ _ _ _ _ => rw [hlast] at hs; cases hs
      | loop hs _ _ => rw [hlast] at hs; cases hs
  | _ => cases hp

/-- The statements before the line that closes a program derive without it. -/
theorem Laid.spans_last (h : Laid shape last p inLoop layout i m) (hp : p = .many) (hlast : shape last = .plain)
    (hm : m = last + 1) (hi : i ≤ last) : Spans shape .many inLoop i last := by
  induction h with
  | nil => omega
  | @seq _ first rest i j m h1 h2 _ ih =>
    have hij := h1.spans.le.2 rfl
    have hjm := h2.spans.le.1
    rcases Nat.eq_or_lt_of_le hi with rfl | hlt
    · exact .nil
    · exact .cons h1.spans (ih rfl hm (h1.le_last rfl hlast hlt (by omega)))
  | _ => cases hp

end

/-! ## Conditions and their elses -/

section

variable {shape : Nat → Shape} {last : Nat} {p : Part} {inLoop : Bool} {layout : Layout} {i m : Nat} {link : Nat → Link}

/-- What is laid out outside loops is laid out the same inside. -/
theorem Laid.mono (h : Laid shape last p inLoop layout i m) : Laid shape last p true layout i m := by
  induction h with
  | plain hs => exact .plain hs
  | inLoop hs => exact .inLoop hs
  | block ho _ hc ih => exact .block ho ih hc
  | branch hs hne _ he ih => exact .branch hs hne ih he
  | branchElse hs hne _ he hne' _ ih1 ih2 => exact .branchElse hs hne ih1 he hne' ih2
  | loop hs hne _ ih => exact .loop hs hne ih
  | nil => exact .nil
  | seq _ _ ih1 ih2 => exact .seq ih1 ih2

/-- The number of the line after a part, as its links give it. -/
theorem Laid.getD_first? (h : Laid shape last p inLoop layout i m) : layout.first?.getD m = i := by
  have hle := h.spans.le.1
  rw [h.first?_eq]
  split
  · rfl
  · exact (show m = i by omega)

/-- A part is laid out from line `i` up to line `m`, and its lines have the links of their places. -/
structure Placed (shape : Nat → Shape) (last : Nat) (link : Nat → Link) (p : Part) (layout : Layout)
    (inside parent : Option Nat) (i m : Nat) : Prop where
  laid : Laid shape last p true layout i m
  linked : layout.LinkedBy link inside parent m

/-- What a line is in a statement: its first line, the closing brace of its block, or its else. -/
inductive StandsIn (c : Nat) : Layout → (i m : Nat) → Prop where
  | first {node : Layout} {m : Nat} : StandsIn c node c m
  | closing {body : Layout} {i : Nat} : StandsIn c (.block i c body) i (c + 1)
  | otherwise {body other : Layout} {i m : Nat} : StandsIn c (.branchElse i body c other) i m

/-- Every line of a part stands in a statement of that part. -/
theorem Placed.node_at (h : Laid shape last p inLoop layout i m) :
    ∀ {inside parent : Option Nat}, layout.LinkedBy link inside parent m → ∀ {c : Nat}, i ≤ c → c < m →
      ∃ node inside' parent' j k, Placed shape last link .one node inside' parent' j k ∧ i ≤ j ∧ j ≤ c ∧ k ≤ m ∧
        StandsIn c node j k := by
  induction h with
  | @plain _ i hs =>
    intro inside parent hl c h1 h2
    obtain rfl : c = i := by omega
    exact ⟨_, inside, parent, c, c + 1, ⟨.plain hs, hl⟩, Nat.le_refl _, Nat.le_refl _, Nat.le_refl _, .first⟩
  | @inLoop i action hs =>
    intro inside parent hl c h1 h2
    obtain rfl : c = i := by omega
    exact ⟨_, inside, parent, c, c + 1, ⟨.inLoop hs, hl⟩, Nat.le_refl _, Nat.le_refl _, Nat.le_refl _, .first⟩
  | @block _ body i j ho hb hc ih =>
    intro inside parent hl c h1 h2
    have hle := hb.spans.le.1
    have hnode : Placed shape last link .one (.block i j body) inside parent i (j + 1) := ⟨.block ho hb.mono hc, hl⟩
    rcases Nat.eq_or_lt_of_le h1 with rfl | h1
    · exact ⟨_, _, _, _, _, hnode, Nat.le_refl _, Nat.le_refl _, Nat.le_refl _, .first⟩
    · rcases Nat.lt_or_ge c j with hlt | hge
      · obtain ⟨node, inside', parent', j', k, hp, h3, h4, h5, h6⟩ := ih hl.2.1 h1 hlt
        exact ⟨node, inside', parent', j', k, hp, by omega, h4, by omega, h6⟩
      · obtain rfl : c = j := by omega
        exact ⟨_, _, _, _, _, hnode, Nat.le_refl _, by omega, Nat.le_refl _, .closing⟩
  | @branch _ body i m hs hne hb he ih =>
    intro inside parent hl c h1 h2
    rcases Nat.eq_or_lt_of_le h1 with rfl | h1
    · exact ⟨_, _, _, _, _, ⟨.branch hs hne hb.mono he, hl⟩, Nat.le_refl _, Nat.le_refl _, Nat.le_refl _, .first⟩
    · obtain ⟨node, inside', parent', j', k, hp, h3, h4, h5, h6⟩ := ih hl.2 h1 h2
      exact ⟨node, inside', parent', j', k, hp, by omega, h4, h5, h6⟩
  | @branchElse _ body other i j m hs hne hb he hne' ho ih1 ih2 =>
    intro inside parent hl c h1 h2
    have hij := hb.spans.le.2 rfl
    have hjm := ho.spans.le.2 rfl
    have hnode : Placed shape last link .one (.branchElse i body j other) inside parent i m :=
      ⟨.branchElse hs hne hb.mono he hne' ho.mono, hl⟩
    rcases Nat.eq_or_lt_of_le h1 with rfl | h1
    · exact ⟨_, _, _, _, _, hnode, Nat.le_refl _, Nat.le_refl _, Nat.le_refl _, .first⟩
    · rcases Nat.lt_trichotomy c j with hlt | rfl | hgt
      · obtain ⟨node, inside', parent', j', k, hp, h3, h4, h5, h6⟩ := ih1 hl.2.1 h1 hlt
        exact ⟨node, inside', parent', j', k, hp, by omega, h4, by omega, h6⟩
      · exact ⟨_, _, _, _, _, hnode, Nat.le_refl _, by omega, Nat.le_refl _, .otherwise⟩
      · obtain ⟨node, inside', parent', j', k, hp, h3, h4, h5, h6⟩ := ih2 hl.2.2.2 hgt h2
        exact ⟨node, inside', parent', j', k, hp, by omega, h4, h5, h6⟩
  | @loop _ body i m hs hne hb ih =>
    intro inside parent hl c h1 h2
    rcases Nat.eq_or_lt_of_le h1 with rfl | h1
    · exact ⟨_, _, _, _, _, ⟨.loop hs hne hb, hl⟩, Nat.le_refl _, Nat.le_refl _, Nat.le_refl _, .first⟩
    · obtain ⟨node, inside', parent', j', k, hp, h3, h4, h5, h6⟩ := ih hl.2 h1 h2
      exact ⟨node, inside', parent', j', k, hp, by omega, h4, h5, h6⟩
  | nil =>
    intro _ _ _ c h1 h2
    omega
  | @seq _ first rest i j m h1 h2 ih1 ih2 =>
    intro inside parent hl c hci hcm
    have hij := h1.spans.le.1
    have hjm := h2.spans.le.1
    rcases Nat.lt_or_ge c j with hlt | hge
    · obtain ⟨node, inside', parent', j', k, hp, h3, h4, h5, h6⟩ := ih1 (h2.getD_first? ▸ hl.1) hci hlt
      exact ⟨node, inside', parent', j', k, hp, h3, h4, by omega, h6⟩
    · obtain ⟨node, inside', parent', j', k, hp, h3, h4, h5, h6⟩ := ih2 hl.2 hge hcm
      exact ⟨node, inside', parent', j', k, hp, by omega, h4, h5, h6⟩

/-- A condition is related to the line after its body, and an else there belongs to the same part. -/
theorem Placed.cond_body {inside parent : Option Nat} (h : Placed shape last link p layout inside parent i m) {c : Nat}
    (h1 : i ≤ c) (h2 : c < m) (hc : shape c = .cond) :
    ∃ body inside' k, Placed shape last link .one body inside' (some c) (c + 1) k ∧ (link c).related = some k ∧ k ≤ m ∧
      (shape k = .otherwise → k < m) := by
  obtain ⟨node, inside', parent', j, k, hp, hij, hjc, hkm, hst⟩ := Placed.node_at h.laid h.linked h1 h2
  obtain ⟨hlaid, hl⟩ := hp
  cases hst with
  | first =>
    cases hlaid with
    | plain hs => simp [hs] at hc
    | inLoop hs => simp [hs] at hc
    | block hs _ _ => simp [hs] at hc
    | branch _ _ hb he => exact ⟨_, inside', k, ⟨hb, hl.2⟩, by rw [hl.1], hkm, fun h => absurd h he⟩
    | branchElse _ _ hb _ _ ho =>
      have := ho.spans.le.2 rfl
      exact ⟨_, inside', _, ⟨hb, hl.2.1⟩, by rw [hl.1], by omega, fun _ => by omega⟩
    | loop hs _ _ => simp [hs] at hc
  | closing =>
    cases hlaid with
    | block _ _ hcl => simp [hcl] at hc
  | otherwise =>
    cases hlaid with
    | branchElse _ _ _ he _ _ => simp [he] at hc

/-- An else is related to by the condition whose body ends right before it, and has a body of its own. -/
theorem Placed.else_owner {inside parent : Option Nat} (h : Placed shape last link p layout inside parent i m) {e : Nat}
    (h1 : i ≤ e) (h2 : e < m) (he : shape e = .otherwise) :
    ∃ c body inside' other k, i ≤ c ∧ shape c = .cond ∧ (link c).related = some e ∧
      Placed shape last link .one body inside' (some c) (c + 1) e ∧ e + 1 ≠ last ∧
      Laid shape last .one true other (e + 1) k ∧ k ≤ m := by
  obtain ⟨node, inside', parent', j, k, hp, hij, hjc, hkm, hst⟩ := Placed.node_at h.laid h.linked h1 h2
  obtain ⟨hlaid, hl⟩ := hp
  cases hst with
  | first => exact absurd he hlaid.spans.head_ne.1
  | closing =>
    cases hlaid with
    | block _ _ hcl => simp [hcl] at he
  | otherwise =>
    cases hlaid with
    | branchElse hs _ hb _ hne ho =>
      exact ⟨j, _, inside', _, k, hij, hs, by rw [hl.1], ⟨hb, hl.2.1⟩, hne, ho, hkm⟩

end

/-! ## Accepting rows -/

section

variable {shape : Nat → Shape} {last : Nat}

/-- Pairing braces goes through what derives as if it were not there. -/
theorem Spans.braceFault?_eq {stop : Nat} {p : Part} {inLoop : Bool} {i m : Nat} (h : Spans shape p inLoop i m)
    (hm : m ≤ stop) : ∀ opened, braceFault? opened (rowsFrom shape stop i) = braceFault? opened (rowsFrom shape stop m) := by
  induction h with
  | plain hs =>
    intro opened
    rw [rowsFrom_cons shape (by omega)]
    cases opened <;> simp [braceFault?, hs]
  | inLoop hs =>
    intro opened
    rw [rowsFrom_cons shape (by omega)]
    cases opened <;> simp [braceFault?, hs]
  | @block _ i j ho hb hc ih =>
    intro opened
    have hle := hb.le.1
    have hopen : braceFault? opened (rowsFrom shape stop i) = braceFault? (i :: opened) (rowsFrom shape stop (i + 1)) := by
      rw [rowsFrom_cons shape (by omega)]
      cases opened <;> simp [braceFault?, ho]
    rw [hopen, ih (by omega), rowsFrom_cons shape (by omega)]
    simp [braceFault?, hc]
  | branch hs hb ih =>
    intro opened
    have hlt := hb.le.2 rfl
    rw [rowsFrom_cons shape (by omega), ← ih hm]
    cases opened <;> simp [braceFault?, hs]
  | @branchElse _ i j m hs hb he ho ih1 ih2 =>
    intro opened
    have h1 := hb.le.2 rfl
    have h2 := ho.le.2 rfl
    have hskip : ∀ k, (shape k = .cond ∨ shape k = .otherwise) → k < stop →
        braceFault? opened (rowsFrom shape stop k) = braceFault? opened (rowsFrom shape stop (k + 1)) := by
      intro k hk hlt
      rw [rowsFrom_cons shape hlt]
      rcases hk with hk | hk <;> cases opened <;> simp [braceFault?, hk]
    rw [hskip i (Or.inl hs) (by omega), ih1 (by omega), hskip j (Or.inr he) (by omega), ih2 hm]
  | loop hs hb ih =>
    intro opened
    have hlt := hb.le.2 rfl
    rw [rowsFrom_cons shape (by omega), ← ih hm]
    cases opened <;> simp [braceFault?, hs]
  | nil =>
    intro opened
    rfl
  | cons h1 h2 ih1 ih2 =>
    intro opened
    have := h2.le.1
    rw [ih1 (by omega), ih2 hm]

/-- A program that is accepted is laid out. -/
theorem laid_of_ofRows {layout : Layout} (hend : ∀ j, last + 1 ≤ j → shape j ≠ .otherwise)
    (h : ofRows last (rowsFrom shape (last + 1) 0) = .ok layout) : Laid shape last .many false layout 0 (last + 1) := by
  unfold ofRows at h
  split at h
  · cases h
  · split at h
    · cases h
    · rename_i found hq
      obtain rfl := Except.ok.inj h
      obtain ⟨m, hm, hrest, hlaid⟩ := (laid_of_read hend _).2.2 _ _ _ _ (Nat.zero_le _) hq
      obtain rfl : m = last + 1 := by
        refine Nat.le_antisymm hm (Nat.le_of_not_lt fun hlt => ?_)
        rw [rowsFrom_cons shape hlt] at hrest
        cases hrest
      exact hlaid
    · cases h

/-- A program whose lines before the one that closes it derive is accepted. -/
theorem ofRows_of_spans (hlast : shape last = .plain) (h : Spans shape .many false 0 last) :
    ∃ layout, ofRows last (rowsFrom shape (last + 1) 0) = .ok layout := by
  have hclose : rowsFrom shape (last + 1) last = [⟨last, shape last⟩] := by
    rw [rowsFrom_cons shape (Nat.lt_succ_self last), rowsFrom_of_le shape (Nat.le_refl _)]
  have hbrace : braceFault? [] (rowsFrom shape (last + 1) 0) = none := by
    rw [h.braceFault?_eq (Nat.le_succ last), hclose]
    simp [braceFault?, hlast]
  have hrest : ∀ fuel, 3 * (last + 1 - last) + 1 ≤ fuel →
      ∃ more, readSequence last fuel false (rowsFrom shape (last + 1) last) =
        .ok (more, rowsFrom shape (last + 1) (last + 1)) := by
    intro fuel hf
    obtain ⟨fuel, rfl⟩ : ∃ f, fuel = f + 2 := ⟨fuel - 2, by omega⟩
    refine ⟨.seq (.plain last) .nil, ?_⟩
    rw [hclose, rowsFrom_of_le shape (Nat.le_refl _)]
    simp [readSequence, readStatement, hlast]
  obtain ⟨layout, hread⟩ := readSequence_of_spans (Nat.lt_succ_self last) h rfl (Nat.le_refl _) (by simp [hlast])
    (fun i' _ e es fuel hf => read_of_spans (Nat.lt_succ_self last) _ i' false e es fuel (Nat.le_refl _) hf) hrest
    (3 * (last + 1) + 3) (by omega)
  refine ⟨layout, ?_⟩
  have hlen : (rowsFrom shape (last + 1) 0).length = last + 1 := by rw [rowsFrom, length_stretch]; omega
  rw [rowsFrom_of_le shape (Nat.le_refl _)] at hread
  simp only [ofRows, hbrace, hlen, hread]

/-- A program that is laid out is accepted, with that layout. -/
theorem ofRows_of_laid {layout : Layout} (h : Laid shape last .many false layout 0 (last + 1)) :
    ofRows last (rowsFrom shape (last + 1) 0) = .ok layout := by
  have hbrace : braceFault? [] (rowsFrom shape (last + 1) 0) = none := by
    rw [h.spans.braceFault?_eq (Nat.le_refl _), rowsFrom_of_le shape (Nat.le_refl _)]
    rfl
  have hlen : (rowsFrom shape (last + 1) 0).length = last + 1 := by rw [rowsFrom, length_stretch]; omega
  have hread := (h.read (Nat.le_refl _) (3 * (last + 1) + 3)).2 rfl (by omega) fun hlt => absurd hlt (Nat.lt_irrefl _)
  rw [rowsFrom_of_le shape (Nat.le_refl _)] at hread
  simp only [ofRows, hbrace, hlen, hread]

/-! ## Parts one after the other -/

/-- The statements of a part followed by those of another one. -/
def followedBy : Layout → Layout → Layout
  | nil, next => next
  | seq first rest, next => seq first (rest.followedBy next)
  | first, next => seq first next

/-- The first line of a part that is followed by another one is its own, or that of the other if it has none. -/
theorem first?_followedBy (layout next : Layout) : (layout.followedBy next).first? = layout.first?.or next.first? := by
  induction layout with
  | seq first rest _ ih => simp only [followedBy, first?, ih, Option.or_assoc]
  | _ => rfl

/-- Statements that are followed by others are laid out together with them. -/
theorem Laid.followedBy {layout next : Layout} {inLoop : Bool} {p : Part} {i j m : Nat}
    (h : Laid shape last p inLoop layout i j) (hp : p = .many) (hnext : Laid shape last .many inLoop next j m) :
    Laid shape last .many inLoop (layout.followedBy next) i m := by
  induction h with
  | nil => exact hnext
  | seq h1 _ _ ih => exact .seq h1 (ih rfl hnext)
  | _ => cases hp

/-- A part that is followed by another one is linked to the first line of that one. -/
theorem LinkedBy.of_followedBy {layout next : Layout} {inside : Option Nat} {m : Nat}
    (h : (layout.followedBy next).LinkedBy link inside inside m) :
    layout.LinkedBy link inside inside (next.first?.getD m) := by
  induction layout with
  | nil => trivial
  | seq first rest _ ih =>
    obtain ⟨h1, h2⟩ := h
    rw [first?_followedBy] at h1
    refine ⟨?_, ih h2⟩
    cases hfirst : rest.first? with
    | none => rwa [hfirst] at h1
    | some line => rwa [hfirst] at h1
  | _ => exact h.1

end

end Layout

end LineScript
