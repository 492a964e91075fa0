import LineScript.Proofs.Load.Arranged

/-!
# What the layout accepts

The two passes of the loader, pairing braces and reading statements, together accept exactly the programs that derive from the
grammar, and an else belongs to the nearest condition that can have it.
-/

namespace LineScript

namespace Layout

/-- The lines between the condition at `i` and line `e` are one statement: a body of the condition that ends right before `e`. -/
def BodyEnds (shapes : List Shape) (i e : Nat) : Prop :=
  Derives .one true ((shapes.take e).drop (i + 1))

section

variable {shape : Nat → Shape} {last : Nat} {layout : Layout} {link : Nat → Link}

/-- After every line of a program that is laid out, elses with their bodies may follow, and then something else. -/
theorem Placed.exists_tails (h : Placed shape last link .many layout none none 0 (last + 1))
    (hlast : shape last = .plain) : ∀ n e, last - e ≤ n → e ≤ last → ∃ es, Tails shape last true (e :: es) := by
  intro n
  induction n with
  | zero =>
    intro e hn he
    obtain rfl : e = last := by omega
    exact ⟨[], .done (by simp [hlast]) (Nat.le_refl _)⟩
  | succ n ih =>
    intro e hn he
    by_cases hs : shape e = .otherwise
    · have hne : e ≠ last := fun h => by simp [h, hlast] at hs
      obtain ⟨c, body, inside, other, k, hc, hcond, hrel, hbody, hne', hother, hk⟩ :=
        h.else_owner (Nat.zero_le e) (by omega) hs
      have hlt := hother.spans.le.2 rfl
      have hkl := hother.le_last rfl hlast (by omega) hk
      obtain ⟨es, hes⟩ := ih k (by omega) hkl
      exact ⟨k :: es, .more hs hother.spans hes⟩
    · exact ⟨[], .done hs he⟩

/-- No statement that starts where the body of a condition does and derives reaches further than the body. -/
theorem Placed.le_of_spans (h : Placed shape last link .many layout none none 0 (last + 1)) (hlast : shape last = .plain)
    {body : Layout} {i e k : Nat} (hb : Laid shape last .one true body i k) (hk : k ≤ last + 1)
    (hs : Spans shape .one true i e) (he : e ≤ last) : e ≤ k := by
  obtain ⟨es, hes⟩ := h.exists_tails hlast _ e (Nat.le_refl _) he
  obtain ⟨layout', m, ms, hsuf, hread⟩ :=
    read_of_spans (Nat.lt_succ_self last) _ i true e es _ (Nat.le_refl _) (Nat.le_refl _) hs hes
  have hread' := (hb.read hk (3 * (last + 1 - i))).1 rfl (Nat.le_refl _)
  rw [hread] at hread'
  have hrows := (Prod.mk.inj (Except.ok.inj hread')).2
  have hem := (hes.suffix hsuf).2 e rfl
  have hlen := congrArg List.length hrows
  simp only [rowsFrom, length_stretch] at hlen
  have hm := (hes.suffix hsuf).1.le_last m List.mem_cons_self
  omega

/-- No condition between an else and the one it belongs to has a body that derives and ends right before the else. -/
theorem Placed.nearest (h : Placed shape last link .many layout none none 0 (last + 1)) (hlast : shape last = .plain)
    {body : Layout} {inside parent : Option Nat} {c e j : Nat} (hb : Placed shape last link .one body inside parent (c + 1) e)
    (he : shape e = .otherwise) (hel : e ≤ last) (hcj : c < j) (hje : j < e) (hj : shape j = .cond) :
    ¬Spans shape .one true (j + 1) e := by
  intro hs
  obtain ⟨body', inside', k, hbody, -, hk, hke⟩ := hb.cond_body hcj hje hj
  have hle := h.le_of_spans hlast hbody.laid (by omega) hs hel
  obtain rfl : k = e := by omega
  exact absurd (hke he) (Nat.lt_irrefl k)

end

end Layout

namespace Program

open Layout

/-- The shapes of the lines before the one that closes a program. -/
theorem shapes_eq_stretch {script : Script} {lines : List Line} {close : Line}
    (hlines : script.lines = (lines ++ [close]).toArray) :
    lines.map (fun line => shape script.commands line.action) = stretch script.shapeAt 0 lines.length := by
  apply List.ext_getElem
  · simp [length_stretch]
  · intro i h1 h2
    have hi : i < lines.length := by simpa using h1
    have hsize : i < script.lines.size := by simp [hlines]; omega
    simp only [List.getElem_map, stretch, List.getElem_range', Nat.zero_add, Nat.one_mul, Script.shapeAt,
      Script.line_of_lt hsize]
    simp [hlines, List.getElem_append_left hi]

/-- The part of a stretch between two lines. -/
theorem drop_take_stretch {α : Type} (f : Nat → α) {n i e : Nat} (he : e ≤ n) (hi : i ≤ e) :
    ((stretch f 0 n).take e).drop i = stretch f i e := by
  rw [stretch_append f (Nat.zero_le e) he, List.take_left' (by simp [length_stretch]), stretch_append f (Nat.zero_le i) hi,
    List.drop_left' (by simp [length_stretch])]

/-- Lines derive a statement exactly when they span one. -/
theorem derives_stretch_iff {shape : Nat → Shape} {p : Part} {inLoop : Bool} {i m : Nat} (h : i ≤ m) :
    Derives p inLoop (stretch shape i m) ↔ Spans shape p inLoop i m := by
  refine ⟨fun hd => ?_, Spans.derives⟩
  have hm : i + (stretch shape i m).length = m := by
    rw [length_stretch]
    omega
  exact hm ▸ hd.spans i (by rw [hm])

/-- The lines before an `Exit` are arranged exactly when they derive from the grammar. Each else then belongs to one
condition: the nearest one before it whose body ends right before it. -/
theorem arrange_accepts_grammar (script : Script) (lines : List Line) (close : Line)
    (hlines : script.lines = (lines ++ [close]).toArray) (hclose : close.action = .exit) :
    let shapes := lines.map fun line => shape script.commands line.action
    ((∃ arranged, arrange script = .ok arranged) ↔ Derives .many false shapes) ∧
    ∀ arranged, arrange script = .ok arranged → ∀ e : Nat, (arranged.line e).action = .otherwise →
      ∃ i : Nat, i < e ∧ arranged.isIfFamily i = true ∧ BodyEnds shapes i e ∧
        (∀ j : Nat, arranged.isIfFamily j = true → (arranged.elseOf? j = some e ↔ j = i)) ∧
        ∀ j : Nat, i < j → j < e → arranged.isIfFamily j = true → ¬BodyEnds shapes j e := by
  intro shapes
  have hsize : script.lines.size = lines.length + 1 := by simp [hlines]
  have hlast : script.shapeAt lines.length = .plain := by
    rw [Script.shapeAt, Script.line_of_lt (by omega)]
    simp [hlines, hclose, shape, Script.isConditional]
  have hshapes : shapes = stretch script.shapeAt 0 lines.length := shapes_eq_stretch hlines
  refine ⟨?_, fun arranged harr e he => ?_⟩
  · rw [arrange_isOk_iff hsize hlast, hshapes, derives_stretch_iff (Nat.zero_le _)]
  obtain ⟨⟨layout, hlaid⟩, hshape⟩ := laidOut_of_arrange hsize hlast harr
  have hplaced : Placed arranged.shapeAt lines.length arranged.linkAt .many layout none none 0 (lines.length + 1) :=
    ⟨hlaid.laid.mono, hlaid.linked⟩
  have hcond : ∀ j : Nat, arranged.isIfFamily j = true ↔ arranged.shapeAt j = .cond :=
    fun j => (shape_eq_cond_iff _ _).symm
  have hother : arranged.shapeAt e = .otherwise := (shape_eq_otherwise_iff _ _).2 he
  have hel : e < lines.length := by
    have hle : e < lines.length + 1 := by
      refine Nat.lt_of_not_le fun h => ?_
      rw [Script.shapeAt_of_le (by rw [hlaid.size_eq]; exact h)] at hother
      cases hother
    have hne : e ≠ lines.length := fun h => by simp [h, hlaid.last_plain] at hother
    omega
  have hends : ∀ j, j < e → (BodyEnds shapes j e ↔ Spans arranged.shapeAt .one true (j + 1) e) := by
    intro j hj
    rw [BodyEnds, hshapes, drop_take_stretch _ (Nat.le_of_lt hel) hj, derives_stretch_iff hj, hshape]
  obtain ⟨c, body, inside, other, k, -, hc, hrel, hbody, -, -, -⟩ :=
    hplaced.else_owner (Nat.zero_le e) (by omega) hother
  have hce := hbody.laid.spans.le.2 rfl
  refine ⟨c, by omega, (hcond c).2 hc, (hends c (by omega)).2 hbody.laid.spans, fun j hj => ?_, fun j hcj hje hj => ?_⟩
  · -- a condition related to the else has a body that ends there, so no other can be nearer or further
    have hj' := (hcond j).1 hj
    have hpair : arranged.elseOf? j = some e ↔ (arranged.linkAt j).related = some e := by
      simp only [Script.elseOf?, Script.linkAt, Option.filter_eq_some_iff, beq_iff_eq, he, and_true]
    rw [hpair]
    refine ⟨fun hre => ?_, fun h => h ▸ hrel⟩
    have hjl : j < lines.length + 1 := by
      refine Nat.lt_of_not_le fun h => ?_
      rw [Script.shapeAt_of_le (by rw [hlaid.size_eq]; exact h)] at hj'
      cases hj'
    obtain ⟨body', inside', k', hbody', hrel', -, -⟩ := hplaced.cond_body (Nat.zero_le j) hjl hj'
    obtain rfl : k' = e := Option.some.inj (hrel'.symm.trans hre)
    have hje := hbody'.laid.spans.le.2 rfl
    rcases Nat.lt_trichotomy j c with hlt | rfl | hgt
    · exact absurd hbody.laid.spans
        (hplaced.nearest hlaid.last_plain hbody' hother (Nat.le_of_lt hel) hlt (by omega) hc)
    · rfl
    · exact absurd hbody'.laid.spans
        (hplaced.nearest hlaid.last_plain hbody hother (Nat.le_of_lt hel) hgt (by omega) hj')
  · rw [hends j hje]
    exact hplaced.nearest hlaid.last_plain hbody hother (Nat.le_of_lt hel) hcj hje ((hcond j).1 hj)

/-- Two conditions, one in the other, with an else that both could have. -/
def danglingElse : List Line :=
  [.cond .expr, .cond .expr, .assign .expr, .otherwise, .assign .expr].map fun action =>
    { action, file := 0, lineNo := 1, args := [] }

/-- The inner of two conditions has the else that both could have. -/
theorem arrange_danglingElse :
    let script : Script := { lines := (danglingElse ++ [default]).toArray }
    Derives .many false [.cond, .cond, .plain, .otherwise, .plain] ∧
    ∃ arranged, arrange script = .ok arranged ∧ arranged.elseOf? 1 = some 3 ∧
      ∃ i : Nat, i < 3 ∧ arranged.elseOf? i = some 3 ∧ ∀ j : Nat, i < j → j < 3 → arranged.isIfFamily j = true →
        ¬BodyEnds [.cond, .cond, .plain, .otherwise, .plain] j 3 := by
  intro script
  have h := arrange_accepts_grammar script danglingElse default rfl rfl
  refine ⟨h.1.1 ⟨_, rfl⟩, _, rfl, rfl, ?_⟩
  obtain ⟨i, hi, hc, -, hpair, hnear⟩ := h.2 _ rfl 3 rfl
  exact ⟨i, hi, (hpair i hc).2 rfl, hnear⟩

end Program

end LineScript
