import LineScript.Proofs.Load.Grammar

/-!
# Reading a layout

The layout read from rows is the one of `Laid` (`laid_of_read`), so only what the grammar derives is accepted. The other way
round, what the grammar derives is read (`read_of_spans`), though perhaps by another derivation: an else that the given
derivation leaves to an outer condition is taken by the innermost one that can have it. What may follow a statement is
therefore kept as a chain of elses, `Tails`, of which reading the statement takes some.
-/

namespace LineScript

namespace Layout

/-- The rows from line `i` on of a program with `stop` lines. -/
def rowsFrom (shape : Nat → Shape) (stop i : Nat) : List Row :=
  stretch (fun k => ⟨k, shape k⟩) i stop

theorem rowsFrom_cons (shape : Nat → Shape) {stop i : Nat} (h : i < stop) :
    rowsFrom shape stop i = ⟨i, shape i⟩ :: rowsFrom shape stop (i + 1) :=
  stretch_cons _ h

theorem rowsFrom_of_le (shape : Nat → Shape) {stop i : Nat} (h : stop ≤ i) : rowsFrom shape stop i = [] :=
  stretch_of_le _ h

/-- Rows that begin with a row begin at its line. -/
theorem eq_of_rowsFrom_eq_cons {shape : Nat → Shape} {stop i : Nat} {row : Row} {rest : List Row}
    (h : rowsFrom shape stop i = row :: rest) : i < stop ∧ row = ⟨i, shape i⟩ ∧ rest = rowsFrom shape stop (i + 1) := by
  by_cases hi : i < stop
  · rw [rowsFrom_cons shape hi] at h
    obtain ⟨h1, h2⟩ := List.cons.inj h
    exact ⟨hi, h1.symm, h2.symm⟩
  · rw [rowsFrom_of_le shape (Nat.le_of_not_lt hi)] at h
    cases h

/-- Statements are read up to a closing brace or the end. -/
theorem readSequence_stops {last : Nat} {inLoop : Bool} {layout : Layout} {row : Row} {rest : List Row} :
    ∀ {fuel : Nat} {rows : List Row}, readSequence last fuel inLoop rows = .ok (layout, row :: rest) →
      row.shape = .closing := by
  intro fuel
  induction fuel generalizing layout with
  | zero => intro rows h; simp [readSequence] at h
  | succ fuel ih =>
    intro rows h
    cases rows with
    | nil => simp [readSequence] at h
    | cons first more =>
      simp only [readSequence] at h
      split at h
      · rename_i hc
        obtain ⟨-, hr⟩ := Prod.mk.inj (Except.ok.inj h)
        rw [← (List.cons.inj hr).1]
        exact eq_of_beq hc
      · split at h
        · cases h
        · split at h
          · cases h
          · rename_i hq
            obtain ⟨-, rfl⟩ := Prod.mk.inj (Except.ok.inj h)
            exact ih hq

/-! ## What is read is laid out -/

section

variable {shape : Nat → Shape} {last stop : Nat}

/-- Reading from line `i` gave a layout of the lines up to a line `m`, and the rows from `m` on. -/
def ReadsTo (shape : Nat → Shape) (last stop : Nat) (p : Part) (inLoop : Bool) (i : Nat) (layout : Layout)
    (rest : List Row) : Prop :=
  ∃ m, m ≤ stop ∧ rest = rowsFrom shape stop m ∧ Laid shape last p inLoop layout i m

/-- The rest of reading a condition whose body ends at `m`. -/
theorem readsTo_cond (hend : ∀ j, stop ≤ j → shape j ≠ .otherwise) {fuel : Nat} {inLoop : Bool} {i : Nat}
    {layout : Layout} {rest : List Row}
    (ihb : ∀ id owner inLoop i layout rest, readBody last fuel id owner inLoop (rowsFrom shape stop i) = .ok (layout, rest) →
      i ≠ last ∧ ReadsTo shape last stop .one inLoop i layout rest)
    (hi : i < stop) (hs : shape i = .cond)
    (h : readStatement last (fuel + 1) inLoop (rowsFrom shape stop i) = .ok (layout, rest)) :
    ReadsTo shape last stop .one inLoop i layout rest := by
  rw [rowsFrom_cons shape hi] at h
  simp only [readStatement, hs] at h
  split at h
  · cases h
  · rename_i body hb
    obtain ⟨hne, m, hm, hrest, hlaid⟩ := ihb _ _ _ _ _ _ hb
    obtain ⟨rfl, rfl⟩ := Prod.mk.inj (Except.ok.inj h)
    have hstop : stop ≤ m := by
      refine Nat.le_of_not_lt fun hlt => ?_
      rw [rowsFrom_cons shape hlt] at hrest
      cases hrest
    exact ⟨m, hm, hrest, .branch hs hne hlaid (hend m hstop)⟩
  · rename_i body other more hb
    obtain ⟨hne, m, hm, hrest, hlaid⟩ := ihb _ _ _ _ _ _ hb
    obtain ⟨hmlt, rfl, rfl⟩ := eq_of_rowsFrom_eq_cons hrest.symm
    by_cases he : shape m = .otherwise
    · simp only [he, beq_self_eq_true, if_true] at h
      split at h
      · cases h
      · rename_i otherBody more ho
        obtain ⟨hne', m', hm', hrest', hlaid'⟩ := ihb _ _ _ _ _ _ ho
        obtain ⟨rfl, rfl⟩ := Prod.mk.inj (Except.ok.inj h)
        exact ⟨m', hm', hrest', .branchElse hs hne hlaid he hne' hlaid'⟩
    · simp only [beq_eq_false_iff_ne.2 he, Bool.false_eq_true, if_false] at h
      obtain ⟨rfl, rfl⟩ := Prod.mk.inj (Except.ok.inj h)
      exact ⟨m, hm, (rowsFrom_cons shape hmlt).symm, .branch hs hne hlaid he⟩

/-- What is read is laid out: one statement, a body, and statements one after the other. -/
theorem laid_of_read (hend : ∀ j, stop ≤ j → shape j ≠ .otherwise) : ∀ fuel,
    (∀ inLoop i layout rest, i < stop → readStatement last fuel inLoop (rowsFrom shape stop i) = .ok (layout, rest) →
      ReadsTo shape last stop .one inLoop i layout rest) ∧
    (∀ id owner inLoop i layout rest, readBody last fuel id owner inLoop (rowsFrom shape stop i) = .ok (layout, rest) →
      i ≠ last ∧ ReadsTo shape last stop .one inLoop i layout rest) ∧
    (∀ inLoop i layout rest, i ≤ stop → readSequence last fuel inLoop (rowsFrom shape stop i) = .ok (layout, rest) →
      ReadsTo shape last stop .many inLoop i layout rest) := by
  intro fuel
  induction fuel with
  | zero =>
    refine ⟨fun inLoop i layout rest _ h => ?_, fun id owner inLoop i layout rest h => ?_, fun inLoop i layout rest _ h => ?_⟩
    · simp [readStatement] at h
    · simp [readBody] at h
    · simp [readSequence] at h
  | succ fuel ih =>
    obtain ⟨ihs, ihb, ihq⟩ := ih
    refine ⟨fun inLoop i layout rest hi h => ?_, fun id owner inLoop i layout rest h => ?_, fun inLoop i layout rest hi h => ?_⟩
    · -- one statement, by the shape of its first line
      cases hs : shape i with
      | cond => exact readsTo_cond hend ihb hi hs h
      | plain =>
        rw [rowsFrom_cons shape hi] at h
        simp only [readStatement, hs] at h
        obtain ⟨rfl, rfl⟩ := Prod.mk.inj (Except.ok.inj h)
        exact ⟨i + 1, hi, rfl, .plain hs⟩
      | inLoop action =>
        rw [rowsFrom_cons shape hi] at h
        simp only [readStatement, hs] at h
        cases inLoop with
        | false => simp at h
        | true =>
          simp only [if_true] at h
          obtain ⟨rfl, rfl⟩ := Prod.mk.inj (Except.ok.inj h)
          exact ⟨i + 1, hi, rfl, .inLoop hs⟩
      | closing =>
        rw [rowsFrom_cons shape hi] at h
        simp [readStatement, hs] at h
      | otherwise =>
        rw [rowsFrom_cons shape hi] at h
        simp [readStatement, hs] at h
      | opening =>
        rw [rowsFrom_cons shape hi] at h
        simp only [readStatement, hs] at h
        split at h
        · cases h
        · rename_i body close more hq
          obtain ⟨m, hm, hrest, hlaid⟩ := ihq _ _ _ _ hi hq
          obtain ⟨hmlt, rfl, rfl⟩ := eq_of_rowsFrom_eq_cons hrest.symm
          obtain ⟨rfl, rfl⟩ := Prod.mk.inj (Except.ok.inj h)
          refine ⟨m + 1, hmlt, rfl, .block hs hlaid ?_⟩
          exact readSequence_stops hq
        · cases h
      | loop =>
        rw [rowsFrom_cons shape hi] at h
        simp only [readStatement, hs] at h
        split at h
        · cases h
        · rename_i body more hb
          obtain ⟨hne, m, hm, hrest, hlaid⟩ := ihb _ _ _ _ _ _ hb
          obtain ⟨rfl, rfl⟩ := Prod.mk.inj (Except.ok.inj h)
          exact ⟨m, hm, hrest, .loop hs hne hlaid⟩
    · -- a body is a statement that is not the last line
      by_cases hi : i < stop
      · rw [rowsFrom_cons shape hi] at h
        simp only [readBody] at h
        split at h
        · cases h
        · rename_i hc
          rw [← rowsFrom_cons shape hi] at h
          simp only [Bool.or_eq_true, beq_iff_eq, not_or] at hc
          exact ⟨hc.1.1, ihs _ _ _ _ hi h⟩
      · rw [rowsFrom_of_le shape (Nat.le_of_not_lt hi)] at h
        cases h
    · by_cases hlt : i < stop
      · rw [rowsFrom_cons shape hlt] at h
        simp only [readSequence] at h
        split at h
        · obtain ⟨rfl, rfl⟩ := Prod.mk.inj (Except.ok.inj h)
          exact ⟨i, hi, (rowsFrom_cons shape hlt).symm, .nil⟩
        · rw [← rowsFrom_cons shape hlt] at h
          split at h
          · cases h
          · rename_i first more hf
            obtain ⟨j, hj, rfl, hlaid⟩ := ihs _ _ _ _ hlt hf
            split at h
            · cases h
            · rename_i rest' more' hr
              obtain ⟨m, hm, rfl, hlaid'⟩ := ihq _ _ _ _ hj hr
              obtain ⟨rfl, rfl⟩ := Prod.mk.inj (Except.ok.inj h)
              exact ⟨m, hm, rfl, .seq hlaid hlaid'⟩
      · rw [rowsFrom_of_le shape (Nat.le_of_not_lt hlt)] at h
        simp only [readSequence] at h
        obtain ⟨rfl, rfl⟩ := Prod.mk.inj (Except.ok.inj h)
        exact ⟨i, hi, (rowsFrom_of_le shape (Nat.le_of_not_lt hlt)).symm, .nil⟩

/-- A statement begins neither with an else nor with a closing brace. -/
theorem Spans.head_ne {inLoop : Bool} {i m : Nat} (h : Spans shape .one inLoop i m) :
    shape i ≠ .otherwise ∧ shape i ≠ .closing := by
  cases h with
  | plain hs => simp [hs]
  | inLoop hs => simp [hs]
  | block hs _ _ => simp [hs]
  | branch hs _ => simp [hs]
  | branchElse hs _ _ _ => simp [hs]
  | loop hs _ => simp [hs]

/-! ## What is laid out is read -/

/-- A body that is read as a statement is read as a body. -/
theorem readBody_eq {fuel : Nat} {inLoop : Bool} {i e : Nat} (id : Nat) (owner : Owner) (hs : Spans shape .one inLoop i e)
    (hi : i < stop) (hne : i ≠ last) :
    readBody last (fuel + 1) id owner inLoop (rowsFrom shape stop i) =
      readStatement last fuel inLoop (rowsFrom shape stop i) := by
  rw [rowsFrom_cons shape hi]
  simp only [readBody]
  rw [if_neg (by simp [hne, hs.head_ne])]

/-- What is laid out is what is read: one statement, or statements up to a closing brace or the end. -/
theorem Laid.read {p : Part} {inLoop : Bool} {layout : Layout} {i m : Nat} (h : Laid shape last p inLoop layout i m)
    (hm : m ≤ stop) : ∀ fuel,
    (p = .one → 3 * (stop - i) ≤ fuel →
      readStatement last fuel inLoop (rowsFrom shape stop i) = .ok (layout, rowsFrom shape stop m)) ∧
    (p = .many → 3 * (stop - i) + 1 ≤ fuel → (m < stop → shape m = .closing) →
      readSequence last fuel inLoop (rowsFrom shape stop i) = .ok (layout, rowsFrom shape stop m)) := by
  induction h with
  | plain hs =>
    refine fun fuel => ⟨fun _ hf => ?_, fun hp => by cases hp⟩
    obtain ⟨fuel, rfl⟩ : ∃ f, fuel = f + 1 := ⟨fuel - 1, by omega⟩
    rw [rowsFrom_cons shape (by omega)]
    simp only [readStatement, hs]
  | inLoop hs =>
    refine fun fuel => ⟨fun _ hf => ?_, fun hp => by cases hp⟩
    obtain ⟨fuel, rfl⟩ : ∃ f, fuel = f + 1 := ⟨fuel - 1, by omega⟩
    rw [rowsFrom_cons shape (by omega)]
    simp only [readStatement, hs, if_true]
  | @block _ body i j ho hb hc ih =>
    refine fun fuel => ⟨fun _ hf => ?_, fun hp => by cases hp⟩
    have hle := hb.spans.le.1
    obtain ⟨fuel, rfl⟩ : ∃ f, fuel = f + 1 := ⟨fuel - 1, by omega⟩
    have hbody := (ih (by omega) fuel).2 rfl (by omega) fun _ => hc
    rw [rowsFrom_cons shape (show j < stop by omega)] at hbody
    rw [rowsFrom_cons shape (by omega)]
    simp only [readStatement, ho, hbody]
  | @branch _ body i m hs hne hb he ih =>
    refine fun fuel => ⟨fun _ hf => ?_, fun hp => by cases hp⟩
    have hlt := hb.spans.le.2 rfl
    obtain ⟨fuel, rfl⟩ : ∃ f, fuel = f + 2 := ⟨fuel - 2, by omega⟩
    have hbody := (ih hm fuel).1 rfl (by omega)
    rw [← readBody_eq i .cond hb.spans (by omega) hne] at hbody
    rw [rowsFrom_cons shape (show i < stop by omega)]
    simp only [readStatement, hs, hbody]
    rcases Nat.lt_or_eq_of_le hm with hlt | rfl
    · rw [rowsFrom_cons shape hlt]
      simp only
      rw [if_neg (by simpa using he)]
    · rw [rowsFrom_of_le shape (Nat.le_refl _)]
  | @branchElse _ body other i j m hs hne hb he hne' ho ih1 ih2 =>
    refine fun fuel => ⟨fun _ hf => ?_, fun hp => by cases hp⟩
    have h1 := hb.spans.le.2 rfl
    have h2 := ho.spans.le.2 rfl
    obtain ⟨fuel, rfl⟩ : ∃ f, fuel = f + 2 := ⟨fuel - 2, by omega⟩
    have hbody := (ih1 (by omega) fuel).1 rfl (by omega)
    have hother := (ih2 hm fuel).1 rfl (by omega)
    rw [← readBody_eq i .cond hb.spans (by omega) hne, rowsFrom_cons shape (show j < stop by omega)] at hbody
    rw [← readBody_eq j .otherwise ho.spans (by omega) hne'] at hother
    rw [rowsFrom_cons shape (show i < stop by omega)]
    simp only [readStatement, hs, hbody, he, beq_self_eq_true, if_true, hother]
  | @loop _ body i m hs hne hb ih =>
    refine fun fuel => ⟨fun _ hf => ?_, fun hp => by cases hp⟩
    have hlt := hb.spans.le.2 rfl
    obtain ⟨fuel, rfl⟩ : ∃ f, fuel = f + 2 := ⟨fuel - 2, by omega⟩
    have hbody := (ih hm fuel).1 rfl (by omega)
    rw [← readBody_eq i .loop hb.spans (by omega) hne] at hbody
    rw [rowsFrom_cons shape (show i < stop by omega)]
    simp only [readStatement, hs, hbody]
  | @nil _ i =>
    refine fun fuel => ⟨(fun hp => by cases hp), fun _ hf hc => ?_⟩
    obtain ⟨fuel, rfl⟩ : ∃ f, fuel = f + 1 := ⟨fuel - 1, by omega⟩
    rcases Nat.lt_or_eq_of_le hm with hlt | rfl
    · rw [rowsFrom_cons shape hlt]
      simp [readSequence, hc hlt]
    · rw [rowsFrom_of_le shape (Nat.le_refl _)]
      simp [readSequence]
  | @seq _ first rest i j m h1 h2 ih1 ih2 =>
    refine fun fuel => ⟨(fun hp => by cases hp), fun _ hf hc => ?_⟩
    have hij := h1.spans.le.2 rfl
    have hjm := h2.spans.le.1
    obtain ⟨fuel, rfl⟩ : ∃ f, fuel = f + 1 := ⟨fuel - 1, by omega⟩
    have hfirst := (ih1 (by omega) fuel).1 rfl (by omega)
    have hrest := (ih2 hm fuel).2 rfl (by omega) hc
    rw [rowsFrom_cons shape (show i < stop by omega)] at hfirst ⊢
    simp only [readSequence]
    rw [if_neg (by simp [h1.spans.head_ne])]
    simp only [hfirst, hrest]

/-! ## What derives is read -/

/-- What may follow a statement that ends before the first of some lines: elses, each with a statement that ends before the
next of the lines, and then something else no later than the line `last`. -/
inductive Tails (shape : Nat → Shape) (last : Nat) (inLoop : Bool) : List Nat → Prop where
  | done {e : Nat} : shape e ≠ .otherwise → e ≤ last → Tails shape last inLoop [e]
  | more {e e' : Nat} {es : List Nat} : shape e = .otherwise → Spans shape .one inLoop (e + 1) e' →
      Tails shape last inLoop (e' :: es) → Tails shape last inLoop (e :: e' :: es)

/-- Elses that may follow outside loops may follow inside them. -/
theorem Tails.mono {inLoop : Bool} {es : List Nat} (h : Tails shape last inLoop es) : Tails shape last true es := by
  induction h with
  | done hs hl => exact .done hs hl
  | more hs hb _ ih => exact .more hs hb.mono ih

/-- No else that may follow stands beyond the last line. -/
theorem Tails.le_last {inLoop : Bool} {es : List Nat} (h : Tails shape last inLoop es) : ∀ e ∈ es, e ≤ last := by
  induction h with
  | done _ hl => simpa using hl
  | more _ hb _ ih =>
    intro e he
    rcases List.mem_cons.1 he with rfl | he
    · have := hb.le.2 rfl
      have := ih _ List.mem_cons_self
      omega
    · exact ih e he

/-- What follows some of the elses is a chain of elses again, and later. -/
theorem Tails.suffix {inLoop : Bool} {es : List Nat} (h : Tails shape last inLoop es) :
    ∀ {m : Nat} {ms : List Nat}, m :: ms <:+ es → Tails shape last inLoop (m :: ms) ∧ ∀ e ∈ es.head?, e ≤ m := by
  induction h with
  | @done e hs hl =>
    intro m ms hsuf
    obtain ⟨rfl, rfl⟩ : m = e ∧ ms = [] := by
      rcases List.suffix_cons_iff.1 hsuf with h | h
      · exact List.cons.inj h
      · simp at h
    exact ⟨.done hs hl, by simp⟩
  | @more e e' es hs hb ht ih =>
    intro m ms hsuf
    rcases List.suffix_cons_iff.1 hsuf with heq | hsuf
    · obtain ⟨rfl, rfl⟩ := List.cons.inj heq
      exact ⟨.more hs hb ht, by simp⟩
    · obtain ⟨hm, hle⟩ := ih hsuf
      refine ⟨hm, ?_⟩
      have h1 := hb.le.2 rfl
      have h2 : e' ≤ m := hle e' (by simp)
      simp only [List.head?_cons, Option.mem_def, Option.some.injEq, forall_eq']
      omega

/-- Reading the statement from line `i` leaves some of the elses of a chain. -/
def ReadsSome (shape : Nat → Shape) (last stop fuel : Nat) (inLoop : Bool) (i : Nat) (es : List Nat) : Prop :=
  ∃ layout m ms, m :: ms <:+ es ∧
    readStatement last fuel inLoop (rowsFrom shape stop i) = .ok (layout, rowsFrom shape stop m)

/-- A body that derives is read if it is read as a statement. -/
theorem readBody_of_readsSome {fuel : Nat} {inLoop : Bool} {i e : Nat} {es : List Nat} (id : Nat) (owner : Owner)
    (hstop : last < stop) (hs : Spans shape .one inLoop i e) (hle : e ≤ last)
    (h : ReadsSome shape last stop fuel inLoop i es) :
    ∃ layout m ms, m :: ms <:+ es ∧
      readBody last (fuel + 1) id owner inLoop (rowsFrom shape stop i) = .ok (layout, rowsFrom shape stop m) := by
  obtain ⟨layout, m, ms, hsuf, hread⟩ := h
  have hlt := hs.le.2 rfl
  exact ⟨layout, m, ms, hsuf, (readBody_eq id owner hs (by omega) (by omega)).trans hread⟩

/-- A condition whose body derives takes the else right after what is read of the body, if one is left of the chain. -/
theorem readsSome_cond {fuel : Nat} {inLoop : Bool} {i j : Nat} {es : List Nat} (hstop : last < stop)
    (ih : ∀ i', i < i' → ∀ inLoop e es, Spans shape .one inLoop i' e → Tails shape last inLoop (e :: es) →
      ReadsSome shape last stop fuel inLoop i' (e :: es))
    (hs : shape i = .cond) (hb : Spans shape .one inLoop (i + 1) j) (ht : Tails shape last inLoop (j :: es)) :
    ∃ layout m ms, m :: ms <:+ j :: es ∧ (shape j = .otherwise → m :: ms <:+ es) ∧
      readStatement last (fuel + 2) inLoop (rowsFrom shape stop i) = .ok (layout, rowsFrom shape stop m) := by
  have hj : j ≤ last := ht.le_last j List.mem_cons_self
  have hlt := hb.le.2 rfl
  obtain ⟨body, m, ms, hsuf, hbody⟩ := readBody_of_readsSome i .cond hstop hb hj
    (ih (i + 1) (Nat.lt_succ_self i) inLoop j es hb ht)
  obtain ⟨htm, -⟩ := ht.suffix hsuf
  have hm : m ≤ last := htm.le_last m List.mem_cons_self
  have hjm : j ≤ m := (ht.suffix hsuf).2 j rfl
  rw [rowsFrom_cons shape (show i < stop by omega)]
  simp only [readStatement, hs, hbody]
  rw [rowsFrom_cons shape (show m < stop by omega)]
  simp only
  cases htm with
  | done hne _ =>
    refine ⟨.branch i body, m, [], hsuf, fun he => ?_, by rw [if_neg (by simpa using hne), ← rowsFrom_cons shape (by omega)]⟩
    rcases List.suffix_cons_iff.1 hsuf with h | h
    · exact absurd (by rw [(List.cons.inj h).1]; exact he) hne
    · exact h
  | @more _ e' es' he hspan htail =>
    obtain ⟨other, m', ms', hsuf', hother⟩ := readBody_of_readsSome m .otherwise hstop hspan
      (htail.le_last e' List.mem_cons_self) (ih (m + 1) (by omega) inLoop e' es' hspan htail)
    have hes : m' :: ms' <:+ es := by
      rcases List.suffix_cons_iff.1 hsuf with h | h
      · exact (List.cons.inj h).2 ▸ hsuf'
      · exact hsuf'.trans ((List.suffix_cons _ _).trans h)
    refine ⟨.branchElse i body m other, m', ms', hes.trans (List.suffix_cons _ _), fun _ => hes, ?_⟩
    rw [if_pos (by simpa using he)]
    simp only [hother]

/-- Where reading goes on after statements that derive, it goes through them. -/
theorem readSequence_of_spans {inLoop : Bool} {k : Nat} (hstop : last < stop) {p : Part} {i e : Nat}
    (h : Spans shape p inLoop i e) (hp : p = .many) (hle : e ≤ last) (he : shape e ≠ .otherwise)
    (hone : ∀ i', i ≤ i' → ∀ e es fuel, 3 * (stop - i') ≤ fuel → Spans shape .one inLoop i' e →
      Tails shape last inLoop (e :: es) → ReadsSome shape last stop fuel inLoop i' (e :: es))
    (hrest : ∀ fuel, 3 * (stop - e) + 1 ≤ fuel →
      ∃ more, readSequence last fuel inLoop (rowsFrom shape stop e) = .ok (more, rowsFrom shape stop k)) :
    ∀ fuel, 3 * (stop - i) + 1 ≤ fuel →
      ∃ layout, readSequence last fuel inLoop (rowsFrom shape stop i) = .ok (layout, rowsFrom shape stop k) := by
  induction h with
  | nil => exact hrest
  | @cons _ i j e h1 h2 _ ih =>
    have hij := h1.le.2 rfl
    have hje := h2.le.1
    -- no else follows the first statement, so reading it ends where the derivation does
    have hj : shape j ≠ .otherwise := by
      cases h2 with
      | nil => exact he
      | cons h2 _ => exact h2.head_ne.1
    intro fuel hfuel
    obtain ⟨fuel, rfl⟩ : ∃ f, fuel = f + 1 := ⟨fuel - 1, by omega⟩
    obtain ⟨first, m, ms, hsuf, hfirst⟩ := hone i (Nat.le_refl i) j [] fuel (by omega) h1 (.done hj (by omega))
    obtain ⟨rfl, rfl⟩ : m = j ∧ ms = [] := by
      rcases List.suffix_cons_iff.1 hsuf with h | h
      · exact List.cons.inj h
      · simp at h
    obtain ⟨rest, hrest'⟩ := ih rfl hle he (fun i' hi' => hone i' (by omega)) hrest fuel (by omega)
    refine ⟨.seq first rest, ?_⟩
    rw [rowsFrom_cons shape (show i < stop by omega)] at hfirst ⊢
    simp only [readSequence]
    rw [if_neg (by simpa using h1.head_ne.2)]
    simp only [hfirst, hrest']
  | _ => cases hp

/-- A statement that derives is read, with some of the elses after it. -/
theorem read_of_spans (hstop : last < stop) : ∀ n i inLoop e es fuel, stop - i ≤ n → 3 * (stop - i) ≤ fuel →
    Spans shape .one inLoop i e → Tails shape last inLoop (e :: es) →
    ReadsSome shape last stop fuel inLoop i (e :: es) := by
  intro n
  induction n with
  | zero =>
    intro i inLoop e es fuel hn _ h ht
    have := h.le.2 rfl
    have := ht.le_last e List.mem_cons_self
    omega
  | succ n ih =>
    intro i inLoop e es fuel hn hfuel h ht
    have hlt := h.le.2 rfl
    have hle := ht.le_last e List.mem_cons_self
    have hi : i < stop := by omega
    obtain ⟨fuel, rfl⟩ : ∃ f, fuel = f + 2 := ⟨fuel - 2, by omega⟩
    have ih' : ∀ i', i < i' → ∀ inLoop e es, Spans shape .one inLoop i' e → Tails shape last inLoop (e :: es) →
        ReadsSome shape last stop fuel inLoop i' (e :: es) :=
      fun i' hi' inLoop e es => ih i' inLoop e es fuel (by omega) (by omega)
    cases h with
    | plain hs =>
      refine ⟨.plain i, i + 1, es, List.suffix_refl _, ?_⟩
      rw [rowsFrom_cons shape hi]
      simp only [readStatement, hs]
    | inLoop hs =>
      refine ⟨.plain i, i + 1, es, List.suffix_refl _, ?_⟩
      rw [rowsFrom_cons shape hi]
      simp only [readStatement, hs, if_true]
    | @block _ _ j ho hb hc =>
      have hclose : ∀ fuel, 3 * (stop - j) + 1 ≤ fuel →
          ∃ more, readSequence last fuel inLoop (rowsFrom shape stop j) = .ok (more, rowsFrom shape stop j) := by
        intro fuel hf
        obtain ⟨fuel, rfl⟩ : ∃ f, fuel = f + 1 := ⟨fuel - 1, by omega⟩
        refine ⟨.nil, ?_⟩
        rw [rowsFrom_cons shape (show j < stop by omega)]
        simp [readSequence, hc]
      obtain ⟨body, hbody⟩ := readSequence_of_spans hstop hb rfl (by omega) (by simp [hc])
        (fun i' hi' e es fuel hf => ih i' inLoop e es fuel (by omega) hf) hclose (fuel + 1) (by omega)
      refine ⟨.block i j body, j + 1, es, List.suffix_refl _, ?_⟩
      rw [rowsFrom_cons shape (show j < stop by omega)] at hbody
      rw [rowsFrom_cons shape hi]
      simp only [readStatement, ho, hbody]
    | branch hs hb =>
      obtain ⟨layout, m, ms, hsuf, -, hread⟩ := readsSome_cond hstop ih' hs hb ht
      exact ⟨layout, m, ms, hsuf, hread⟩
    | branchElse hs hb he ho =>
      obtain ⟨layout, m, ms, -, hsuf, hread⟩ := readsSome_cond hstop ih' hs hb (.more he ho ht)
      exact ⟨layout, m, ms, hsuf he, hread⟩
    | loop hs hb =>
      obtain ⟨body, m, ms, hsuf, hbody⟩ := readBody_of_readsSome i .loop hstop hb hle
        (ih' (i + 1) (Nat.lt_succ_self i) true e es hb ht.mono)
      refine ⟨.loop i body, m, ms, hsuf, ?_⟩
      rw [rowsFrom_cons shape hi]
      simp only [readStatement, hs, hbody]

end

end Layout

end LineScript
