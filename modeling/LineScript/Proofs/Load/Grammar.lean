import LineScript.Load.Program

/-!
# The grammar of programs

What the layout accepts, as a grammar over the shapes of lines: a statement is a plain line, a block, a condition with the
statement after it and possibly an else with another, or a loop with the statement after it. `Derives` states the grammar on
lists; `Spans` is the same grammar on places in a program, where no list has to be cut. The grammar is ambiguous, since an
else may belong to several conditions. `Laid` holds the one reading where a condition takes the else right after its body.
-/

namespace LineScript

namespace Layout

/-- What lines may be derived as: one statement, or statements one after the other. -/
inductive Part where
  | one
  | many
  deriving DecidableEq

/-- The grammar of programs. A line that only stands inside a loop is a statement where `inLoop` says so. -/
inductive Derives : Part → (inLoop : Bool) → List Shape → Prop where
  | plain {inLoop : Bool} : Derives .one inLoop [.plain]
  | inLoop (action : String) : Derives .one true [.inLoop action]
  | block {inLoop : Bool} {body : List Shape} :
      Derives .many inLoop body → Derives .one inLoop (.opening :: body ++ [.closing])
  | branch {inLoop : Bool} {body : List Shape} : Derives .one inLoop body → Derives .one inLoop (.cond :: body)
  | branchElse {inLoop : Bool} {body other : List Shape} :
      Derives .one inLoop body → Derives .one inLoop other → Derives .one inLoop (.cond :: body ++ .otherwise :: other)
  | loop {inLoop : Bool} {body : List Shape} : Derives .one true body → Derives .one inLoop (.loop :: body)
  | nil {inLoop : Bool} : Derives .many inLoop []
  | cons {inLoop : Bool} {first rest : List Shape} :
      Derives .one inLoop first → Derives .many inLoop rest → Derives .many inLoop (first ++ rest)

/-- The grammar on places: the lines from `i` up to but not including `m` derive. -/
inductive Spans (shape : Nat → Shape) : Part → (inLoop : Bool) → (i m : Nat) → Prop where
  | plain {inLoop : Bool} {i : Nat} : shape i = .plain → Spans shape .one inLoop i (i + 1)
  | inLoop {i : Nat} {action : String} : shape i = .inLoop action → Spans shape .one true i (i + 1)
  | block {inLoop : Bool} {i j : Nat} : shape i = .opening → Spans shape .many inLoop (i + 1) j → shape j = .closing →
      Spans shape .one inLoop i (j + 1)
  | branch {inLoop : Bool} {i m : Nat} : shape i = .cond → Spans shape .one inLoop (i + 1) m → Spans shape .one inLoop i m
  | branchElse {inLoop : Bool} {i j m : Nat} : shape i = .cond → Spans shape .one inLoop (i + 1) j →
      shape j = .otherwise → Spans shape .one inLoop (j + 1) m → Spans shape .one inLoop i m
  | loop {inLoop : Bool} {i m : Nat} : shape i = .loop → Spans shape .one true (i + 1) m → Spans shape .one inLoop i m
  | nil {inLoop : Bool} {i : Nat} : Spans shape .many inLoop i i
  | cons {inLoop : Bool} {i j m : Nat} : Spans shape .one inLoop i j → Spans shape .many inLoop j m →
      Spans shape .many inLoop i m

/-- The layout of the lines from `i` up to but not including `m`, where each condition has the else right after its body.
The line `last` closes the program and is no body. -/
inductive Laid (shape : Nat → Shape) (last : Nat) : Part → (inLoop : Bool) → Layout → (i m : Nat) → Prop where
  | plain {inLoop : Bool} {i : Nat} : shape i = .plain → Laid shape last .one inLoop (.plain i) i (i + 1)
  | inLoop {i : Nat} {action : String} : shape i = .inLoop action → Laid shape last .one true (.plain i) i (i + 1)
  | block {inLoop : Bool} {body : Layout} {i j : Nat} : shape i = .opening →
      Laid shape last .many inLoop body (i + 1) j → shape j = .closing →
      Laid shape last .one inLoop (.block i j body) i (j + 1)
  | branch {inLoop : Bool} {body : Layout} {i m : Nat} : shape i = .cond → i + 1 ≠ last →
      Laid shape last .one inLoop body (i + 1) m → shape m ≠ .otherwise →
      Laid shape last .one inLoop (.branch i body) i m
  | branchElse {inLoop : Bool} {body other : Layout} {i j m : Nat} : shape i = .cond → i + 1 ≠ last →
      Laid shape last .one inLoop body (i + 1) j → shape j = .otherwise → j + 1 ≠ last →
      Laid shape last .one inLoop other (j + 1) m → Laid shape last .one inLoop (.branchElse i body j other) i m
  | loop {inLoop : Bool} {body : Layout} {i m : Nat} : shape i = .loop → i + 1 ≠ last →
      Laid shape last .one true body (i + 1) m → Laid shape last .one inLoop (.loop i body) i m
  | nil {inLoop : Bool} {i : Nat} : Laid shape last .many inLoop .nil i i
  | seq {inLoop : Bool} {first rest : Layout} {i j m : Nat} : Laid shape last .one inLoop first i j →
      Laid shape last .many inLoop rest j m → Laid shape last .many inLoop (.seq first rest) i m

/-! ## The two forms of the grammar -/

/-- What is said of the lines from `i` up to but not including `m`, in order. -/
def stretch {α : Type} (f : Nat → α) (i m : Nat) : List α :=
  (List.range' i (m - i)).map f

section

variable {α : Type} (f : Nat → α) {i j m : Nat}

/-- A stretch begins with what is said of its first line. -/
theorem stretch_cons (h : i < m) : stretch f i m = f i :: stretch f (i + 1) m := by
  obtain ⟨n, rfl⟩ : ∃ n, m = i + (n + 1) := ⟨m - i - 1, by omega⟩
  have h1 : i + (n + 1) - i = n + 1 := by omega
  have h2 : i + (n + 1) - (i + 1) = n := by omega
  simp only [stretch, h1, h2, List.range'_succ, List.map_cons]

theorem stretch_append (hij : i ≤ j) (hjm : j ≤ m) : stretch f i m = stretch f i j ++ stretch f j m := by
  have h : m - i = (j - i) + (m - j) := by omega
  have hj : i + 1 * (j - i) = j := by omega
  rw [stretch, h, ← List.range'_append, hj, List.map_append, stretch, stretch]

theorem stretch_of_le (h : m ≤ i) : stretch f i m = [] := by
  simp [stretch, Nat.sub_eq_zero_of_le h]

theorem stretch_singleton (i : Nat) : stretch f i (i + 1) = [f i] := by
  rw [stretch_cons f (Nat.lt_succ_self i), stretch_of_le f (Nat.le_refl _)]

/-- A stretch is as long as there are lines in it. -/
theorem length_stretch (i m : Nat) : (stretch f i m).length = m - i := by
  simp [stretch]

end

/-- A part has at least as many lines as the grammar asks for. -/
theorem Spans.le {shape : Nat → Shape} {p : Part} {inLoop : Bool} {i m : Nat} (h : Spans shape p inLoop i m) :
    i ≤ m ∧ (p = .one → i < m) := by
  induction h with
  | plain _ => omega
  | inLoop _ => omega
  | block _ _ _ ih => omega
  | branch _ _ ih => have := ih.2 rfl; omega
  | branchElse _ _ _ _ ih1 ih2 => have := ih1.2 rfl; have := ih2.2 rfl; omega
  | loop _ _ ih => have := ih.2 rfl; omega
  | nil => exact ⟨Nat.le_refl _, fun h => by cases h⟩
  | cons _ _ ih1 ih2 => exact ⟨Nat.le_trans ih1.1 ih2.1, fun h => by cases h⟩

/-- Lines that span a part derive it. -/
theorem Spans.derives {shape : Nat → Shape} {p : Part} {inLoop : Bool} {i m : Nat} (h : Spans shape p inLoop i m) :
    Derives p inLoop (stretch shape i m) := by
  induction h with
  | @plain _ i hs =>
    rw [stretch_singleton, hs]
    exact .plain
  | @inLoop i action hs =>
    rw [stretch_singleton, hs]
    exact .inLoop action
  | @block _ i j ho hb hc ih =>
    have hle := hb.le.1
    rw [stretch_cons shape (by omega), stretch_append shape hle (Nat.le_succ j), stretch_singleton, ho, hc]
    exact .block ih
  | @branch _ i m hs hb ih =>
    have hlt := hb.le.2 rfl
    rw [stretch_cons shape (by omega), hs]
    exact .branch ih
  | @branchElse _ i j m hs hb he ho ih1 ih2 =>
    have h1 := hb.le.2 rfl
    have h2 := ho.le.2 rfl
    rw [stretch_cons shape (by omega), stretch_append shape (Nat.le_of_lt h1) (by omega),
      stretch_cons shape (i := j) (by omega), hs, he]
    exact .branchElse ih1 ih2
  | @loop _ i m hs hb ih =>
    have hlt := hb.le.2 rfl
    rw [stretch_cons shape (by omega), hs]
    exact .loop ih
  | nil =>
    rw [stretch_of_le shape (Nat.le_refl _)]
    exact .nil
  | cons h1 h2 ih1 ih2 =>
    rw [stretch_append shape h1.le.1 h2.le.1]
    exact .cons ih1 ih2

/-- Lines whose shapes derive a part span it, wherever they stand. -/
theorem Derives.spans {shape : Nat → Shape} {p : Part} {inLoop : Bool} {l : List Shape} (h : Derives p inLoop l) :
    ∀ i, stretch shape i (i + l.length) = l → Spans shape p inLoop i (i + l.length) := by
  induction h with
  | plain =>
    intro i hi
    rw [List.length_singleton, stretch_singleton] at hi
    exact .plain (List.cons.inj hi).1
  | inLoop action =>
    intro i hi
    rw [List.length_singleton, stretch_singleton] at hi
    exact .inLoop (List.cons.inj hi).1
  | @block inLoop body hb ih =>
    intro i hi
    have hlen : i + (Shape.opening :: body ++ [Shape.closing]).length = (i + 1 + body.length) + 1 := by
      simp only [List.length_append, List.length_cons, List.length_nil]
      omega
    rw [hlen, stretch_cons shape (by omega), stretch_append shape (Nat.le_add_right _ _) (Nat.le_succ _),
      stretch_singleton, List.cons_append] at hi
    obtain ⟨ho, hi⟩ := List.cons.inj hi
    have hsplit := List.append_inj hi (by simp [stretch])
    rw [hlen]
    exact .block ho (ih _ hsplit.1) (List.cons.inj hsplit.2).1
  | @branch inLoop body hb ih =>
    intro i hi
    have hlen : i + (Shape.cond :: body).length = i + 1 + body.length := by
      simp only [List.length_cons]
      omega
    rw [hlen, stretch_cons shape (by omega)] at hi
    obtain ⟨hs, hi⟩ := List.cons.inj hi
    rw [hlen]
    exact .branch hs (ih _ hi)
  | @branchElse inLoop body other hb ho ih1 ih2 =>
    intro i hi
    have hlen : i + (Shape.cond :: body ++ Shape.otherwise :: other).length = (i + 1 + body.length) + 1 + other.length := by
      simp only [List.length_append, List.length_cons]
      omega
    rw [hlen, stretch_cons shape (by omega), stretch_append shape (j := i + 1 + body.length) (by omega) (by omega),
      stretch_cons shape (i := i + 1 + body.length) (by omega), List.cons_append] at hi
    obtain ⟨hs, hi⟩ := List.cons.inj hi
    have hsplit := List.append_inj hi (by simp [stretch])
    obtain ⟨he, hrest⟩ := List.cons.inj hsplit.2
    rw [hlen]
    exact .branchElse hs (ih1 _ hsplit.1) he (ih2 _ hrest)
  | @loop inLoop body hb ih =>
    intro i hi
    have hlen : i + (Shape.loop :: body).length = i + 1 + body.length := by
      simp only [List.length_cons]
      omega
    rw [hlen, stretch_cons shape (by omega)] at hi
    obtain ⟨hs, hi⟩ := List.cons.inj hi
    rw [hlen]
    exact .loop hs (ih _ hi)
  | nil =>
    intro i _
    exact .nil
  | @cons inLoop first rest h1 h2 ih1 ih2 =>
    intro i hi
    have hlen : i + (first ++ rest).length = i + first.length + rest.length := by
      rw [List.length_append]
      omega
    rw [hlen, stretch_append shape (Nat.le_add_right _ _) (Nat.le_add_right _ _)] at hi
    have hsplit := List.append_inj hi (by simp [stretch])
    rw [hlen]
    exact .cons (ih1 _ hsplit.1) (ih2 _ hsplit.2)

/-- What is a statement outside loops is one inside. -/
theorem Spans.mono {shape : Nat → Shape} {p : Part} {inLoop : Bool} {i m : Nat} (h : Spans shape p inLoop i m) :
    Spans shape p true i m := by
  induction h with
  | plain hs => exact .plain hs
  | inLoop hs => exact .inLoop hs
  | block ho _ hc ih => exact .block ho ih hc
  | branch hs _ ih => exact .branch hs ih
  | branchElse hs _ he _ ih1 ih2 => exact .branchElse hs ih1 he ih2
  | loop hs _ ih => exact .loop hs ih
  | nil => exact .nil
  | cons _ _ ih1 ih2 => exact .cons ih1 ih2

/-- What is laid out derives. -/
theorem Laid.spans {shape : Nat → Shape} {last : Nat} {p : Part} {inLoop : Bool} {layout : Layout} {i m : Nat}
    (h : Laid shape last p inLoop layout i m) : Spans shape p inLoop i m := by
  induction h with
  | plain hs => exact .plain hs
  | inLoop hs => exact .inLoop hs
  | block ho _ hc ih => exact .block ho ih hc
  | branch hs _ _ _ ih => exact .branch hs ih
  | branchElse hs _ _ he _ _ ih1 ih2 => exact .branchElse hs ih1 he ih2
  | loop hs _ _ ih => exact .loop hs ih
  | nil => exact .nil
  | seq _ _ ih1 ih2 => exact .cons ih1 ih2

end Layout

end LineScript
