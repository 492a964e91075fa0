import LineScript.Proofs.Load.Acceptance
import LineScript.Proofs.Load.Enclosing
import LineScript.Proofs.Engine.Outcome
import Mathlib.Logic.Function.Iterate

/-!
# Links of loaded programs

The engine follows the links of lines without looking twice. `Script.WellLinked` says what it relies on: neighbours by number, an
`Exit` at the end, braces that point at each other and nest, bodies with a line after them, an else for one condition only, and
enclosing lines that come before what they enclose. Every program that loads is linked so (`Program.wellLinked_of_load`). Going
up from a line therefore ends, and the search of `Script.isJumpValid` is never cut short.
-/

namespace LineScript

namespace Layout

section

variable {shape : Nat → Shape} {link : Nat → Link} {last : Nat} {p : Part} {inLoop : Bool} {layout : Layout} {i m : Nat}

/-- Line `q` encloses line `c`: it is the owner right before it, or a block that ends at it or later. -/
def Encloses (shape : Nat → Shape) (link : Nat → Link) (q c : Nat) : Prop :=
  q < c ∧ ((q + 1 = c ∧ (shape q = .cond ∨ shape q = .otherwise ∨ shape q = .loop)) ∨
    (shape q = .opening ∧ ∃ e, (link q).related = some e ∧ c ≤ e))

/-- What encloses a line of a part: for its first line what encloses the part, for an else or a line of a sequence the innermost
block around the part, and for every other line a line of the part. -/
inductive EnclosedBy (shape : Nat → Shape) (link : Nat → Link) (p : Part) (inside parent : Option Nat) (i c : Nat) : Prop
  | first (hc : c = i) (h : (link c).parent = parent)
  | inside (hc : shape c = .otherwise ∨ p = .many) (h : (link c).parent = inside)
  | within {q : Nat} (hq : i ≤ q) (h : (link c).parent = some q) (henc : Encloses shape link q c)

namespace EnclosedBy

variable {inside parent : Option Nat} {c o : Nat}

/-- A line of the body of an owner stands in the part that holds the owner. -/
theorem body (h : EnclosedBy shape link .one inside (some o) (o + 1) c) (hio : i ≤ o)
    (ho : shape o = .cond ∨ shape o = .otherwise ∨ shape o = .loop) : EnclosedBy shape link p inside parent i c := by
  cases h with
  | first hc h => exact .within hio h ⟨by omega, .inl ⟨hc.symm, ho⟩⟩
  | inside hc h =>
    rcases hc with hc | hc
    · exact .inside (.inl hc) h
    · cases hc
  | within hq h henc => exact .within (by omega) h henc

end EnclosedBy

/-- Every line of a part is enclosed by what encloses the part, or by a line of the part before it. -/
theorem Laid.enclosedBy (h : Laid shape last p inLoop layout i m) :
    ∀ {inside parent : Option Nat}, layout.LinkedBy link inside parent m → ∀ {c : Nat}, i ≤ c → c < m →
      EnclosedBy shape link p inside parent i c := by
  induction h with
  | plain _ | inLoop _ =>
    intro inside parent hl c h1 h2
    exact .first (by omega) (by rw [show c = _ from Nat.le_antisymm (Nat.le_of_lt_succ h2) h1]; exact congrArg Link.parent hl)
  | @block _ body i j ho hb hc ih =>
    intro inside parent hl c h1 h2
    have hrel : (link i).related = some j := congrArg Link.related hl.1
    rcases Nat.eq_or_lt_of_le h1 with rfl | h1
    · exact .first rfl (congrArg Link.parent hl.1)
    rcases Nat.lt_or_ge c j with hlt | hge
    · cases ih hl.2.1 h1 hlt with
      | first _ h | inside _ h => exact .within (Nat.le_refl i) h ⟨h1, .inr ⟨ho, j, hrel, Nat.le_of_lt hlt⟩⟩
      | within hq h henc => exact .within (by omega) h henc
    · obtain rfl : c = j := by omega
      exact .within (Nat.le_refl i) (congrArg Link.parent hl.2.2) ⟨h1, .inr ⟨ho, c, hrel, Nat.le_refl c⟩⟩
  | @branch _ body i m hs hne hb he ih =>
    intro inside parent hl c h1 h2
    rcases Nat.eq_or_lt_of_le h1 with rfl | h1
    · exact .first rfl (congrArg Link.parent hl.1)
    · exact (ih hl.2 h1 h2).body (Nat.le_refl i) (.inl hs)
  | @branchElse _ body other i j m hs hne hb he hne' ho ih1 ih2 =>
    intro inside parent hl c h1 h2
    have hij := hb.spans.le.2 rfl
    rcases Nat.eq_or_lt_of_le h1 with rfl | h1
    · exact .first rfl (congrArg Link.parent hl.1)
    rcases Nat.lt_trichotomy c j with hlt | rfl | hgt
    · exact (ih1 hl.2.1 h1 hlt).body (Nat.le_refl i) (.inl hs)
    · exact .inside (.inl he) (congrArg Link.parent hl.2.2.1)
    · exact (ih2 hl.2.2.2 hgt h2).body (by omega) (.inr (.inl he))
  | @loop _ body i m hs hne hb ih =>
    intro inside parent hl c h1 h2
    rcases Nat.eq_or_lt_of_le h1 with rfl | h1
    · exact .first rfl (congrArg Link.parent hl.1)
    · exact (ih hl.2 h1 h2).body (Nat.le_refl i) (.inr (.inr hs))
  | nil =>
    intro _ _ _ c h1 h2
    omega
  | @seq _ first rest i j m h1 h2 ih1 ih2 =>
    intro inside parent hl c hci hcm
    rcases Nat.lt_or_ge c j with hlt | hge
    · cases ih1 (h2.getD_first? ▸ hl.1) hci hlt with
      | first _ h | inside _ h => exact .inside (.inr rfl) h
      | within hq h henc => exact .within hq h henc
    · have hij := h1.spans.le.1
      cases ih2 hl.2 hge hcm with
      | first _ h | inside _ h => exact .inside (.inr rfl) h
      | within hq h henc => exact .within (by omega) h henc

/-- A closing brace of a part closes a block of it. -/
theorem Placed.block_of_closing {inside parent : Option Nat} (h : Placed shape last link p layout inside parent i m) {e : Nat}
    (hi : i ≤ e) (hm : e < m) (he : shape e = .closing) :
    ∃ b, b < e ∧ shape b = .opening ∧ (link b).related = some e ∧ (link e).related = some b := by
  obtain ⟨node, inside', parent', j, k, ⟨hlaid, hl⟩, hij, hje, hkm, hst⟩ := Placed.node_at h.laid h.linked hi hm
  cases hst with
  | first => exact absurd he hlaid.spans.head_ne.2
  | closing =>
    cases hlaid with
    | block ho hb _ => exact ⟨j, hb.spans.le.1, ho, congrArg Link.related hl.1, congrArg Link.related hl.2.2⟩
  | otherwise =>
    cases hlaid with
    | branchElse _ _ _ hc _ _ => rw [he] at hc; cases hc

/-- No two conditions of a program are related to the same else. -/
theorem Placed.else_unique (h : Placed shape last link .many layout none none 0 (last + 1)) (hlast : shape last = .plain)
    {c c' e : Nat} (hc : c ≤ last) (hc' : c' ≤ last) (hcond : shape c = .cond) (hcond' : shape c' = .cond)
    (he : shape e = .otherwise) (hrel : (link c).related = some e) (hrel' : (link c').related = some e) : c = c' := by
  obtain ⟨body, inside, k, hbody, hk, -, hkm⟩ := h.cond_body (Nat.zero_le c) (Nat.lt_succ_of_le hc) hcond
  obtain ⟨body', inside', k', hbody', hk', -, -⟩ := h.cond_body (Nat.zero_le c') (Nat.lt_succ_of_le hc') hcond'
  obtain rfl : k = e := Option.some.inj (hk.symm.trans hrel)
  obtain rfl : k' = k := Option.some.inj (hk'.symm.trans hrel')
  have hlt := hbody.laid.spans.le.2 rfl
  have hlt' := hbody'.laid.spans.le.2 rfl
  have hle : k' ≤ last := Nat.le_of_lt_succ (hkm he)
  -- the condition further away would have the nearer one, with the same else, in its body
  rcases Nat.lt_trichotomy c c' with hcc | rfl | hcc
  · exact absurd hbody'.laid.spans (h.nearest hlast hbody he hle hcc (by omega) hcond')
  · rfl
  · exact absurd hbody.laid.spans (h.nearest hlast hbody' he hle hcc (by omega) hcond)

end

end Layout

namespace Script

/-- One level up from a line, or from outside all lines. -/
def up (script : Script) (level : Option LineId) : Option LineId :=
  level.bind fun id => (script.line id).parent

/-- The lines of a program are linked as the engine takes them to be. -/
structure WellLinked (script : Script) : Prop where
  /-- The last line ends the program. -/
  ends : ∃ last, script.lines.size = last + 1 ∧ (script.line last).action = .exit
  prev_eq : ∀ i < script.lines.size, (script.line i).prev = if i = 0 then none else some (i - 1)
  next_eq : ∀ i < script.lines.size, (script.line i).next = if i + 1 < script.lines.size then some (i + 1) else none
  /-- An opening brace and the closing one after it point at each other. -/
  closed : ∀ b, (script.line b).action = .blockBegin → ∃ e, b < e ∧ e < script.lines.size ∧
    (script.line e).action = .blockEnd ∧ (script.line b).related = some e ∧ (script.line e).related = some b
  /-- A closing brace and the opening one before it point at each other. -/
  opened : ∀ e, (script.line e).action = .blockEnd → ∃ b, b < e ∧ (script.line b).action = .blockBegin ∧
    (script.line b).related = some e ∧ (script.line e).related = some b
  /-- A block that starts inside another one ends inside it. -/
  nested : ∀ b b' e e', (script.line b).action = .blockBegin → (script.line b').action = .blockBegin →
    (script.line b).related = some e → (script.line b').related = some e' → b < b' → b' < e → e' < e
  /-- The owner of a body points past the body, which has at least one line. -/
  past_body : ∀ i, script.IsOwner i → ∃ r, (script.line i).related = some r ∧ i + 1 < r ∧ r < script.lines.size
  /-- An else belongs to one condition. -/
  one_owner : ∀ e, (script.line e).action = .otherwise →
    ∃ i, script.isIfFamily i = true ∧ script.elseOf? i = some e ∧
      ∀ j, script.isIfFamily j = true → script.elseOf? j = some e → j = i
  /-- What conditions have as their elses are elses, and no two have the same. -/
  own_else : ∀ i j e, script.isIfFamily i = true → script.isIfFamily j = true → script.elseOf? i = some e →
    (script.line e).action = .otherwise ∧ (script.elseOf? j = some e → i = j)
  /-- An enclosing line comes before what it encloses: it is a block around it, or the owner right before it. -/
  parent_before : ∀ i p, (script.line i).parent = some p → p < i ∧
    (((script.line p).action = .blockBegin ∧ ∃ e, (script.line p).related = some e ∧ i ≤ e) ∨
      (p = i - 1 ∧ script.IsOwner p))
  /-- Going up from a line leaves all lines. -/
  up_ends : ∀ i, ∃ n ≤ i, script.up^[n] (script.line i).parent = none
  /-- Looking further up for a line finds nothing that was not found. -/
  search_ends : ∀ start target fuel, script.lines.size ≤ fuel →
    script.encloses (script.line target).parent fuel (script.line start).parent = script.isJumpValid start target

section

variable {script : Script}

/-- If enclosing lines come before what they enclose, going up from a line ends. -/
theorem exists_up_eq_none (hlt : ∀ i p, (script.line i).parent = some p → p < i) (i : LineId) :
    ∃ n ≤ i, script.up^[n] (script.line i).parent = none := by
  induction i using Nat.strongRecOn with
  | ind i ih =>
    cases hp : (script.line i).parent with
    | none => exact ⟨0, Nat.zero_le i, rfl⟩
    | some p =>
      obtain ⟨n, hn, hup⟩ := ih p (hlt i p hp)
      refine ⟨n + 1, Nat.lt_of_le_of_lt hn (hlt i p hp), ?_⟩
      rw [Function.iterate_succ_apply]
      exact hup

/-- From outside all lines, going up leads nowhere. -/
theorem up_iterate_none (n : Nat) : script.up^[n] none = none :=
  Function.iterate_fixed rfl n

/-- The search for an enclosing line goes up level by level. -/
theorem encloses_iff {wanted level : Option LineId} {fuel : Nat} :
    script.encloses wanted fuel level = true ↔ ∃ n ≤ fuel, script.up^[n] level = wanted := by
  induction fuel generalizing level with
  | zero => simp [encloses]
  | succ fuel ih =>
    by_cases hfound : level = wanted
    · subst hfound
      simp only [encloses, beq_self_eq_true, if_true, true_iff]
      exact ⟨0, Nat.zero_le _, rfl⟩
    · cases level with
      | none => simp [encloses, hfound, up_iterate_none]
      | some id =>
        rw [encloses, if_neg (mt beq_iff_eq.mp hfound), ih]
        constructor
        · rintro ⟨n, hn, hup⟩
          exact ⟨n + 1, Nat.succ_le_succ hn, hup⟩
        · rintro ⟨_ | n, hn, hup⟩
          · exact absurd hup hfound
          · exact ⟨n, Nat.le_of_succ_le_succ hn, hup⟩

/-- A search that goes up as far as there are levels finds no more by going further. -/
theorem encloses_eq_of_le {wanted level : Option LineId} {k fuel fuel' : Nat} (hend : script.up^[k] level = none)
    (hk : k ≤ fuel) (hle : fuel ≤ fuel') : script.encloses wanted fuel' level = script.encloses wanted fuel level := by
  rw [Bool.eq_iff_iff, encloses_iff, encloses_iff]
  constructor
  · rintro ⟨n, -, hup⟩
    rcases Nat.le_total n fuel with hn | hn
    · exact ⟨n, hn, hup⟩
    · obtain ⟨m, rfl⟩ := Nat.exists_eq_add_of_le' (Nat.le_trans hk hn)
      rw [Function.iterate_add_apply, hend, up_iterate_none] at hup
      exact ⟨k, hk, hend.trans hup⟩
  · rintro ⟨n, hn, hup⟩
    exact ⟨n, Nat.le_trans hn hle, hup⟩

end

/-- The owner of a body is a condition, an else or a loop. -/
theorem shape_of_isOwner {script : Script} {i : LineId} (hi : script.IsOwner i) :
    script.shapeAt i = .cond ∨ script.shapeAt i = .otherwise ∨ script.shapeAt i = .loop :=
  hi.imp (Program.shape_eq_cond_iff _ _).mpr
    (Or.imp (Program.shape_eq_otherwise_iff _ _).mpr (Program.shape_eq_loop_iff _ _).mpr)

/-- A line has an else if the line that it is related to is one. -/
theorem elseOf?_eq_some_iff {script : Script} {i e : LineId} :
    script.elseOf? i = some e ↔ (script.line i).related = some e ∧ (script.line e).action = .otherwise := by
  simp only [elseOf?, Option.filter_eq_some_iff, beq_iff_eq]

namespace LaidOut

variable {script : Script} {last : Nat} {layout : Layout} (h : script.LaidOut last layout)
include h

/-- A line that is not plain is one of the program. -/
theorem lt_of_shape {i : LineId} {shape : Shape} (hi : script.shapeAt i = shape) (hne : shape ≠ .plain) : i < last + 1 :=
  Nat.lt_succ_of_le (h.le_last_of_shape (hi ▸ hne))

/-- A line that is enclosed is one of the program. -/
theorem le_last_of_parent {i p : LineId} (hp : (script.line i).parent = some p) : i ≤ last :=
  Nat.le_of_not_lt fun hgt => by rw [h.line_eq_default hgt] at hp; cases hp

/-- A block has its lines between two braces that point at each other. -/
theorem block_at {b : LineId} (hb : (script.line b).action = .blockBegin) :
    ∃ body e, Layout.Placed script.shapeAt last script.linkAt .many body (some b) (some b) (b + 1) e ∧ e < script.lines.size ∧
      (script.line e).action = .blockEnd ∧ (script.line b).related = some e ∧ (script.line e).related = some b := by
  have hshape := (Program.shape_eq_opening_iff script.commands _).mpr hb
  obtain ⟨body, e, hbody, hrel, hem, he, hlink⟩ := h.placed.block_at (Nat.zero_le b) (h.lt_of_shape hshape (by decide)) hshape
  exact ⟨body, e, hbody, h.size_eq ▸ hem, (Program.shape_eq_closing_iff _ _).mp he, hrel, congrArg Link.related hlink⟩

/-- A closing brace and the opening one of its block are related to each other. -/
theorem block_of_closing {e : LineId} (he : (script.line e).action = .blockEnd) :
    ∃ b, b < e ∧ (script.line b).action = .blockBegin ∧ (script.line b).related = some e ∧
      (script.line e).related = some b := by
  have hshape := (Program.shape_eq_closing_iff script.commands _).mpr he
  obtain ⟨b, hbe, hb, hrel⟩ := h.placed.block_of_closing (Nat.zero_le e) (h.lt_of_shape hshape (by decide)) hshape
  exact ⟨b, hbe, (Program.shape_eq_opening_iff _ _).mp hb, hrel⟩

/-- A block that starts inside another one ends inside it. -/
theorem block_nested {b b' e e' : LineId} (hb : (script.line b).action = .blockBegin)
    (hb' : (script.line b').action = .blockBegin) (hrel : (script.line b).related = some e)
    (hrel' : (script.line b').related = some e') (hlt : b < b') (hlt' : b' < e) : e' < e := by
  obtain ⟨body, k, hbody, -, -, hk, -⟩ := h.block_at hb
  obtain rfl : k = e := Option.some.inj (hk.symm.trans hrel)
  obtain ⟨k', hk', -, hlt'', -⟩ := hbody.block_ends hlt hlt' ((Program.shape_eq_opening_iff _ _).mpr hb')
  exact Option.some.inj (hk'.symm.trans hrel') ▸ hlt''

/-- The owner of a body points past the body. -/
theorem owner_body {i : LineId} (hi : script.IsOwner i) :
    ∃ body inside k, Layout.Placed script.shapeAt last script.linkAt .one body inside (some i) (i + 1) k ∧
      (script.line i).related = some k ∧ k ≤ last := by
  have hi := shape_of_isOwner hi
  have hle : i ≤ last := h.le_last_of_shape (by rcases hi with hi | hi | hi <;> rw [hi] <;> decide)
  obtain ⟨body, inside, k, hbody, hk, hkm, hne⟩ := h.placed.owner_body (Nat.zero_le i) (Nat.lt_succ_of_le hle) hi
  have hlt := hbody.laid.spans.le.2 rfl
  exact ⟨body, inside, k, hbody, hk, hbody.laid.le_last rfl h.last_plain (by omega) hkm⟩

/-- An else belongs to one condition at most. -/
theorem else_unique {i j e : LineId} (hi : script.isIfFamily i = true) (hj : script.isIfFamily j = true)
    (hie : script.elseOf? i = some e) (hje : script.elseOf? j = some e) : i = j := by
  have hi := (Program.shape_eq_cond_iff script.commands _).mpr hi
  have hj := (Program.shape_eq_cond_iff script.commands _).mpr hj
  obtain ⟨hie, he⟩ := elseOf?_eq_some_iff.mp hie
  have hile := Nat.le_of_lt_succ (h.lt_of_shape hi (by decide))
  have hjle := Nat.le_of_lt_succ (h.lt_of_shape hj (by decide))
  exact h.placed.else_unique h.last_plain hile hjle hi hj ((Program.shape_eq_otherwise_iff script.commands _).mpr he) hie
    (elseOf?_eq_some_iff.mp hje).1

/-- Every else belongs to a condition. -/
theorem else_owner {e : LineId} (he : (script.line e).action = .otherwise) :
    ∃ i, script.isIfFamily i = true ∧ script.elseOf? i = some e := by
  have hshape := (Program.shape_eq_otherwise_iff script.commands _).mpr he
  obtain ⟨i, body, inside, other, k, -, hi, hrel, -⟩ :=
    h.placed.else_owner (Nat.zero_le e) (h.lt_of_shape hshape (by decide)) hshape
  exact ⟨i, (Program.shape_eq_cond_iff _ _).mp hi, elseOf?_eq_some_iff.mpr ⟨hrel, he⟩⟩

/-- The line that encloses another one stands before it, as its owner or as a block around it. -/
theorem encloses_of_parent {i p : LineId} (hp : (script.line i).parent = some p) :
    Layout.Encloses script.shapeAt script.linkAt p i := by
  cases h.laid.enclosedBy h.linked (Nat.zero_le i) (Nat.lt_succ_of_le (h.le_last_of_parent hp)) with
  | first _ hnone | inside _ hnone => cases hp.symm.trans hnone
  | within _ hq henc => rwa [Option.some.inj (hp.symm.trans hq)]

/-- Going up from a line leaves all lines. -/
theorem exists_up_eq_none (i : LineId) : ∃ n ≤ i, script.up^[n] (script.line i).parent = none :=
  Script.exists_up_eq_none (fun _ _ hp => (h.encloses_of_parent hp).1) i

/-- The room that `Script.isJumpValid` has for its search is enough. -/
theorem encloses_eq_isJumpValid (start target : LineId) {fuel : Nat} (hfuel : script.lines.size ≤ fuel) :
    script.encloses (script.line target).parent fuel (script.line start).parent = script.isJumpValid start target := by
  obtain ⟨k, hk, hend⟩ : ∃ k ≤ script.lines.size, script.up^[k] (script.line start).parent = none := by
    cases hp : (script.line start).parent with
    | none => exact ⟨0, Nat.zero_le _, rfl⟩
    | some p =>
      obtain ⟨n, hn, hend⟩ := h.exists_up_eq_none start
      have hle : n ≤ last := Nat.le_trans hn (h.le_last_of_parent hp)
      exact ⟨n, h.size_eq ▸ Nat.le_succ_of_le hle, hp ▸ hend⟩
  rw [isJumpValid, encloses_eq_of_le hend hk hfuel, encloses_eq_of_le hend hk (Nat.le_succ _)]

end LaidOut

end Script

namespace Program

/-- Linking the lines of a program gives each line but the first the one before it, and leaves what it does. -/
theorem prev_arrange {script arranged : Script} (h : arrange script = .ok arranged) :
    arranged.lines.size = script.lines.size ∧ ∀ i < script.lines.size,
      (arranged.line i).prev = (if i = 0 then none else some (i - 1)) ∧ (arranged.line i).action = (script.line i).action := by
  obtain ⟨links, rfl⟩ := arrange_eq_ok h
  refine ⟨by simp [linkLines], fun i hi => ?_⟩
  rw [line_linkLines, if_pos hi]
  simp only [beq_iff_eq, and_self]

/-- A loaded program has neighbours before its lines and an `Exit` at its end. -/
theorem prev_of_load {commands : CommandSet} {items : List Item} {program : Program}
    (h : load commands items = .ok program) :
    ∃ last, program.script.lines.size = last + 1 ∧ (program.script.line last).action = .exit ∧
      ∀ i ≤ last, (program.script.line i).prev = if i = 0 then none else some (i - 1) := by
  obtain ⟨built, ended, arranged, lines, -, hended, harranged, hlines, rfl⟩ := load_eq_ok h
  obtain ⟨vars, args, note, note', -, -, rfl⟩ := Builder.push_eq_ok hended
  obtain ⟨hsize, harr⟩ := prev_arrange harranged
  have hlength : lines.length = built.lines.size + 1 := by simp [(resolveJumps_eq_ok hlines).1, hsize]
  refine ⟨built.lines.size, hlength, ?_, fun i hi => ?_⟩
  · obtain ⟨note, hline, -⟩ := line_resolveJumps hlines built.lines.size
    rw [hline, (harr _ (by simp)).2]
    simp [Script.line]
  · obtain ⟨note, hline, -⟩ := line_resolveJumps hlines i
    rw [hline]
    exact (harr i (by simpa using Nat.lt_succ_of_le hi)).1

/-- The lines of every program that loads are linked as the engine takes them to be. -/
theorem wellLinked_of_load (commands : CommandSet) (items : List Item) (program : Program)
    (h : load commands items = .ok program) : program.script.WellLinked := by
  obtain ⟨last, layout, hlaid⟩ := laidOut_of_load h
  obtain ⟨last', hsize, hexit, hprev⟩ := prev_of_load h
  obtain rfl : last' = last := Nat.succ.inj (hsize.symm.trans hlaid.size_eq)
  exact {
    ends := ⟨last', hsize, hexit⟩
    prev_eq := fun i hi => hprev i (by omega)
    next_eq := fun i hi => by simp only [hlaid.next_eq i (by omega), hsize, Nat.add_lt_add_iff_right]
    closed := fun b hb => by
      obtain ⟨body, e, hbody, he⟩ := hlaid.block_at hb
      exact ⟨e, hbody.laid.spans.le.1, he⟩
    opened := fun e he => hlaid.block_of_closing he
    nested := fun b b' e e' hb hb' hrel hrel' => hlaid.block_nested hb hb' hrel hrel'
    past_body := fun i hi => by
      obtain ⟨body, inside, k, hbody, hk, hle⟩ := hlaid.owner_body hi
      exact ⟨k, hk, hbody.laid.spans.le.2 rfl, hsize ▸ Nat.lt_succ_of_le hle⟩
    one_owner := fun e he => by
      obtain ⟨i, hi, hie⟩ := hlaid.else_owner he
      exact ⟨i, hi, hie, fun j hj hje => hlaid.else_unique hj hi hje hie⟩
    own_else := fun i j e hi hj hie => ⟨(Script.elseOf?_eq_some_iff.mp hie).2, hlaid.else_unique hi hj hie⟩
    parent_before := fun i p hp => by
      obtain ⟨hlt, ⟨hnext, howner⟩ | ⟨hopen, hrel⟩⟩ := hlaid.encloses_of_parent hp
      · refine ⟨hlt, .inr ⟨Nat.eq_sub_of_add_eq hnext, ?_⟩⟩
        exact howner.imp (shape_eq_cond_iff _ _).mp (Or.imp (shape_eq_otherwise_iff _ _).mp (shape_eq_loop_iff _ _).mp)
      · exact ⟨hlt, .inl ⟨(shape_eq_opening_iff _ _).mp hopen, hrel⟩⟩
    up_ends := hlaid.exists_up_eq_none
    search_ends := fun start target _ => hlaid.encloses_eq_isJumpValid start target }

/-- A loop over a block, with a condition and its else in it, and a loop as the body of the else. -/
def nestedBodies : List Item :=
  let line (keyword : String) (args : List String) : Item :=
    .statement { keyword, args := args.map .plain, lineNo := 1 } []
  [line "Loop" ["2"], line "\x7b" [], line "IfLess" ["n", "1"], line "+=" ["n", "1"], line "else" [], line "Loop" ["3"],
    line "\x7b" [], line "+=" ["m", "1"], line "\x7d" [], line "\x7d" []]

/-- The program of `nestedBodies` is loaded. -/
theorem nestedBodies_loads :
    (match load {} nestedBodies with
    | .ok program =>
      program.script.lines.size == 11 && program.script.isIfFamily 2 && (program.script.line 2).parent == some 1 &&
        (program.script.line 8).parent == some 6
    | .error _ => false) = true := by
  decide +kernel

/-- The condition has the else of its program, which points past the inner loop to the end of the block. -/
theorem nestedBodies_wellLinked :
    ∃ program, load {} nestedBodies = .ok program ∧ program.script.lines.size = 11 ∧ program.script.WellLinked ∧
      ∃ r, (program.script.line 2).related = some r ∧ 3 < r ∧ r < 11 := by
  have hloads := nestedBodies_loads
  cases hload : load {} nestedBodies with
  | error e => rw [hload] at hloads; cases hloads
  | ok program =>
    simp only [hload, Bool.and_eq_true, beq_iff_eq] at hloads
    obtain ⟨⟨⟨hsize, hif⟩, -⟩, -⟩ := hloads
    have hlinked := wellLinked_of_load {} nestedBodies program hload
    exact ⟨program, rfl, hsize, hlinked, hsize ▸ hlinked.past_body 2 (.inl hif)⟩

end Program

end LineScript
