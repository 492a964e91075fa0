import LineScript.Proofs.Load.Loaded

/-!
# Blocks around lines

The line that encloses a line may be a block or the owner of a body. Going up from a line, the blocks met are exactly those whose
braces stand around it (`Script.LaidOut.inBlock_iff`), so blocks can be told by numbers alone.
-/

namespace LineScript

namespace Layout

section

variable (shape : Nat → Shape) (link : Nat → Link)

/-- The braces of the block at `b` stand around line `c`; the closing one counts as inside. -/
def Surrounds (b c : Nat) : Prop :=
  shape b = .opening ∧ ∃ e, (link b).related = some e ∧ b < c ∧ c ≤ e

/-- The block at `b` is the given line, or stands around it. -/
def SurroundsLevel (b : Nat) : Option Nat → Prop
  | none => False
  | some p => (p = b ∧ shape b = .opening) ∨ Surrounds shape link b p

end

section

variable {shape : Nat → Shape} {link : Nat → Link} {last : Nat} {p : Part} {inLoop : Bool} {layout : Layout} {i m : Nat}

/-- What surrounds a line comes before it. -/
theorem Surrounds.lt {b c : Nat} (h : Surrounds shape link b c) : b < c := by
  obtain ⟨-, e, -, h, -⟩ := h
  exact h

/-- A line that opens no block adds none to those around it. -/
theorem surroundsLevel_some {b c : Nat} (hc : shape c ≠ .opening) :
    SurroundsLevel shape link b (some c) ↔ Surrounds shape link b c := by
  refine ⟨fun h => ?_, .inr⟩
  rcases h with ⟨rfl, h⟩ | h
  · exact absurd h hc
  · exact h

/-- A block of a part has its lines between two braces, which point at each other. -/
theorem Placed.block_at {inside parent : Option Nat} (h : Placed shape last link p layout inside parent i m) {b : Nat}
    (hi : i ≤ b) (hm : b < m) (hb : shape b = .opening) :
    ∃ body e, Placed shape last link .many body (some b) (some b) (b + 1) e ∧ (link b).related = some e ∧ e < m ∧
      shape e = .closing ∧ link e = ⟨some b, some b⟩ := by
  obtain ⟨node, inside', parent', j, k, ⟨hlaid, hl⟩, hij, hjb, hkm, hst⟩ := Placed.node_at h.laid h.linked hi hm
  cases hst with
  | first =>
    cases hlaid with
    | plain hs | inLoop hs | branch hs | branchElse hs | loop hs => rw [hb] at hs; cases hs
    | block hs hbody hc => exact ⟨_, _, ⟨hbody, hl.2.1⟩, congrArg Link.related hl.1, by omega, hc, hl.2.2⟩
  | closing =>
    cases hlaid with
    | block _ _ hc => rw [hb] at hc; cases hc
  | otherwise =>
    cases hlaid with
    | branchElse _ _ _ he _ _ => rw [hb] at he; cases he

/-- A block ends inside the part it stands in. -/
theorem Placed.block_ends {inside parent : Option Nat} (h : Placed shape last link p layout inside parent i m) {b : Nat}
    (hi : i ≤ b) (hm : b < m) (hb : shape b = .opening) :
    ∃ e, (link b).related = some e ∧ b < e ∧ e < m ∧ shape e = .closing ∧ (link e).parent = some b := by
  obtain ⟨body, e, hbody, hrel, hem, hclose, hlink⟩ := h.block_at hi hm hb
  exact ⟨e, hrel, hbody.laid.spans.le.1, hem, hclose, congrArg Link.parent hlink⟩

/-- A block of a part does not reach beyond it. -/
theorem Placed.not_surrounds {inside parent : Option Nat} (h : Placed shape last link p layout inside parent i m)
    {b c : Nat} (hi : i ≤ b) (hm : b < m) (hc : m ≤ c) : ¬ Surrounds shape link b c := by
  rintro ⟨hb, e, he, -, hce⟩
  obtain ⟨e', he', -, hlt, -, -⟩ := h.block_ends hi hm hb
  obtain rfl : e = e' := Option.some.inj (he.symm.trans he')
  omega

/-- What blocks around a part have in common: they stand around all of it, and are met going up from the lines that enclose it.
No block met there starts inside the part. -/
structure Around (shape : Nat → Shape) (link : Nat → Link) (inside parent : Option Nat) (i m : Nat) : Prop where
  level_iff : ∀ b < i, SurroundsLevel shape link b parent ↔ SurroundsLevel shape link b inside
  line_iff : ∀ b < i, ∀ x, i ≤ x → x < m → (Surrounds shape link b x ↔ SurroundsLevel shape link b inside)
  inside_lt : ∀ b, SurroundsLevel shape link b inside → b < i
  parent_lt : ∀ b, SurroundsLevel shape link b parent → b < i

namespace Around

variable {inside parent : Option Nat}

/-- The first line of a part is in the blocks that the line enclosing it gives. -/
theorem first_iff (h : Around shape link inside parent i m) (him : i < m) (b : Nat) :
    Surrounds shape link b i ↔ SurroundsLevel shape link b parent := by
  refine ⟨fun hs => ?_, fun hl => ?_⟩
  · exact (h.level_iff b hs.lt).mpr ((h.line_iff b hs.lt i (Nat.le_refl _) him).mp hs)
  · have hlt := h.parent_lt b hl
    exact (h.line_iff b hlt i (Nat.le_refl _) him).mpr ((h.level_iff b hlt).mp hl)

/-- The part of a part that stands after an owner has the same blocks around it. -/
theorem body (h : Around shape link inside parent i m) {o j : Nat} (hio : i ≤ o) (hoj : o < j) (hjm : j ≤ m)
    (ho : shape o ≠ .opening) (hin : ∀ b, i ≤ b → b < o → ∀ x, o ≤ x → ¬ Surrounds shape link b x) :
    Around shape link inside (some o) (o + 1) j := by
  have hline : ∀ b < o + 1, ∀ x, o ≤ x → x < m → (Surrounds shape link b x ↔ SurroundsLevel shape link b inside) := by
    intro b hb x hox hxm
    by_cases hbi : b < i
    · exact h.line_iff b hbi x (by omega) hxm
    · refine ⟨fun hs => ?_, fun hl => absurd (h.inside_lt b hl) hbi⟩
      by_cases hbo : b = o
      · exact absurd (hbo ▸ hs.1) ho
      · exact absurd hs (hin b (by omega) (by omega) x hox)
  refine ⟨fun b hb => ?_, fun b hb x h1 h2 => hline b hb x (by omega) (by omega), fun b hl => ?_, fun b hl => ?_⟩
  · rw [surroundsLevel_some ho]
    exact hline b hb o (Nat.le_refl _) (by omega)
  · exact Nat.lt_of_lt_of_le (h.inside_lt b hl) (by omega)
  · have := ((surroundsLevel_some ho).mp hl).lt
    omega

end Around

/-- The blocks around a line are those met going up from it. -/
theorem Laid.surrounds_iff (h : Laid shape last p inLoop layout i m) :
    ∀ {inside parent : Option Nat}, layout.LinkedBy link inside parent m → Around shape link inside parent i m →
      ∀ {c : Nat}, i ≤ c → c < m → ∀ b, Surrounds shape link b c ↔ SurroundsLevel shape link b (link c).parent := by
  induction h with
  | plain _ | inLoop _ =>
    intro inside parent hl har c h1 h2 b
    obtain rfl := Nat.le_antisymm (Nat.le_of_lt_succ h2) h1
    rw [show (link c).parent = parent from congrArg Link.parent hl]
    exact har.first_iff h2 b
  | @block _ body i j ho hb hc ih =>
    intro inside parent hl har c h1 h2 b
    have hle := hb.spans.le.1
    have hrel : (link i).related = some j := congrArg Link.related hl.1
    have hbody : Placed shape last link .many body (some i) (some i) (i + 1) j := ⟨hb.mono, hl.2.1⟩
    have hself : ∀ x, i + 1 ≤ x → x ≤ j → Surrounds shape link i x := fun x h1 h2 => ⟨ho, j, hrel, h1, h2⟩
    -- a block around one line of this block is the block itself or stands around its first brace
    have hline : ∀ b < i + 1, ∀ x, i + 1 ≤ x → x < j + 1 →
        (Surrounds shape link b x ↔ SurroundsLevel shape link b (some i)) := by
      intro b hbi x hx1 hx2
      rcases Nat.lt_succ_iff_lt_or_eq.mp hbi with hlt | rfl
      · have hne : ¬ (i = b ∧ shape b = .opening) := fun h => absurd h.1 (by omega)
        have hi := har.line_iff b hlt i (Nat.le_refl _) (by omega)
        have hx := har.line_iff b hlt x (by omega) hx2
        rw [hx, ← hi]
        exact ⟨.inr, fun h => h.resolve_left hne⟩
      · exact ⟨fun _ => .inl ⟨rfl, ho⟩, fun _ => hself x hx1 (by omega)⟩
    have hlevel : ∀ b, SurroundsLevel shape link b (some i) → b < i + 1 := by
      rintro b (⟨rfl, -⟩ | h)
      · exact Nat.lt_succ_self _
      · exact Nat.lt_succ_of_lt h.lt
    rcases Nat.eq_or_lt_of_le h1 with rfl | h1
    · rw [show (link i).parent = parent from congrArg Link.parent hl.1]
      exact har.first_iff h2 b
    · rcases Nat.lt_or_ge c j with hlt | hge
      · exact ih hl.2.1 ⟨fun _ _ => Iff.rfl, fun b hb x h1 h2 => hline b hb x h1 (by omega), hlevel, hlevel⟩ h1 hlt b
      · obtain rfl : c = j := by omega
        rw [show (link c).parent = some i from congrArg Link.parent hl.2.2]
        by_cases hbi : b < i + 1
        · exact hline b hbi c h1 h2
        · refine ⟨fun hs => ?_, fun hl => absurd (hlevel b hl) hbi⟩
          exact absurd hs (hbody.not_surrounds (by omega) hs.lt (Nat.le_refl _))
  | @branch _ body i m hs hne hb he ih =>
    intro inside parent hl har c h1 h2 b
    rcases Nat.eq_or_lt_of_le h1 with rfl | h1
    · rw [show (link i).parent = parent from congrArg Link.parent hl.1]
      exact har.first_iff h2 b
    · have hlt := hb.spans.le.2 rfl
      exact ih hl.2 (har.body (Nat.le_refl _) (by omega) (Nat.le_refl _) (by simp [hs]) fun b _ _ => by omega) h1 h2 b
  | @branchElse _ body other i j m hs hne hb he hne' ho ih1 ih2 =>
    intro inside parent hl har c h1 h2 b
    have hij := hb.spans.le.2 rfl
    have hjm := ho.spans.le.2 rfl
    have hbody : Placed shape last link .one body inside (some i) (i + 1) j := ⟨hb.mono, hl.2.1⟩
    have hin : ∀ b, i ≤ b → b < j → ∀ x, j ≤ x → ¬ Surrounds shape link b x := by
      intro b hib hbj x hx hsur
      rcases Nat.eq_or_lt_of_le hib with rfl | hib
      · cases hs.symm.trans hsur.1
      · exact hbody.not_surrounds hib hbj hx hsur
    rcases Nat.eq_or_lt_of_le h1 with rfl | h1
    · rw [show (link i).parent = parent from congrArg Link.parent hl.1]
      exact har.first_iff h2 b
    · rcases Nat.lt_trichotomy c j with hlt | rfl | hgt
      · exact ih1 hl.2.1 (har.body (Nat.le_refl _) (by omega) (by omega) (by simp [hs]) fun b _ _ => by omega) h1 hlt b
      · rw [show (link c).parent = inside from congrArg Link.parent hl.2.2.1]
        by_cases hbi : b < i
        · exact har.line_iff b hbi c (by omega) h2
        · refine ⟨fun hsur => ?_, fun hl => absurd (har.inside_lt b hl) hbi⟩
          exact absurd hsur (hin b (by omega) hsur.lt c (Nat.le_refl _))
      · exact ih2 hl.2.2.2 (har.body (by omega) (by omega) (Nat.le_refl _) (by simp [he]) hin) hgt h2 b
  | @loop _ body i m hs hne hb ih =>
    intro inside parent hl har c h1 h2 b
    rcases Nat.eq_or_lt_of_le h1 with rfl | h1
    · rw [show (link i).parent = parent from congrArg Link.parent hl.1]
      exact har.first_iff h2 b
    · have hlt := hb.spans.le.2 rfl
      exact ih hl.2 (har.body (Nat.le_refl _) (by omega) (Nat.le_refl _) (by simp [hs]) fun b _ _ => by omega) h1 h2 b
  | nil =>
    intro _ _ _ _ c h1 h2
    omega
  | @seq _ first rest i j m h1 h2 ih1 ih2 =>
    intro inside parent hl har c hci hcm b
    have hij := h1.spans.le.2 rfl
    have hjm := h2.spans.le.1
    have hl1 : first.LinkedBy link inside inside j := h2.getD_first? ▸ hl.1
    have hfirst : Placed shape last link .one first inside inside i j := ⟨h1.mono, hl1⟩
    rcases Nat.lt_or_ge c j with hlt | hge
    · exact ih1 hl1 ⟨fun _ _ => Iff.rfl, fun b hb x h1 h2 => har.line_iff b hb x h1 (by omega), har.inside_lt,
        har.inside_lt⟩ hci hlt b
    · refine ih2 hl.2 ⟨fun _ _ => Iff.rfl, fun b hb x hx1 hx2 => ?_, fun b hl => ?_, fun b hl => ?_⟩ hge hcm b
      · by_cases hbi : b < i
        · exact har.line_iff b hbi x (by omega) hx2
        · refine ⟨fun hsur => ?_, fun hl => absurd (har.inside_lt b hl) hbi⟩
          exact absurd hsur (hfirst.not_surrounds (by omega) hb hx1)
      · exact Nat.lt_trans (har.inside_lt b hl) hij
      · exact Nat.lt_trans (har.inside_lt b hl) hij

/-- A statement's first line is enclosed by what encloses the statement. -/
theorem Placed.parent_eq {inside parent : Option Nat} (h : Placed shape last link .one layout inside parent i m) :
    (link i).parent = parent := by
  obtain ⟨hlaid, hl⟩ := h
  cases hlaid with
  | plain | inLoop => exact congrArg Link.parent hl
  | block | branch | branchElse | loop => exact congrArg Link.parent hl.1

/-- The first line inside a block is enclosed by the block, also when it is the closing brace. -/
theorem Placed.parent_in_block {inside parent : Option Nat} (h : Placed shape last link p layout inside parent i m) {b : Nat}
    (hi : i ≤ b) (hm : b < m) (hb : shape b = .opening) : (link (b + 1)).parent = some b := by
  obtain ⟨body, e, ⟨hbody, hl⟩, -, -, -, hlink⟩ := h.block_at hi hm hb
  cases hbody with
  | nil => exact congrArg Link.parent hlink
  | seq h1 h2 => exact Placed.parent_eq ⟨h1, h2.getD_first? ▸ hl.1⟩

/-- The line that an owner is related to comes right after its body. -/
theorem Placed.owner_body {inside parent : Option Nat} (h : Placed shape last link p layout inside parent i m) {c : Nat}
    (hi : i ≤ c) (hm : c < m) (hc : shape c = .cond ∨ shape c = .otherwise ∨ shape c = .loop) :
    ∃ body inside' k, Placed shape last link .one body inside' (some c) (c + 1) k ∧ (link c).related = some k ∧ k ≤ m ∧
      c + 1 ≠ last := by
  obtain ⟨node, inside', parent', j, k, ⟨hlaid, hl⟩, hij, hjc, hkm, hst⟩ := Placed.node_at h.laid h.linked hi hm
  cases hst with
  | first =>
    cases hlaid with
    | plain hs | inLoop hs | block hs => simp [hs] at hc
    | branch _ hne hb _ => exact ⟨_, inside', _, ⟨hb, hl.2⟩, congrArg Link.related hl.1, hkm, hne⟩
    | branchElse _ hne hb _ _ ho =>
      have := ho.spans.le.1
      exact ⟨_, inside', _, ⟨hb, hl.2.1⟩, congrArg Link.related hl.1, by omega, hne⟩
    | loop _ hne hb => exact ⟨_, inside', _, ⟨hb, hl.2⟩, congrArg Link.related hl.1, hkm, hne⟩
  | closing =>
    cases hlaid with
    | block _ _ hcl => simp [hcl] at hc
  | otherwise =>
    cases hlaid with
    | branchElse _ _ _ _ hne ho => exact ⟨_, inside', _, ⟨ho, hl.2.2.2⟩, congrArg Link.related hl.2.2.1, hkm, hne⟩

end

end Layout

namespace Script

/-- A line stands inside a block of the program; the closing brace counts as inside. -/
def InBlock (script : Script) (b c : LineId) : Prop :=
  Layout.Surrounds script.shapeAt script.linkAt b c

/-- A block of the program is the given line, or stands around it. -/
def InBlockLevel (script : Script) (b : LineId) (level : Option LineId) : Prop :=
  Layout.SurroundsLevel script.shapeAt script.linkAt b level

namespace LaidOut

variable {script : Script} {last : Nat} {layout : Layout} (h : script.LaidOut last layout) {b c s : Nat}
include h

/-- A script that is laid out has its layout placed from the first line to the last. -/
theorem placed : Layout.Placed script.shapeAt last script.linkAt .many layout none none 0 (last + 1) :=
  ⟨h.laid.mono, h.linked⟩

/-- Beyond the last line there is only the plain line. -/
theorem line_eq_default (hc : last < c) : script.line c = default :=
  line_of_le (h.size_eq ▸ hc)

/-- A line that is not plain is one of the program. -/
theorem le_last_of_shape (hc : script.shapeAt c ≠ .plain) : c ≤ last := by
  refine Nat.le_of_not_lt fun hlt => hc ?_
  rw [shapeAt, h.line_eq_default hlt]
  rfl

/-- The blocks around a line are those met going up from it. -/
theorem inBlock_iff : script.InBlock b c ↔ script.InBlockLevel b (script.line c).parent := by
  rcases Nat.lt_or_ge last c with hlt | hle
  · rw [h.line_eq_default hlt]
    refine ⟨fun hb => ?_, fun hb => hb.elim⟩
    have hbl := h.le_last_of_shape (show script.shapeAt b ≠ .plain by simp [hb.1])
    exact absurd hb (h.placed.not_surrounds (Nat.zero_le b) (by omega) hlt)
  · refine h.laid.surrounds_iff h.linked ?_ (Nat.zero_le c) (Nat.lt_succ_of_le hle) b
    exact ⟨fun _ hb => absurd hb (Nat.not_lt_zero _), fun _ hb => absurd hb (Nat.not_lt_zero _), fun _ hb => hb.elim,
      fun _ hb => hb.elim⟩

/-- A line that is next to another one, with no block between them, is in the same blocks. -/
theorem inBlock_of_next (hc : script.shapeAt c ≠ .opening) (hs : (script.line c).next = some s)
    (hb : script.InBlock b s) : script.InBlock b c := by
  have hle : c ≤ last := Nat.le_of_not_lt fun hlt => by rw [h.line_eq_default hlt] at hs; cases hs
  rw [h.next_eq c hle] at hs
  split at hs
  · obtain rfl := Option.some.inj hs
    obtain ⟨hopen, e, he, h1, h2⟩ := hb
    have hne : b ≠ c := fun heq => hc (heq ▸ hopen)
    exact ⟨hopen, e, he, by omega, by omega⟩
  · cases hs

/-- The line after a body is in no block that the owner of the body is not in. -/
theorem inBlock_of_related (hc : script.shapeAt c = .cond ∨ script.shapeAt c = .otherwise ∨ script.shapeAt c = .loop)
    (hs : (script.line c).related = some s) (hb : script.InBlock b s) : script.InBlock b c := by
  have hle : c ≤ last := h.le_last_of_shape (by rcases hc with hc | hc | hc <;> simp [hc])
  obtain ⟨body, inside, k, hbody, hk, -⟩ := h.placed.owner_body (Nat.zero_le c) (Nat.lt_succ_of_le hle) hc
  obtain rfl : s = k := Option.some.inj (hs.symm.trans hk)
  have hlt := hbody.laid.spans.le.2 rfl
  obtain ⟨hopen, e, he, h1, h2⟩ := hb
  have hne : b ≠ c := fun heq => by rcases hc with hc | hc | hc <;> simp [heq, hc] at hopen
  have hbc : ¬ c + 1 ≤ b := fun hcb => hbody.not_surrounds hcb h1 (Nat.le_refl _) ⟨hopen, e, he, h1, h2⟩
  exact ⟨hopen, e, he, by omega, by omega⟩

/-- The line after a block is in no block that the block is not in. -/
theorem inBlock_of_block (hc : script.shapeAt c = .opening)
    (hs : ((script.line c).related.bind fun stop => (script.line stop).next) = some s) (hb : script.InBlock b s) :
    script.InBlock b c := by
  have hle : c ≤ last := h.le_last_of_shape (by simp [hc])
  obtain ⟨stop, hstop, -, -, hclose, hparent⟩ := h.placed.block_ends (Nat.zero_le c) (Nat.lt_succ_of_le hle) hc
  have hstop : (script.line c).related = some stop := hstop
  rw [hstop, Option.bind_some] at hs
  have hin : script.InBlockLevel b (some c) := by
    have hb := h.inBlock_iff.mp (h.inBlock_of_next (by simp [hclose]) hs hb)
    rwa [show (script.line stop).parent = some c from hparent] at hb
  -- the block itself ends before the line after it
  rcases hin with ⟨rfl, -⟩ | hin
  · obtain ⟨-, e, he, -, hse⟩ := hb
    obtain rfl : e = stop := Option.some.inj (he.symm.trans hstop)
    have hle : e ≤ last := Nat.le_of_not_lt fun hlt => by rw [h.line_eq_default hlt] at hs; cases hs
    rw [h.next_eq e hle] at hs
    split at hs
    · obtain rfl := Option.some.inj hs
      omega
    · cases hs
  · exact hin

/-- The first line inside a block is enclosed by the block. -/
theorem parent_in_block (hc : script.shapeAt c = .opening) : (script.line (c + 1)).parent = some c :=
  h.placed.parent_in_block (Nat.zero_le c) (Nat.lt_succ_of_le (h.le_last_of_shape (by simp [hc]))) hc

end LaidOut

end Script

end LineScript
