import LineScript.Command.Standard
import LineScript.Proofs.Engine.Coverage
import LineScript.Proofs.Load.WellLinked

/-!
# What a valid jump enters

`Script.isJumpValid` looks at enclosing lines, while a loop is a range of line numbers. For blocks the two agree: a valid jump
enters none. For loops they agree except at an else: an else is enclosed by the innermost block around it, so the else of a
condition that is a loop's body without braces, or stands in such a body, is on the level of the loop itself and can be jumped to
from outside (`Program.jump_stays_in_scope`).
-/

namespace LineScript

namespace Script

/-- A line stands in the body of a loop. -/
def InLoop (script : Script) (l c : LineId) : Prop :=
  (script.line l).action = .loop ∧ ∃ r, (script.line l).related = some r ∧ l < c ∧ c < r

namespace LaidOut

variable {script : Script} {last : Nat} {layout : Layout} (h : script.LaidOut last layout) {l c q t : Nat}
include h

/-- The lines of a loop's body are the lines of a part that the loop encloses. -/
theorem loop_body (hl : script.InLoop l t) :
    ∃ body inside r, Layout.Placed script.shapeAt last script.linkAt .one body inside (some l) (l + 1) r ∧
      (script.line l).related = some r ∧ l < t ∧ t < r := by
  obtain ⟨hloop, r, hr, hlt, htr⟩ := hl
  obtain ⟨body, inside, k, hbody, hk, -⟩ := h.owner_body (.inr (.inr hloop))
  obtain rfl : k = r := Option.some.inj (hk.symm.trans hr)
  exact ⟨body, inside, k, hbody, hr, hlt, htr⟩

/-- What a loop, or a line in its body, encloses is in the body. -/
theorem inLoop_of_parent (hq : q = l ∨ script.InLoop l q) (hl : script.InLoop l t)
    (hc : (script.line c).parent = some q) : script.InLoop l c := by
  obtain ⟨body, inside, r, hbody, hr, -, -⟩ := h.loop_body hl
  have hloop := hl.1
  have hlr := hbody.laid.spans.le.2 rfl
  have hlq : l ≤ q := by
    rcases hq with rfl | ⟨-, _, -, hlt, -⟩
    · exact Nat.le_refl q
    · exact Nat.le_of_lt hlt
  have hqr : q < r := by
    rcases hq with rfl | ⟨-, r', hr', -, hlt⟩
    · exact Nat.lt_of_succ_lt hlr
    · exact Option.some.inj (hr'.symm.trans hr) ▸ hlt
  obtain ⟨hqc, ⟨hnext, howner⟩ | ⟨hopen, e, he, hce⟩⟩ := h.encloses_of_parent hc
  · refine ⟨hloop, r, hr, Nat.lt_of_le_of_lt hlq hqc, ?_⟩
    subst hnext
    rcases Nat.eq_or_lt_of_le hlq with rfl | hlt
    · exact hlr
    · -- an owner inside the body has its own body there
      obtain ⟨body', inside', k, hbody', -, hkr, -⟩ := hbody.owner_body hlt hqr howner
      exact Nat.lt_of_lt_of_le (hbody'.laid.spans.le.2 rfl) hkr
  · have hne : l ≠ q := fun heq => by
      subst heq
      cases ((Program.shape_eq_loop_iff _ _).mpr hloop).symm.trans hopen
    obtain ⟨e', he', -, her, -⟩ := hbody.block_ends (Nat.lt_of_le_of_ne hlq hne) hqr hopen
    obtain rfl : e' = e := Option.some.inj (he'.symm.trans he)
    exact ⟨hloop, r, hr, Nat.lt_of_le_of_lt hlq hqc, Nat.lt_of_le_of_lt hce her⟩

/-- The line around a line of a loop's body is the loop or stands in the body, unless the line is an else on the loop's level. -/
theorem parent_in_loop (hl : script.InLoop l t)
    (helse : (script.line t).action = .otherwise → ∃ b, (script.line t).parent = some b ∧ l < b) :
    ∃ q, (script.line t).parent = some q ∧ (q = l ∨ script.InLoop l q) := by
  obtain ⟨body, inside, r, hbody, hr, hlt, htr⟩ := h.loop_body hl
  have hwithin {q : LineId} (hq : (script.line t).parent = some q) (hlq : l < q) :
      ∃ q, (script.line t).parent = some q ∧ (q = l ∨ script.InLoop l q) :=
    ⟨q, hq, .inr ⟨hl.1, r, hr, hlq, Nat.lt_trans (h.encloses_of_parent hq).1 htr⟩⟩
  cases hbody.laid.enclosedBy hbody.linked hlt htr with
  | first _ hp => exact ⟨l, hp, .inl rfl⟩
  | inside hc _ =>
    rcases hc with hc | hc
    · obtain ⟨b, hb, hlb⟩ := helse ((Program.shape_eq_otherwise_iff _ _).mp hc)
      exact hwithin hb hlb
    · cases hc
  | within hq hp _ => exact hwithin hp hq

/-- A valid jump to a line of a loop's body comes from the body, unless the line is an else on the loop's level. -/
theorem inLoop_of_isJumpValid (hvalid : script.isJumpValid c t = true) (hl : script.InLoop l t)
    (helse : (script.line t).action = .otherwise → ∃ b, (script.line t).parent = some b ∧ l < b) : script.InLoop l c := by
  obtain ⟨q, hq, hwithin⟩ := h.parent_in_loop hl helse
  have hup : ∀ n level, script.up^[n] level = some q → ∃ q', level = some q' ∧ (q' = l ∨ script.InLoop l q') := by
    intro n
    induction n with
    | zero =>
      intro level hlevel
      exact ⟨q, hlevel, hwithin⟩
    | succ n ih =>
      intro level hlevel
      obtain ⟨q', hq', hwithin'⟩ := ih _ hlevel
      obtain ⟨id, rfl, hparent⟩ := Option.bind_eq_some_iff.mp hq'
      exact ⟨id, rfl, .inr (h.inLoop_of_parent hwithin' hl hparent)⟩
  rw [isJumpValid, hq, encloses_iff] at hvalid
  obtain ⟨n, -, hn⟩ := hvalid
  obtain ⟨q', hq', hwithin'⟩ := hup n _ hn
  exact h.inLoop_of_parent hwithin' hl hq'

/-- Going up from a line meets every block around it. -/
theorem exists_up_of_inBlock {b : Nat} (hb : script.InBlock b c) :
    ∃ n ≤ c, script.up^[n] (script.line c).parent = some b := by
  induction c using Nat.strongRecOn with
  | ind c ih =>
    have hlevel := h.inBlock_iff.mp hb
    cases hp : (script.line c).parent with
    | none => rw [hp] at hlevel; exact hlevel.elim
    | some p =>
      have hlt := (h.encloses_of_parent hp).1
      rw [hp] at hlevel
      rcases hlevel with ⟨rfl, -⟩ | hin
      · exact ⟨0, Nat.zero_le c, rfl⟩
      · obtain ⟨n, hn, hup⟩ := ih p hlt hin
        exact ⟨n + 1, Nat.lt_of_le_of_lt hn hlt, hup⟩

/-- The loop itself may jump to an else on its level. -/
theorem isJumpValid_of_else (hl : script.InLoop l t) (helse : (script.line t).action = .otherwise)
    (hlevel : ¬∃ b, (script.line t).parent = some b ∧ l < b) : script.isJumpValid l t = true := by
  obtain ⟨body, inside, r, hbody, hr, hlt, htr⟩ := h.loop_body hl
  have hll : l ≤ last := h.le_last_of_shape (by rw [shapeAt, (Program.shape_eq_loop_iff _ _).mpr hl.1]; decide)
  have hroom : l ≤ script.lines.size + 1 := by rw [h.size_eq]; omega
  suffices hup : ∃ n ≤ l, script.up^[n] (script.line l).parent = (script.line t).parent by
    obtain ⟨n, hn, hup⟩ := hup
    exact encloses_iff.mpr ⟨n, Nat.le_trans hn hroom, hup⟩
  cases hp : (script.line t).parent with
  | none => exact h.exists_up_eq_none l
  | some q =>
    have hql : q ≤ l := Nat.le_of_not_lt fun hlq => hlevel ⟨q, hp, hlq⟩
    have hqm : q < last + 1 := Nat.lt_succ_of_le (Nat.le_trans hql hll)
    obtain ⟨hqt, ⟨hnext, howner⟩ | ⟨hopen, e, he, hte⟩⟩ := h.encloses_of_parent hp
    · -- an else is no statement, so it is not the first line of a body
      obtain ⟨body', inside', k, hbody', -, -⟩ := h.placed.owner_body (Nat.zero_le q) hqm howner
      rw [hnext] at hbody'
      exact absurd ((Program.shape_eq_otherwise_iff _ _).mpr helse) hbody'.laid.spans.head_ne.1
    · have hne : q ≠ l := fun heq => by
        subst heq
        cases ((Program.shape_eq_loop_iff _ _).mpr hl.1).symm.trans hopen
      exact h.exists_up_of_inBlock ⟨hopen, e, he, Nat.lt_of_le_of_ne hql hne, by omega⟩

end LaidOut

end Script

namespace Program

/-- A valid jump enters no block. It enters no loop either, exactly when its target is no else, or is an else with a block between
it and the loop. -/
theorem jump_stays_in_scope (commands : CommandSet) (items : List Item) (program : Program)
    (hload : load commands items = .ok program) (target : LineId) :
    (∀ start b, program.script.isJumpValid start target = true → program.script.InBlock b target →
      program.script.InBlock b start) ∧
    ∀ l, program.script.InLoop l target →
      ((∀ start, program.script.isJumpValid start target = true → program.script.InLoop l start) ↔
        ((program.script.line target).action = .otherwise →
          ∃ b, (program.script.line target).parent = some b ∧ l < b)) := by
  obtain ⟨last, layout, h⟩ := laidOut_of_load hload
  refine ⟨fun start b hvalid hb => h.inBlock_of_isJumpValid hvalid hb, fun l hl => ⟨fun hstays helse => ?_, ?_⟩⟩
  · by_contra hlevel
    obtain ⟨-, r, -, hlt, -⟩ := hstays l (h.isJumpValid_of_else hl helse hlevel)
    exact Nat.lt_irrefl l hlt
  · exact fun helse start hvalid => h.inLoop_of_isJumpValid hvalid hl helse

/-- A loop over a condition with a labelled else, in braces if `braced` says so. What follows jumps to the label, or returns where
braces rule that out. -/
def elseInLoop (braced : Bool) : List Item :=
  let line (keyword : String) (args : List String) : Item :=
    .statement { keyword, args := args.map .plain, lineNo := 1 } []
  let condition := [line "IfLess" ["n", "1"], line "+=" ["n", "1"], .label "other" 1, line "else" [], line "Echo" ["x"]]
  line "Loop" ["3"] ::
    if braced then line "\x7b" [] :: condition ++ [line "\x7d" [], line "Return" []]
    else condition ++ [line "Goto" ["other"]]

/-- The program of `elseInLoop` with braces is loaded. -/
theorem elseInLoop_loads :
    (match load Standard.commands (elseInLoop true) with
    | .ok program =>
      (program.script.line 0).action == .loop && (program.script.line 0).related == some 7 &&
        (program.script.line 4).action == .otherwise && (program.script.line 4).parent == some 1 &&
        program.script.isJumpValid 5 4
    | .error _ => false) = true := by
  decide +kernel

/-- With braces, only lines of the loop may jump to the else. -/
theorem elseInLoop_stays :
    ∃ program, load Standard.commands (elseInLoop true) = .ok program ∧ program.script.InLoop 0 4 ∧
      (program.script.line 4).action = .otherwise ∧ program.script.isJumpValid 5 4 = true ∧
      ∀ start, program.script.isJumpValid start 4 = true → program.script.InLoop 0 start := by
  have hloads := elseInLoop_loads
  cases hload : load Standard.commands (elseInLoop true) with
  | error e => rw [hload] at hloads; cases hloads
  | ok program =>
    simp only [hload, Bool.and_eq_true, beq_iff_eq] at hloads
    obtain ⟨⟨⟨⟨hloop, hrelated⟩, helse⟩, hparent⟩, hvalid⟩ := hloads
    have hin : program.script.InLoop 0 4 := ⟨hloop, 7, hrelated, by decide, by decide⟩
    refine ⟨program, rfl, hin, helse, hvalid, ?_⟩
    exact ((jump_stays_in_scope Standard.commands (elseInLoop true) program hload 4).2 0 hin).mpr
      fun _ => ⟨1, hparent, Nat.zero_lt_one⟩

/-- The program of `elseInLoop` without braces is loaded. -/
theorem elseInLoop_loads_bare :
    (match load Standard.commands (elseInLoop false) with
    | .ok program =>
      (program.script.line 0).action == .loop && (program.script.line 0).related == some 5 &&
        (program.script.line 5).action == .goto && (program.script.line 5).note == .label 0 &&
        program.script.labels.target 0 == 3 && program.script.isJumpValid 5 3
    | .error _ => false) = true := by
  decide +kernel

/-- Without braces, a jump from outside the loop to the else in its body is accepted. -/
theorem jump_enters_loop :
    ∃ program, load Standard.commands (elseInLoop false) = .ok program ∧ (program.script.line 5).action = .goto ∧
      (program.script.line 5).note = .label 0 ∧ program.script.labels.target 0 = 3 ∧
      program.script.isJumpValid 5 3 = true ∧ program.script.InLoop 0 3 ∧ ¬ program.script.InLoop 0 5 := by
  have hloads := elseInLoop_loads_bare
  cases hload : load Standard.commands (elseInLoop false) with
  | error e => rw [hload] at hloads; cases hloads
  | ok program =>
    simp only [hload, Bool.and_eq_true, beq_iff_eq] at hloads
    obtain ⟨⟨⟨⟨⟨hloop, hrelated⟩, hgoto⟩, hnote⟩, htarget⟩, hvalid⟩ := hloads
    refine ⟨program, rfl, hgoto, hnote, htarget, hvalid, ⟨hloop, 5, hrelated, by decide, by decide⟩, ?_⟩
    rintro ⟨-, r, hr, -, hlt⟩
    obtain rfl : r = 5 := Option.some.inj (hr.symm.trans hrelated)
    exact Nat.lt_irrefl 5 hlt

end Program

end LineScript
