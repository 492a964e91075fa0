import LineScript.Timer
import Mathlib.Data.List.Induction
import Mathlib.Data.List.Nodup

/-!
# Timers that wait

A table of timers is told to change the timer of a label, and asked which timers are due, again and again at times that never go back
(`Timers.Call`). Whatever it was told, it has one timer for a label, with the schedule that was given last (`Timers.scheduleOf`), and
between two runs of a timer, and between its start and a run, its period goes by (`Timers.KeepsTime`).

Two facts carry this. Once a timer ran or was started, its clock shows no earlier time from then on (`Timers.Since`). And once it ran,
it is not to run and one-shot at the same time until it is enabled again (`Timers.Spent`).
-/

namespace LineScript

namespace Timers

/-- Something that a table of timers is told or asked at a time. -/
inductive Call where
  | set (label : LabelId) (setting : Timer.Setting) (defaultPeriod now : Nat)
  | due (now : Nat)

/-- When a call is made. -/
def Call.time : Call → Nat
  | set _ _ _ now | due now => now

/-- A call that enables the timer of a label. -/
def Call.Enables (label : LabelId) : Call → Prop
  | set l setting _ _ => l = label ∧ setting.enabled = true
  | due _ => False

/-- A table after one more call. -/
def answer (timers : Timers) : Call → Timers
  | .set label setting defaultPeriod now => timers.set label setting defaultPeriod now
  | .due now => timers.afterDue now

/-- A fresh table after some calls. -/
def after (calls : List Call) : Timers :=
  calls.foldl answer {}

/-- A timer runs when the table is asked at a time, after some calls. -/
def Fires (past : List Call) (now : Nat) (timer : Timer) : Prop :=
  timer ∈ (after past).due now

/-- A call that lets the period of a label's timer begin anew: it enables a timer that is not to run, or one with a schedule of its
own. -/
def Starts (timers : Timers) (label : LabelId) (setting : Timer.Setting) : Prop :=
  setting.enabled = true ∧ (setting.schedule.isSome ∨ ∀ timer, timers.get? label = some timer → timer.enabled = false)

/-- The schedule of a label's timer after some calls, if it has one: the one that was given last, and repeating after the default
period where none was. -/
def scheduleOf (label : LabelId) (calls : List Call) : Option Timer.Schedule :=
  calls.foldl (fun current call =>
    match call with
    | .set l setting defaultPeriod _ =>
      if l = label then some ((setting.schedule.or current).getD ⟨defaultPeriod, false⟩) else current
    | .due _ => current) none

/-- The timers of a table keep time during some calls. -/
structure KeepsTime (calls : List Call) : Prop where
  /-- There is at most one timer for a label. -/
  single : ∀ past, past <+: calls → ((after past).entries.map Timer.label).Nodup
  /-- A timer goes by the schedule that was given last. -/
  schedule_eq : ∀ past, past <+: calls → ∀ timer ∈ (after past).entries,
    scheduleOf timer.label past = some ⟨timer.period, timer.once⟩
  /-- A label is listed once at most, and only if its timer is to run. -/
  listed : ∀ past now, past <+: calls → (((after past).due now).map Timer.label).Nodup ∧
    ∀ timer, Fires past now timer → (after past).get? timer.label = some timer ∧ timer.enabled = true
  /-- Between two runs of a timer the period goes by that is in force at the second one. -/
  spaced : ∀ before between rest now now' timer timer',
    calls = before ++ .due now :: (between ++ .due now' :: rest) → Fires before now timer →
    Fires (before ++ .due now :: between) now' timer' → timer'.label = timer.label → now ≤ now' ∧ timer'.period ≤ now' - now
  /-- Between the start of a timer and a run the period goes by that is in force at the run. -/
  waited : ∀ before between rest label setting defaultPeriod now now' timer',
    calls = before ++ .set label setting defaultPeriod now :: (between ++ .due now' :: rest) →
    (after before).Starts label setting → Fires (before ++ .set label setting defaultPeriod now :: between) now' timer' →
    timer'.label = label → now ≤ now' ∧ timer'.period ≤ now' - now
  /-- Between two runs of a timer that is one-shot at one of them it is enabled. -/
  renewed : ∀ before between rest now now' timer timer',
    calls = before ++ .due now :: (between ++ .due now' :: rest) → Fires before now timer →
    Fires (before ++ .due now :: between) now' timer' → timer'.label = timer.label →
    timer.once = true ∨ timer'.once = true → ∃ call ∈ between, call.Enables timer.label

/-! ## What a call does to one timer -/

variable {timers : Timers} {label : LabelId}

/-- Timers that keep their labels are found by them. -/
theorem get?_map {f : Timer → Timer} (h : ∀ t, (f t).label = t.label) (timers : Timers) (label : LabelId) :
    (⟨timers.entries.map f⟩ : Timers).get? label = (timers.get? label).map f := by
  rw [get?, List.find?_map, get?]
  congr 2
  exact funext fun t => by rw [Function.comp_apply, h]

/-- Changing timers that keep their labels changes no label. -/
theorem labels_map {f : Timer → Timer} (h : ∀ t, (f t).label = t.label) (timers : Timers) :
    (timers.entries.map f).map Timer.label = timers.entries.map Timer.label := by
  rw [List.map_map]
  exact List.map_congr_left fun t _ => h t

/-- Changing the setting of a timer keeps its label. -/
theorem label_changed (label : LabelId) (setting : Timer.Setting) (now : Nat) (t : Timer) :
    (if t.label == label then t.change setting now else t).label = t.label := by
  split <;> rfl

/-- Running a timer that is due keeps its label. -/
theorem label_ran (now : Nat) (t : Timer) : (if t.isDue now then t.ran now else t).label = t.label := by
  split <;> rfl

/-- Where a label has a timer, setting it changes that timer in its place. -/
theorem set_known {timer : Timer} (h : timers.get? label = some timer) (setting : Timer.Setting) (defaultPeriod now : Nat) :
    timers.set label setting defaultPeriod now =
      ⟨timers.entries.map fun t => if t.label == label then t.change setting now else t⟩ := by
  simp only [set, h]

/-- Where a label has no timer, setting it adds a new one at the end. -/
theorem set_new (h : timers.get? label = none) (setting : Timer.Setting) (defaultPeriod now : Nat) :
    timers.set label setting defaultPeriod now =
      ⟨timers.entries ++ [({ label, period := defaultPeriod, lastRun := now } : Timer).change setting now]⟩ := by
  simp only [set, h]

/-- The timer of a label is changed, or made first. -/
theorem get?_set (timers : Timers) (l label : LabelId) (setting : Timer.Setting) (defaultPeriod now : Nat) :
    (timers.set l setting defaultPeriod now).get? label =
      if l = label then
        some (((timers.get? label).getD { label, period := defaultPeriod, lastRun := now }).change setting now)
      else timers.get? label := by
  have hlabel {label : LabelId} {t : Timer} (h : timers.get? label = some t) : t.label = label := by
    simpa using List.find?_some h
  cases hset : timers.get? l with
  | some _ =>
    rw [set_known hset, get?_map (label_changed l setting now)]
    cases hget : timers.get? label with
    | some t =>
      by_cases hl : l = label
      · simp [hlabel hget, hl]
      · simp [hlabel hget, hl, Ne.symm hl]
    | none =>
      have hl : l ≠ label := by
        rintro rfl
        cases hset.symm.trans hget
      rw [if_neg hl]
      rfl
  | none =>
    rw [set_new hset, get?, List.find?_append]
    by_cases hl : l = label
    · have hnone : timers.entries.find? (·.label == label) = none := hl ▸ hset
      simp [get?, hnone, hl, Timer.change]
    · simp [get?, hl, Timer.change]

/-- Timers that are due run, the others stay as they are. -/
theorem get?_afterDue (timers : Timers) (now : Nat) (label : LabelId) :
    (timers.afterDue now).get? label = (timers.get? label).map fun t => if t.isDue now then t.ran now else t :=
  get?_map (label_ran now) timers label

/-- A change is made to the timer of a label where there is one, so there is never a second. -/
theorem nodup_answer (h : (timers.entries.map Timer.label).Nodup) (call : Call) :
    ((timers.answer call).entries.map Timer.label).Nodup := by
  cases call with
  | set label setting defaultPeriod now =>
    cases hget : timers.get? label with
    | some _ =>
      rw [answer, set_known hget, labels_map (label_changed label setting now)]
      exact h
    | none =>
      have hnew : ∀ t ∈ timers.entries, t.label ≠ label := by
        simpa [get?] using hget
      rw [answer, set_new hget, List.map_append, List.nodup_append]
      refine ⟨h, List.nodup_singleton _, ?_⟩
      simpa [Timer.change] using hnew
  | due now =>
    rw [answer, afterDue, labels_map (label_ran now)]
    exact h

/-- After any calls, no label has two timers. -/
theorem nodup_after (calls : List Call) : ((after calls).entries.map Timer.label).Nodup :=
  List.foldlRecOn (motive := fun timers : Timers => (timers.entries.map Timer.label).Nodup) calls answer List.nodup_nil
    fun _ h call _ => nodup_answer h call

/-- Where there is one timer for a label, each is found by its own. -/
theorem get?_of_mem (h : (timers.entries.map Timer.label).Nodup) {timer : Timer} (hmem : timer ∈ timers.entries) :
    timers.get? timer.label = some timer := by
  cases hget : timers.get? timer.label with
  | none => simpa using List.find?_eq_none.mp hget timer hmem
  | some other =>
    have hlabel : other.label = timer.label := by simpa using List.find?_some hget
    rw [List.inj_on_of_nodup_map h (List.mem_of_find?_eq_some hget) hmem hlabel]

/-- What fires is the timer of its label, and it is to run and waited for its period. -/
theorem Fires.spec {past : List Call} {now : Nat} {timer : Timer} (h : Fires past now timer) :
    (after past).get? timer.label = some timer ∧ timer.enabled = true ∧ timer.period ≤ now - timer.lastRun := by
  obtain ⟨hmem, hdue⟩ := List.mem_filter.mp h
  rw [Timer.isDue, Bool.and_eq_true, decide_eq_true_eq] at hdue
  exact ⟨get?_of_mem (nodup_after past) hmem, hdue⟩

/-- What fires has run when the call is over. -/
theorem Fires.get?_after {past : List Call} {now : Nat} {timer : Timer} (h : Fires past now timer) :
    (after (past ++ [.due now])).get? timer.label = some (timer.ran now) := by
  have hdue : timer.isDue now = true := (List.mem_filter.mp h).2
  have hcall : after (past ++ [.due now]) = (after past).afterDue now := by rw [after, List.foldl_append]; rfl
  rw [hcall, get?_afterDue, h.spec.1, Option.map_some, if_pos hdue]

/-- A timer that is started, or made, begins its period then. -/
theorem Starts.lastRun_eq {setting : Timer.Setting} (h : timers.Starts label setting) (defaultPeriod now : Nat) :
    (((timers.get? label).getD { label, period := defaultPeriod, lastRun := now }).change setting now).lastRun = now := by
  obtain ⟨hon, hanew⟩ := h
  have hclock (t : Timer) (ht : t.enabled = false ∨ setting.schedule.isSome) : (t.change setting now).lastRun = now := by
    rcases ht with ht | ht <;> simp [Timer.change, hon, ht]
  cases hget : timers.get? label with
  | none => exact hclock _ (.inl rfl)
  | some old => exact hclock old (hanew.elim .inr fun hoff => .inl (hoff old hget))

/-! ## What a run of calls keeps -/

/-- The clock of a label's timer shows no time before `since`. -/
def Since (since : Nat) (label : LabelId) (timers : Timers) : Prop :=
  ∀ timer, timers.get? label = some timer → since ≤ timer.lastRun

/-- The timer of a label is not both to run and one-shot, and not to run at all if `once` holds. -/
def Spent (once : Bool) (label : LabelId) (timers : Timers) : Prop :=
  ∀ timer, timers.get? label = some timer → timer.enabled = true → timer.once = false ∧ once = false

/-- A clock that shows no time before `since` still does so after a call that is not made before then. -/
theorem Since.answer {since : Nat} (h : Since since label timers) {call : Call} (htime : since ≤ call.time) :
    Since since label (timers.answer call) := by
  intro timer hget
  cases call with
  | set l setting defaultPeriod now =>
    rw [Timers.answer, get?_set] at hget
    split at hget
    · obtain rfl := Option.some.inj hget
      unfold Timer.change
      dsimp only
      split
      · exact htime
      · cases hold : timers.get? label with
        | none => exact htime
        | some old => exact h old hold
    · exact h timer hget
  | due now =>
    rw [Timers.answer, get?_afterDue] at hget
    obtain ⟨old, hold, rfl⟩ := Option.map_eq_some_iff.mp hget
    split
    · exact htime
    · exact h old hold

/-- A spent timer stays spent during a call that does not enable it. -/
theorem Spent.answer {once : Bool} (h : Spent once label timers) {call : Call} (hcall : ¬ call.Enables label) :
    Spent once label (timers.answer call) := by
  intro timer hget hon
  cases call with
  | set l setting defaultPeriod now =>
    rw [Timers.answer, get?_set] at hget
    split at hget
    · rename_i hl
      obtain rfl := Option.some.inj hget
      exact absurd ⟨hl, hon⟩ hcall
    · exact h timer hget hon
  | due now =>
    rw [Timers.answer, get?_afterDue] at hget
    obtain ⟨old, hold, rfl⟩ := Option.map_eq_some_iff.mp hget
    by_cases hdue : old.isDue now = true
    · rw [if_pos hdue]
      exact h old hold (Bool.and_eq_true_iff.mp hdue).1
    · rw [if_neg hdue] at hon ⊢
      exact h old hold hon

/-- A run of calls keeps what each of them keeps. -/
theorem after_append {P : Timers → Prop} {past calls : List Call} (h : P (after past))
    (hcall : ∀ timers, ∀ call ∈ calls, P timers → P (timers.answer call)) : P (after (past ++ calls)) := by
  rw [after, List.foldl_append]
  exact List.foldlRecOn calls answer h fun timers h call hmem => hcall timers call hmem h

/-- The schedule that a timer is set to. -/
theorem schedule_change (timer : Timer) (setting : Timer.Setting) (now : Nat) :
    (⟨(timer.change setting now).period, (timer.change setting now).once⟩ : Timer.Schedule) =
      setting.schedule.getD ⟨timer.period, timer.once⟩ := by
  obtain ⟨_, _ | _, _⟩ := setting <;> rfl

/-- The timer of a label has the schedule that was given last. -/
theorem schedule_after (label : LabelId) (calls : List Call) :
    ((after calls).get? label).map (fun timer => (⟨timer.period, timer.once⟩ : Timer.Schedule)) = scheduleOf label calls := by
  induction calls using List.reverseRecOn with
  | nil => rfl
  | append_singleton calls call ih =>
    rw [after, List.foldl_concat, scheduleOf, List.foldl_concat, ← scheduleOf, ← after, ← ih]
    cases call with
    | set l setting defaultPeriod now =>
      rw [answer, get?_set]
      by_cases hl : l = label
      · rw [if_pos hl, Option.map_some, schedule_change]
        obtain ⟨_, _ | _, _⟩ := setting <;> cases (after calls).get? label <;> simp [hl]
      · simp only [if_neg hl]
    | due now =>
      rw [answer, get?_afterDue, Option.map_map]
      congr 1
      exact funext fun t => by rw [Function.comp_apply]; split <;> rfl

/-! ## Keeping time -/

/-- The calls between two are made between their times. -/
theorem le_time {before between rest : List Call} {first second : Call}
    (h : (before ++ first :: (between ++ second :: rest)).Pairwise fun a b => a.time ≤ b.time) :
    first.time ≤ second.time ∧ ∀ call ∈ between, first.time ≤ call.time := by
  obtain ⟨hfirst, -⟩ := List.pairwise_cons.mp (List.pairwise_append.mp h).2.1
  exact ⟨hfirst second (by simp), fun call hcall => hfirst call (by simp [hcall])⟩

/-- A timer whose clock was set at a time runs when its period went by since. -/
theorem Fires.period_le {past between : List Call} {since now : Nat} {timer : Timer}
    (hsince : Since since timer.label (after past)) (hbetween : ∀ call ∈ between, since ≤ call.time)
    (h : Fires (past ++ between) now timer) : timer.period ≤ now - since := by
  obtain ⟨hget, -, hperiod⟩ := h.spec
  have hlast : since ≤ timer.lastRun :=
    after_append (P := Since since timer.label) hsince (fun _ call hcall h => h.answer (hbetween call hcall)) timer hget
  exact Nat.le_trans hperiod (Nat.sub_le_sub_left hlast now)

/-- At times that never go back the timers of a table never run early or twice: a label has one timer, which is listed only where it is
to run, waits for its period after each run and each start, and runs again after it was one-shot only where it was enabled again. -/
theorem keepsTime (calls : List Call) (h : calls.Pairwise fun a b => a.time ≤ b.time) : KeepsTime calls where
  single past _ := nodup_after past
  schedule_eq past _ timer hmem := by
    rw [← schedule_after, get?_of_mem (nodup_after past) hmem]
    rfl
  listed past now _ :=
    ⟨(nodup_after past).sublist (List.filter_sublist.map Timer.label), fun timer hfires => ⟨hfires.spec.1, hfires.spec.2.1⟩⟩
  spaced before between rest now now' timer timer' hcalls hfires hfires' hlabel := by
    obtain ⟨hle, hbetween⟩ := le_time (hcalls ▸ h)
    rw [List.append_cons] at hfires'
    refine ⟨hle, hfires'.period_le ?_ hbetween⟩
    intro ran hget
    rw [hlabel, hfires.get?_after] at hget
    obtain rfl := Option.some.inj hget
    exact Nat.le_refl now
  waited before between rest label setting defaultPeriod now now' timer' hcalls hstarts hfires' hlabel := by
    obtain ⟨hle, hbetween⟩ := le_time (hcalls ▸ h)
    rw [List.append_cons] at hfires'
    refine ⟨hle, hfires'.period_le ?_ hbetween⟩
    intro started hget
    have hcall : after (before ++ [.set label setting defaultPeriod now]) =
        (after before).set label setting defaultPeriod now := List.foldl_concat ..
    rw [hcall, hlabel, get?_set, if_pos rfl] at hget
    obtain rfl := Option.some.inj hget
    exact Nat.le_of_eq (hstarts.lastRun_eq defaultPeriod now).symm
  renewed before between rest now now' timer timer' hcalls hfires hfires' hlabel honce := by
    by_contra hnone
    have hnone : ∀ call ∈ between, ¬ call.Enables timer.label := fun call hcall henables => hnone ⟨call, hcall, henables⟩
    have hspent : Spent timer.once timer.label (after (before ++ [.due now])) := by
      intro ran hget hon
      rw [hfires.get?_after] at hget
      obtain rfl := Option.some.inj hget
      have honce : timer.once = false := by simpa [Timer.ran] using hon
      exact ⟨honce, honce⟩
    rw [List.append_cons] at hfires'
    have hlater : Spent timer.once timer.label (after (before ++ [.due now] ++ between)) :=
      after_append (P := Spent timer.once timer.label) hspent fun _ call hcall h => h.answer (hnone call hcall)
    obtain ⟨hget, hon, -⟩ := hfires'.spec
    obtain ⟨hother, hone⟩ := hlater timer' (hlabel ▸ hget) hon
    rw [hother, hone] at honce
    exact absurd honce (by decide)

/-- A timer that is stopped, started again as a one-shot with another period, asked too early, and enabled once more; and another one
with the default period. -/
def rearmed : List Call := [
  .set 0 { enabled := true, schedule := some ⟨50, false⟩ } 250 0, .due 60, .set 1 { enabled := true } 40 65,
  .set 0 { enabled := false } 250 70, .set 0 { enabled := true, schedule := some ⟨30, true⟩ } 250 80, .due 100, .due 110,
  .due 200, .set 0 { enabled := true } 250 210, .due 245]

/-- It runs at 60, at 110 and at 245. -/
theorem keepsTime_rearmed :
    rearmed.Pairwise (fun a b => a.time ≤ b.time) ∧ KeepsTime rearmed ∧
      Fires (rearmed.take 1) 60 { label := 0, period := 50, enabled := true, lastRun := 0 } ∧
      Fires (rearmed.take 6) 110 { label := 0, period := 30, enabled := true, once := true, lastRun := 80 } ∧
      Fires (rearmed.take 9) 245 { label := 0, period := 30, enabled := true, once := true, lastRun := 210 } ∧
      30 ≤ 110 - 60 ∧ 30 ≤ 110 - 80 ∧ ∃ call ∈ (rearmed.take 9).drop 7, call.Enables 0 := by
  have hkeeps := keepsTime rearmed (by decide)
  have hfirst : Fires (rearmed.take 1) 60 { label := 0, period := 50, enabled := true, lastRun := 0 } := by
    unfold Fires
    decide
  have hsecond : Fires (rearmed.take 6) 110 { label := 0, period := 30, enabled := true, once := true, lastRun := 80 } := by
    unfold Fires
    decide
  have hthird : Fires (rearmed.take 9) 245 { label := 0, period := 30, enabled := true, once := true, lastRun := 210 } := by
    unfold Fires
    decide
  have hspaced := hkeeps.spaced (rearmed.take 1) ((rearmed.take 6).drop 2) (rearmed.drop 7) 60 110 _ _ rfl hfirst hsecond rfl
  have hstarts : (after (rearmed.take 4)).Starts 0 { enabled := true, schedule := some ⟨30, true⟩ } := ⟨rfl, .inl rfl⟩
  have hwaited := hkeeps.waited (rearmed.take 4) [.due 100] (rearmed.drop 7) 0 _ 250 80 110 _ rfl hstarts hsecond rfl
  have hrenewed := hkeeps.renewed (rearmed.take 6) ((rearmed.take 9).drop 7) [] 110 245 _ _ rfl hsecond hthird rfl (.inl rfl)
  exact ⟨by decide, hkeeps, hfirst, hsecond, hthird, hspaced.2, hwaited.2, hrenewed⟩

end Timers

end LineScript
