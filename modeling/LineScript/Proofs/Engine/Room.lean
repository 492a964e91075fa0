import Mathlib.Algebra.Ring.Nat
import LineScript.Expansion
import LineScript.Proofs.Load.References

/-!
# Room for expanded texts

What the arguments of a loaded line are reckoned to take up before they are written is what they take up (`totalSize_eq`). So
texts are written only where room was reserved, the scratch buffer only grows and never beyond its ceiling (`Scratch.Grows`),
and whether a line gets its room depends on the texts that are held and not on how far the buffer has grown before
(`Scratch.reserve_eq`).
-/

namespace LineScript

namespace Expansion

open Text

/-- What one argument adds to the scratch buffer, in bytes. -/
def heldSize : Expanded → Nat
  | .output _ => 0
  | arg => arg.toText.utf8ByteSize

/-- A text with its references replaced has the size that was reckoned. -/
theorem size_fill {start : Nat} {cs : List Char} {derefs : List Deref} (h : Deref.Sited start cs derefs)
    (values : List Value) (n : Nat) :
    (derefs.zip values).foldl (fun n (d, v) => n + v.size - d.size) (n + byteSize cs) =
      n + (fill start cs (derefs.zip values)).utf8ByteSize := by
  induction h generalizing values n with
  | nil => rw [List.zip_nil_left, List.foldl_nil, fill, utf8ByteSize_ofList]
  | @cons start lead name cs target rest h ih =>
    cases values with
    | nil => rw [List.zip_nil_right, List.foldl_nil, fill, utf8ByteSize_ofList]
    | cons v values =>
      have hlead : start + byteSize lead - start = byteSize lead := Nat.add_sub_cancel_left _ _
      have hsum : n + byteSize (lead ++ (name ++ cs)) + v.size - byteSize name =
          n + byteSize lead + v.size + byteSize cs := by
        rw [byteSize_append, byteSize_append]
        omega
      rw [List.zip_cons_cons, List.foldl_cons, fill]
      simp only [hlead, cut?_append, Option.getD_some, hsum]
      rw [ih, String.utf8ByteSize_append, String.utf8ByteSize_append, utf8ByteSize_ofList, Deref.stop]
      simp only [Value.size]
      omega

/-- An argument with its values looked up as they may be filled in: those of a free text stand in it, and a place for a variable
that names none has neither values nor text. -/
def Fits : Arg × Planned → Prop
  | (arg, .text values) =>
    arg.kind = .text ∧ Deref.Sited 0 arg.text.toList arg.derefs ∨ arg.kind ≠ .text ∧ arg.text = "" ∧ values = []
  | _ => True

/-- One argument takes up what was reckoned for it. -/
theorem addSize_eq {planned : Arg × Planned} (h : Fits planned) (needed : Nat) :
    addSize needed planned = needed + heldSize (write planned) := by
  obtain ⟨arg, planned⟩ := planned
  cases planned with
  | output | input | expr => rfl
  | text values =>
    rcases h with ⟨hkind, hsited⟩ | ⟨hkind, htext, rfl⟩
    · have hfill := size_fill hsited values needed
      rw [byteSize_toList] at hfill
      simp only [addSize, hkind]
      exact hfill
    · have hnone : addSize needed (arg, .text []) = needed := by
        cases hread : arg.kind with
        | text => exact absurd hread hkind
        | input | output => simp only [addSize, hread]
      rw [hnone, write, htext, List.zip_nil_right]
      rfl

/-- All arguments together take up what was reckoned for them. -/
theorem totalSize_eq {planned : List (Arg × Planned)} (h : ∀ p ∈ planned, Fits p) :
    totalSize planned = ((planned.map write).map heldSize).sum := by
  have hfold (planned : List (Arg × Planned)) (h : ∀ p ∈ planned, Fits p) (needed : Nat) :
      planned.foldl addSize needed = needed + ((planned.map write).map heldSize).sum := by
    induction planned generalizing needed with
    | nil => rfl
    | cons p rest ih =>
      rw [List.foldl_cons, addSize_eq (h p List.mem_cons_self), ih fun p hp => h p (List.mem_cons_of_mem _ hp),
        List.map_cons, List.map_cons, List.sum_cons, Nat.add_assoc]
  rw [totalSize, hfold planned h, Nat.zero_add]

/-- An argument that refers to what it names fits when it is planned. -/
theorem fits_plan {view : View} {vars vars' : Variables} {arg : Arg} {planned : Planned} {n : Nat} (harg : arg.Refers n)
    (h : plan view vars arg = .ok (vars', planned)) : Fits (arg, planned) := by
  unfold plan at h
  split at h
  · split at h
    · cases h
      trivial
    · split at h
      · cases h
      · cases h
        trivial
  · rename_i hkind
    split at h
    · rename_i hvar
      cases h
      have hnone : arg.derefs = [] := by
        rw [Arg.var?, hkind] at hvar
        exact List.head?_eq_none_iff.mp (Option.map_eq_none_iff.mp hvar)
      have hname : arg.kind ≠ .text := by rw [hkind]; nofun
      exact .inr ⟨hname, harg.blank hname hnone, rfl⟩
    · split at h
      · cases h
      · cases h
        trivial
  · rename_i hkind
    split at h
    · obtain ⟨v, -, h⟩ := map_eq_ok h
      cases h
      trivial
    · rename_i hexpr
      obtain ⟨vs, -, h⟩ := map_eq_ok h
      cases h
      exact .inl ⟨hkind, harg.sited hkind (Bool.eq_false_iff.mpr hexpr)⟩

/-- Arguments that refer to what they name fit when they are planned. -/
theorem fits_planAll {view : View} {vars vars' : Variables} {args : List Arg} {planned : List (Arg × Planned)} {n : Nat}
    (hargs : ∀ arg ∈ args, arg.Refers n) (h : planAll view vars args = (vars', .ok planned)) : ∀ p ∈ planned, Fits p := by
  induction args generalizing vars planned with
  | nil =>
    cases h
    exact nofun
  | cons arg rest ih =>
    unfold planAll at h
    split at h
    · cases h
    · rename_i vars₁ p hplan
      split at h
      · cases h
      · rename_i vars₂ ps hrest
        cases h
        intro q hq
        rcases List.mem_cons.mp hq with rfl | hq
        · exact fits_plan (hargs arg List.mem_cons_self) hplan
        · exact ih (fun arg harg => hargs arg (List.mem_cons_of_mem _ harg)) hrest q hq

end Expansion

namespace Expansion

theorem limit_reserve {scratch scratch' : Scratch} {additional : Nat} (h : scratch.reserve additional = .ok scratch') :
    scratch'.limit = scratch.limit := by
  simp only [Scratch.reserve] at h
  split at h
  · cases h
    rfl
  · split at h
    · cases h
    · cases h
      rfl

theorem limit_hold (scratch : Scratch) (args : ExpandedArgs) : (hold scratch args).limit = scratch.limit := by
  unfold hold
  induction args generalizing scratch with
  | nil => rfl
  | cons arg rest ih =>
    rw [List.foldl_cons, ih]
    cases arg <;> rfl

end Expansion

namespace Scratch

/-- The capacity is within the ceiling, wherever there is one below what can be addressed. -/
def Room (s : Scratch) : Prop :=
  s.limit < wordLimit → s.capacity ≤ s.limit

/-- The size of a buffer is that of its pieces. -/
theorem size_eq (s : Scratch) : s.size = (s.pieces.map String.utf8ByteSize).sum := by
  rw [size, List.sum_eq_foldl, List.foldl_map]

theorem size_push (s : Scratch) (text : String) : (s.push text).size = s.size + text.utf8ByteSize := by
  rw [size_eq, size_eq, push, List.map_cons, List.sum_cons, Nat.add_comm]

/-- Texts that are written add the bytes they are held in. -/
theorem size_hold (s : Scratch) (args : ExpandedArgs) :
    (Expansion.hold s args).size = s.size + (args.map Expansion.heldSize).sum := by
  induction args generalizing s with
  | nil => rfl
  | cons arg rest ih =>
    rw [List.map_cons, List.sum_cons]
    cases arg with
    | output var =>
      rw [Expansion.heldSize, Nat.zero_add]
      exact ih s
    | text | expr | input => rw [← Nat.add_assoc, Expansion.heldSize, ← size_push] <;> first | exact ih _ | nofun

theorem contents_push (s : Scratch) (text : String) : (s.push text).contents = s.contents ++ text := by
  have hfold (pieces : List String) (last : String) :
      pieces.foldl (fun text piece => piece ++ text) last = pieces.foldl (fun text piece => piece ++ text) "" ++ last := by
    induction pieces generalizing last with
    | nil => simp
    | cons piece rest ih =>
      rw [List.foldl_cons, List.foldl_cons, ih, ih (piece ++ ""), String.append_empty, String.append_assoc]
  rw [push, contents, contents, List.foldl_cons, hfold, String.append_empty]

/-- Room is made wherever the ceiling is not passed, and the text held stays. -/
theorem reserve_of_le {s : Scratch} {additional : Nat} (h : s.size + additional ≤ s.limit) :
    ∃ s', s.reserve additional = .ok s' ∧ s'.pieces = s.pieces := by
  have hlimit : ¬ s.limit < min wordLimit (s.size + additional) := by omega
  simp only [reserve, if_neg hlimit]
  split
  · exact ⟨s, rfl, rfl⟩
  · exact ⟨_, rfl, rfl⟩

/-- Writing where room was reserved leaves the capacity. -/
theorem capacity_hold {s : Scratch} {args : ExpandedArgs} (h : s.size + (args.map Expansion.heldSize).sum ≤ s.capacity) :
    (Expansion.hold s args).capacity = s.capacity := by
  induction args generalizing s with
  | nil => rfl
  | cons arg rest ih =>
    rw [List.map_cons, List.sum_cons] at h
    have hpush (text : String) (hsize : s.size + (text.utf8ByteSize + (rest.map Expansion.heldSize).sum) ≤ s.capacity) :
        (Expansion.hold (s.push text) rest).capacity = s.capacity := by
      have hcapacity : (s.push text).capacity = s.capacity := if_pos (by omega)
      rw [ih (by rw [hcapacity, size_push]; omega), hcapacity]
    cases arg with
    | output var =>
      rw [Expansion.heldSize, Nat.zero_add] at h
      exact ih h
    | text | expr | input => exact hpush _ h

/-- Room is made exactly up to the ceiling, however large the buffer has grown before. -/
theorem reserve_eq {s : Scratch} (hroom : s.Room) (additional : Nat) :
    s.reserve additional =
      if s.limit < min wordLimit (s.size + additional) then
        .error (.outOfMemory (min wordLimit (s.size + additional)) s.limit)
      else .ok { s with
        capacity := if min wordLimit (s.size + additional) ≤ s.capacity then s.capacity
          else min (powerOfTwo (min wordLimit (s.size + additional))) s.limit } := by
  simp only [reserve]
  by_cases hfits : min wordLimit (s.size + additional) ≤ s.capacity
  · have hlimit : ¬ s.limit < min wordLimit (s.size + additional) := by
      intro hlt
      have hle := hroom (Nat.lt_of_lt_of_le hlt (Nat.min_le_left _ _))
      omega
    rw [if_pos hfits, if_neg hlimit, if_pos hfits]
  · rw [if_neg hfits, if_neg hfits]

/-- Doubling often enough comes to any number. -/
theorem le_powerFrom {fuel p n : Nat} (h : n ≤ p * 2 ^ fuel) : n ≤ powerFrom fuel p n := by
  induction fuel generalizing p with
  | zero => simpa [powerFrom] using h
  | succ fuel ih =>
    rw [powerFrom]
    split
    · assumption
    · exact ih (by rw [Nat.pow_succ] at h; rw [Nat.mul_comm 2 p, Nat.mul_assoc, Nat.mul_comm 2]; exact h)

/-- The next power of two is not below a number. -/
theorem le_powerOfTwo (n : Nat) : n ≤ powerOfTwo n := by
  refine le_powerFrom ?_
  have hlog := Nat.lt_log2_self (n := n)
  rw [Nat.one_mul, Nat.pow_succ]
  omega

/-- What the numbers of bytes are that a ceiling is for. Below the greatest word that is all of them, for sums beyond a word are
beyond the ceiling too; at the greatest word it is those that a word can tell. -/
def Countable (limit n : Nat) : Prop :=
  limit < wordLimit ∨ n ≤ wordLimit

section

variable {s s' : Scratch} {additional : Nat} (h : s.reserve additional = .ok s')
include h

/-- Reserving room leaves the pieces. -/
theorem pieces_reserve : s'.pieces = s.pieces := by
  simp only [reserve] at h
  split at h
  · cases h
    rfl
  · split at h
    · cases h
    · cases h
      rfl

/-- Reserving room never shrinks the buffer. -/
theorem capacity_le_reserve : s.capacity ≤ s'.capacity := by
  have hpower := le_powerOfTwo (min wordLimit (s.size + additional))
  simp only [reserve] at h
  split at h
  · cases h
    exact Nat.le_refl _
  · split at h
    · cases h
    · cases h
      dsimp only
      omega

/-- After room was reserved the buffer has room for what it holds. -/
theorem room_reserve (hroom : s.Room) : s'.Room := by
  rw [reserve_eq hroom] at h
  split at h
  · cases h
  · cases h
    intro hword
    dsimp only
    split
    · exact hroom hword
    · exact Nat.min_le_right _ _

/-- Room that was made is there. -/
theorem le_capacity_of_reserve (hroom : s.Room) (hcount : Countable s.limit (s.size + additional)) :
    s.size + additional ≤ s'.capacity := by
  have hpower := le_powerOfTwo (min wordLimit (s.size + additional))
  rw [reserve_eq hroom] at h
  split at h
  · cases h
  · rename_i hlimit
    cases h
    have hneeded : min wordLimit (s.size + additional) = s.size + additional := by
      rcases hcount with hcount | hcount <;> omega
    rw [hneeded] at hlimit hpower ⊢
    dsimp only
    split <;> omega

end

/-- What becomes of the buffer: its ceiling stays, its capacity does not shrink, and what it holds stays within its capacity and
that within the ceiling. -/
structure Grows (s s' : Scratch) : Prop where
  limit_eq : s'.limit = s.limit
  capacity_le : s.capacity ≤ s'.capacity
  size_le : s.size ≤ s.capacity → s'.size ≤ s'.capacity
  room : s.Room → s'.Room

theorem Grows.refl (s : Scratch) : s.Grows s :=
  ⟨rfl, Nat.le_refl _, fun h => h, fun h => h⟩

theorem Grows.trans {a b c : Scratch} (hab : a.Grows b) (hbc : b.Grows c) : a.Grows c :=
  ⟨hbc.limit_eq.trans hab.limit_eq, Nat.le_trans hab.capacity_le hbc.capacity_le, fun h => hbc.size_le (hab.size_le h),
    fun h => hbc.room (hab.room h)⟩

/-- Giving texts back never shrinks the buffer. -/
theorem grows_release (s : Scratch) (mark : Nat) : s.Grows (s.release mark) := by
  refine ⟨rfl, Nat.le_refl _, fun h => Nat.le_trans ?_ h, fun h => h⟩
  have hsplit := congrArg List.sum (List.take_append_drop (s.pieces.length - mark) (s.pieces.map String.utf8ByteSize))
  rw [List.sum_append] at hsplit
  rw [size_eq, size_eq, release, List.map_drop, ← hsplit]
  exact Nat.le_add_left _ _

/-- Writing never shrinks the buffer, and makes room where there is none. -/
theorem capacity_le_hold (s : Scratch) (args : ExpandedArgs) :
    s.capacity ≤ (Expansion.hold s args).capacity ∧
      (s.size ≤ s.capacity → (Expansion.hold s args).size ≤ (Expansion.hold s args).capacity) := by
  induction args generalizing s with
  | nil => exact ⟨Nat.le_refl _, fun h => h⟩
  | cons arg rest ih =>
    have hpush (text : String) : s.capacity ≤ (s.push text).capacity ∧ (s.push text).size ≤ (s.push text).capacity := by
      rw [size_push, push]
      dsimp only
      split <;> omega
    have hrest (text : String) : s.capacity ≤ (Expansion.hold (s.push text) rest).capacity ∧
        (s.size ≤ s.capacity →
          (Expansion.hold (s.push text) rest).size ≤ (Expansion.hold (s.push text) rest).capacity) :=
      ⟨Nat.le_trans (hpush text).1 (ih _).1, fun _ => (ih _).2 (hpush text).2⟩
    cases arg with
    | output var => exact ih s
    | text | expr | input => exact hrest _

/-- Texts that have their room reserved are written within the ceiling. -/
theorem grows_hold {s s' : Scratch} {args : ExpandedArgs} (h : s.reserve (args.map Expansion.heldSize).sum = .ok s') :
    s.Grows (Expansion.hold s' args) := by
  have hsize : s'.size = s.size := by rw [size, size, pieces_reserve h]
  have hlimit := Expansion.limit_reserve h
  have hcapacity := capacity_le_reserve h
  obtain ⟨hhold, hheld⟩ := capacity_le_hold s' args
  refine ⟨(Expansion.limit_hold s' args).trans hlimit, Nat.le_trans hcapacity hhold, fun hfits => hheld (by omega), ?_⟩
  intro hroom hword
  rw [Expansion.limit_hold] at hword ⊢
  rw [capacity_hold (hsize ▸ le_capacity_of_reserve h hroom (.inl (hlimit ▸ hword)))]
  exact room_reserve h hroom hword

end Scratch

/-- Arguments that were looked up are expanded wherever they fit under the ceiling. -/
theorem Expansion.expand_of_le {view : View} {vars vars' : Variables} {scratch : Scratch} {line : Line}
    {planned : List (Arg × Planned)} (hplan : planAll view vars line.args = (vars', .ok planned))
    (hfits : ∀ p ∈ planned, Fits p)
    (hroom : scratch.size + ((planned.map write).map heldSize).sum ≤ scratch.limit) :
    ∃ grown : Scratch, grown.pieces = scratch.pieces ∧
      expand view vars scratch line = (vars', .ok (hold grown (planned.map write), planned.map write)) := by
  rw [← totalSize_eq hfits] at hroom
  obtain ⟨grown, hreserve, hpieces⟩ := Scratch.reserve_of_le hroom
  exact ⟨grown, hpieces, by simp only [expand, hplan, hreserve]⟩

end LineScript
