import LineScript.Text.Utf8

/-!
# Bytes of characters

Reading the bytes of some characters gives the characters back (`Utf8.read_encode`). Where bytes are cut before one that starts a
character, no character is cut (`Utf8.exists_encode_of_append`). Bytes that are no characters are made up for: reading any bytes
gives at least one character for each byte that starts one, and one more where the first byte goes on with a character
(`Utf8.starts_le_read`).
-/

namespace LineScript

namespace Utf8

/-! ## Characters that were written -/

/-- The bytes of some characters. -/
def encode (cs : List Char) : List UInt8 :=
  cs.flatMap String.utf8EncodeChar

/-- A byte that goes on with a character. -/
def Continues (b : UInt8) : Prop :=
  0x80 ≤ b.toNat ∧ b.toNat < 0xC0

instance (b : UInt8) : Decidable (Continues b) :=
  inferInstanceAs (Decidable (0x80 ≤ b.toNat ∧ b.toNat < 0xC0))

/-- The bytes of a text are the UTF-8 forms of its characters. -/
theorem toUTF8_data (s : String) : s.toUTF8.data.toList = encode s.toList := by
  rw [String.toUTF8_eq_toByteArray, ← String.utf8Encode_toList, List.utf8Encode, List.toList_data_toByteArray]
  rfl

theorem encode_append (cs ds : List Char) : encode (cs ++ ds) = encode cs ++ encode ds :=
  List.flatMap_append

theorem encode_cons (c : Char) (cs : List Char) : encode (c :: cs) = String.utf8EncodeChar c ++ encode cs :=
  List.flatMap_cons

/-- The code point of a character leaves out the surrogates. -/
theorem toNat_bounds (c : Char) : c.toNat < 0xD800 ∨ 0xDFFF < c.toNat ∧ c.toNat < 0x110000 :=
  c.valid

/-- The bytes of a character by the number of its bits. -/
theorem encodeChar_cases (c : Char) :
    (c.toNat < 0x80 ∧ String.utf8EncodeChar c = [.ofNat c.toNat]) ∨
    (0x80 ≤ c.toNat ∧ c.toNat < 0x800 ∧ String.utf8EncodeChar c = [.ofNat (c.toNat / 64 + 0xC0), .ofNat (c.toNat % 64 + 0x80)]) ∨
    (0x800 ≤ c.toNat ∧ c.toNat < 0x10000 ∧ String.utf8EncodeChar c =
      [.ofNat (c.toNat / 4096 + 0xE0), .ofNat (c.toNat / 64 % 64 + 0x80), .ofNat (c.toNat % 64 + 0x80)]) ∨
    (0x10000 ≤ c.toNat ∧ String.utf8EncodeChar c =
      [.ofNat (c.toNat / 262144 + 0xF0), .ofNat (c.toNat / 4096 % 64 + 0x80), .ofNat (c.toNat / 64 % 64 + 0x80),
        .ofNat (c.toNat % 64 + 0x80)]) := by
  have hvalid := toNat_bounds c
  have hval : c.val.toNat = c.toNat := rfl
  rw [String.utf8EncodeChar, hval]
  generalize c.toNat = v at *
  split
  · exact .inl ⟨by omega, rfl⟩
  split
  · exact .inr (.inl ⟨by omega, by omega, by rw [Nat.mod_eq_of_lt (b := 32) (by omega)]⟩)
  split
  · exact .inr (.inr (.inl ⟨by omega, by omega, by rw [Nat.mod_eq_of_lt (b := 16) (by omega)]⟩))
  · exact .inr (.inr (.inr ⟨by omega, by rw [Nat.mod_eq_of_lt (b := 8) (by omega)]⟩))

/-- A number below 256 is the value of its byte. -/
theorem toNat_byte {n : Nat} (h : n < 256) : (UInt8.ofNat n).toNat = n :=
  UInt8.toNat_ofNat_of_lt' h

/-! ## Reading characters back -/

/-- A byte from C2 to DF starts a character of two bytes. -/
theorem lead_two {b : Nat} (hlow : 0xC2 ≤ b) (hhigh : b < 0xE0) : lead b = .start ⟨1, 0x80, 0xBF, b - 0xC0⟩ := by
  rw [lead, if_neg (by omega), if_neg (by omega), if_pos hhigh]

/-- A byte from E0 to EF starts a character of three bytes, and narrows what may follow it. -/
theorem lead_three {b : Nat} (hlow : 0xE0 ≤ b) (hhigh : b < 0xF0) :
    lead b = .start ⟨2, if b = 0xE0 then 0xA0 else 0x80, if b = 0xED then 0x9F else 0xBF, b - 0xE0⟩ := by
  rw [lead, if_neg (by omega), if_neg (by omega), if_neg (by omega)]
  by_cases hfirst : b = 0xE0
  · subst hfirst
    rfl
  by_cases hsurrogate : b = 0xED
  · subst hsurrogate
    rfl
  simp only [beq_iff_eq, hfirst, hsurrogate, hhigh, if_true, if_false]

/-- A byte from F0 to F4 starts a character of four bytes, and narrows what may follow it. -/
theorem lead_four {b : Nat} (hlow : 0xF0 ≤ b) (hhigh : b ≤ 0xF4) :
    lead b = .start ⟨3, if b = 0xF0 then 0x90 else 0x80, if b = 0xF4 then 0x8F else 0xBF, b - 0xF0⟩ := by
  rw [lead, if_neg (by omega), if_neg (by omega), if_neg (by omega)]
  by_cases hfirst : b = 0xF0
  · subst hfirst
    rfl
  by_cases hlast : b = 0xF4
  · subst hlast
    rfl
  have hthree : ¬ b = 0xE0 ∧ ¬ b = 0xED ∧ ¬ b < 0xF0 ∧ b < 0xF4 := by omega
  simp only [beq_iff_eq, hfirst, hlast, hthree, if_true, if_false]

section

variable {r : Reader} {b : UInt8}

/-- Between characters a byte is one in first position. -/
theorem step_begin (h : r.pending = none) : r.step b = r.begin b.toNat := by
  simp only [Reader.step, h]

/-- A byte within the bounds goes on with the character under way. -/
theorem step_goesOn {p : Partial} (h : r.pending = some p) (hlow : p.low ≤ b.toNat) (hhigh : b.toNat ≤ p.high) :
    r.step b = if p.missing ≤ 1 then { r with done := .ofNat (p.bits * 64 + (b.toNat - 0x80)) :: r.done, pending := none }
      else { r with pending := some ⟨p.missing - 1, 0x80, 0xBF, p.bits * 64 + (b.toNat - 0x80)⟩ } := by
  simp only [Reader.step, h, hlow, hhigh, decide_true, Bool.and_true, if_true]

/-- A byte out of bounds breaks the character under way off and is one in first position. -/
theorem step_breaksOff {p : Partial} (h : r.pending = some p) (hout : ¬ (p.low ≤ b.toNat ∧ b.toNat ≤ p.high)) :
    r.step b = Reader.begin { r with done := replacement :: r.done, clean := false } b.toNat := by
  simp only [Reader.step, h, Bool.and_eq_true, decide_eq_true_eq, hout, if_false]

end

section

variable {done : List Char} {clean : Bool} {missing low high bits x : Nat}

/-- A byte that starts a character. -/
theorem step_start {p : Partial} {b : Nat} (hb : b < 256) (h : lead b = .start p) :
    Reader.step ⟨done, clean, none⟩ (.ofNat b) = ⟨done, clean, some p⟩ := by
  rw [step_begin rfl, toNat_byte hb, Reader.begin, h]

/-- Six more bits of a character that is not complete yet. -/
theorem step_more (hx : x < 64) (hlow : low ≤ x + 0x80) (hhigh : x + 0x80 ≤ high) :
    Reader.step ⟨done, clean, some ⟨missing + 2, low, high, bits⟩⟩ (.ofNat (x + 0x80)) =
      ⟨done, clean, some ⟨missing + 1, 0x80, 0xBF, bits * 64 + x⟩⟩ := by
  have hbyte : (UInt8.ofNat (x + 0x80)).toNat = x + 0x80 := toNat_byte (by omega)
  rw [step_goesOn rfl (by rwa [hbyte]) (by rwa [hbyte]), hbyte, Nat.add_sub_cancel]
  exact if_neg (by simp)

/-- The last six bits of a character. -/
theorem step_last (hx : x < 64) (hlow : low ≤ x + 0x80) (hhigh : x + 0x80 ≤ high) :
    Reader.step ⟨done, clean, some ⟨1, low, high, bits⟩⟩ (.ofNat (x + 0x80)) =
      ⟨.ofNat (bits * 64 + x) :: done, clean, none⟩ := by
  have hbyte : (UInt8.ofNat (x + 0x80)).toNat = x + 0x80 := toNat_byte (by omega)
  rw [step_goesOn rfl (by rwa [hbyte]) (by rwa [hbyte]), hbyte, Nat.add_sub_cancel]
  rfl

end

/-- The bytes of a character are read as the character. -/
theorem foldl_encodeChar (c : Char) {r : Reader} (h : r.pending = none) :
    (String.utf8EncodeChar c).foldl Reader.step r = { r with done := c :: r.done } := by
  obtain ⟨done, clean, pending⟩ := r
  obtain rfl : pending = none := h
  have hvalid := toNat_bounds c
  have hback : Char.ofNat c.toNat = c := Char.ofNat_toNat c
  rcases encodeChar_cases c with ⟨hhigh, hbytes⟩ | ⟨hlow, hhigh, hbytes⟩ | ⟨hlow, hhigh, hbytes⟩ | ⟨hlow, hbytes⟩
  all_goals
    rw [hbytes]
    generalize c.toNat = v at *
  · rw [List.foldl_cons, List.foldl_nil, step_begin rfl, toNat_byte (by omega), Reader.begin, lead, if_pos hhigh, hback]
  · have hbits : (v / 64 + 0xC0 - 0xC0) * 64 + v % 64 = v := by omega
    rw [List.foldl_cons, step_start (by omega) (lead_two (by omega) (by omega)), List.foldl_cons, List.foldl_nil,
      step_last (by omega) (by omega) (by omega), hbits, hback]
  · -- the bounds on the second byte leave out what two bytes can say, and the surrogates
    have hbits : ((v / 4096 + 0xE0 - 0xE0) * 64 + v / 64 % 64) * 64 + v % 64 = v := by omega
    rw [List.foldl_cons, step_start (by omega) (lead_three (by omega) (by omega)), List.foldl_cons,
      step_more (by omega) (by split <;> omega) (by split <;> omega), List.foldl_cons, List.foldl_nil,
      step_last (by omega) (by omega) (by omega), hbits, hback]
  · -- the bounds on the second byte leave out what three bytes can say, and what is no code point
    have hbits : (((v / 262144 + 0xF0 - 0xF0) * 64 + v / 4096 % 64) * 64 + v / 64 % 64) * 64 + v % 64 = v := by omega
    rw [List.foldl_cons, step_start (by omega) (lead_four (by omega) (by omega)), List.foldl_cons,
      step_more (by omega) (by split <;> omega) (by split <;> omega), List.foldl_cons,
      step_more (by omega) (by omega) (by omega), List.foldl_cons, List.foldl_nil,
      step_last (by omega) (by omega) (by omega), hbits, hback]

/-- A reader that waits for nothing reads the bytes of a text back as its characters. -/
theorem foldl_encode (cs : List Char) {r : Reader} (h : r.pending = none) :
    (encode cs).foldl Reader.step r = { r with done := cs.reverse ++ r.done } := by
  induction cs generalizing r with
  | nil => rfl
  | cons c cs ih =>
    have hrest := ih (r := { r with done := c :: r.done }) h
    rw [encode_cons, List.foldl_append, foldl_encodeChar c h, hrest, List.reverse_cons, List.append_assoc]
    rfl

/-- The bytes of some characters are read as the characters. -/
theorem read_encode (cs : List Char) : (read (encode cs)).done.reverse = cs := by
  rw [read, foldl_encode cs rfl, Reader.finish]
  simp

/-! ## Bytes that start a character -/

/-- A character that ends no line. -/
def isInLine (c : Char) : Bool :=
  c != '\n' && c != '\r'

/-- A byte that starts a character, one that ends no line. -/
def starts (b : UInt8) : Bool :=
  !decide (Continues b) && b != 10 && b != 13

/-- A byte that continues a character starts none. -/
theorem starts_of_continues {b : UInt8} (h : Continues b) : starts b = false := by
  simp [starts, h]

/-- A character from number 14 on ends no line. -/
theorem isInLine_ofNat {n : Nat} (h : 14 ≤ n) : isInLine (.ofNat n) = true := by
  have hne (c : Char) (hc : c.toNat < 14) (hnull : c ≠ '\x00') : Char.ofNat n ≠ c := by
    intro heq
    by_cases hvalid : n.isValidChar
    · rw [Char.ofNat, dif_pos hvalid] at heq
      have hn : n = c.toNat := congrArg Char.toNat heq
      omega
    · rw [Char.ofNat, dif_neg hvalid] at heq
      exact hnull heq.symm
  simp [isInLine, hne '\n' (by decide) (by decide), hne '\r' (by decide) (by decide)]

/-- A byte below the first that needs company starts a character exactly if that ends no line. -/
theorem starts_ascii {b : UInt8} (h : b.toNat < 0x80) : starts b = isInLine (.ofNat b.toNat) := by
  have hall : ∀ n < 0x80, starts (.ofNat n) = isInLine (.ofNat n) := by decide +kernel
  have hb := hall b.toNat h
  rwa [UInt8.ofNat_toNat] at hb

/-- A lead byte of a character beyond ASCII starts one. -/
theorem starts_wide {b : UInt8} (h : 0xC0 ≤ b.toNat) : starts b = true := by
  have hne (d : UInt8) (hd : d.toNat < 0xC0) : b ≠ d := by
    rintro rfl
    omega
  have hgoes : ¬ Continues b := fun hcontinues => Nat.not_lt.mpr h hcontinues.2
  simp [starts, hgoes, hne 10 (by decide), hne 13 (by decide)]

/-- A character has one byte that starts it, and then only bytes that go on. -/
theorem encodeChar_eq (c : Char) : ∃ first more, String.utf8EncodeChar c = first :: more ∧ ¬ Continues first ∧
    (∀ b ∈ more, Continues b) ∧ starts first = isInLine c := by
  have hvalid := toNat_bounds c
  have hback : Char.ofNat c.toNat = c := Char.ofNat_toNat c
  have hmore {n : Nat} (hn : n < 64) : Continues (.ofNat (n + 0x80)) := by
    rw [Continues, toNat_byte (by omega)]
    omega
  have hfirst {n : Nat} (hlow : 0xC0 ≤ n) (hhigh : n < 256) : ¬ Continues (.ofNat n) ∧ starts (.ofNat n) = true := by
    refine ⟨?_, starts_wide (by rwa [toNat_byte hhigh])⟩
    rw [Continues, toNat_byte hhigh]
    omega
  have hwide (h : 0x80 ≤ c.toNat) : isInLine c = true := by
    rw [← hback]
    exact isInLine_ofNat (by omega)
  rcases encodeChar_cases c with ⟨hhigh, hbytes⟩ | ⟨hlow, hhigh, hbytes⟩ | ⟨hlow, hhigh, hbytes⟩ | ⟨hlow, hbytes⟩
  · have hbyte : (UInt8.ofNat c.toNat).toNat = c.toNat := toNat_byte (by omega)
    refine ⟨_, [], hbytes, ?_, nofun, ?_⟩
    · rw [Continues, hbyte]
      omega
    · rw [starts_ascii (by rwa [hbyte]), hbyte, hback]
  · obtain ⟨hstart, hstarts⟩ := @hfirst (c.toNat / 64 + 0xC0) (by omega) (by omega)
    refine ⟨_, _, hbytes, hstart, ?_, hstarts.trans (hwide (by omega)).symm⟩
    simp only [List.forall_mem_cons, List.not_mem_nil, false_imp_iff, implies_true, and_true]
    exact hmore (by omega)
  · obtain ⟨hstart, hstarts⟩ := @hfirst (c.toNat / 4096 + 0xE0) (by omega) (by omega)
    refine ⟨_, _, hbytes, hstart, ?_, hstarts.trans (hwide (by omega)).symm⟩
    simp only [List.forall_mem_cons, List.not_mem_nil, false_imp_iff, implies_true, and_true]
    exact ⟨hmore (by omega), hmore (by omega)⟩
  · obtain ⟨hstart, hstarts⟩ := @hfirst (c.toNat / 262144 + 0xF0) (by omega) (by omega)
    refine ⟨_, _, hbytes, hstart, ?_, hstarts.trans (hwide (by omega)).symm⟩
    simp only [List.forall_mem_cons, List.not_mem_nil, false_imp_iff, implies_true, and_true]
    exact ⟨hmore (by omega), hmore (by omega), hmore (by omega)⟩

/-- Bytes of characters that are cut before one that goes on with no character are cut between characters. -/
theorem exists_encode_of_append {cs : List Char} {front back : List UInt8} (h : encode cs = front ++ back)
    (hback : ∀ b ∈ back.head?, ¬ Continues b) :
    ∃ before after, cs = before ++ after ∧ front = encode before ∧ back = encode after := by
  induction cs generalizing front with
  | nil =>
    obtain ⟨rfl, rfl⟩ := List.append_eq_nil_iff.mp h.symm
    exact ⟨[], [], rfl, rfl, rfl⟩
  | cons c cs ih =>
    cases front with
    | nil => exact ⟨[], c :: cs, rfl, rfl, h.symm⟩
    | cons b front =>
      obtain ⟨first, more, hbytes, -, hmore, -⟩ := encodeChar_eq c
      rw [encode_cons, hbytes] at h
      obtain ⟨rfl, hrest⟩ := List.cons.inj h
      -- the cut is not among the bytes of the first character that go on with it
      obtain ⟨tail, rfl, htail⟩ : ∃ tail, front = more ++ tail ∧ encode cs = tail ++ back := by
        rcases List.append_eq_append_iff.mp hrest with ⟨tail, hfront, htail⟩ | ⟨tail, rfl, htail⟩
        · exact ⟨tail, hfront, htail⟩
        · cases tail with
          | nil => exact ⟨[], by simp, by simpa using htail.symm⟩
          | cons d tail => exact absurd (hmore d (by simp)) (hback d (by simp [htail]))
      obtain ⟨before, after, rfl, rfl, rfl⟩ := ih htail
      exact ⟨c :: before, after, rfl, by rw [encode_cons, hbytes, List.cons_append], rfl⟩

/-- A line feed is a character of its own. -/
theorem eq_nil_of_encodeChar {c : Char} {more : List UInt8} (h : String.utf8EncodeChar c = 10 :: more) : more = [] := by
  obtain ⟨first, rest, hbytes, -, -, hfirst⟩ := encodeChar_eq c
  obtain ⟨rfl, rfl⟩ := List.cons.inj (h.symm.trans hbytes)
  have hends : c = '\n' ∨ c = '\r' := by
    have hfalse : isInLine c = false := hfirst.symm.trans (by decide)
    rw [isInLine, Bool.and_eq_false_iff] at hfalse
    exact hfalse.imp (fun hfeed => by simpa using hfeed) fun hreturn => by simpa using hreturn
  rcases hends with rfl | rfl
  · have hfeed : String.utf8EncodeChar '\n' = [10] := by decide
    exact (List.cons.inj (h.symm.trans hfeed)).2
  · have hreturn : String.utf8EncodeChar '\r' = [13] := by decide
    cases h.symm.trans hreturn

/-- After a line feed a character starts. -/
theorem exists_encode_of_feed {cs : List Char} {front back : List UInt8} (h : encode cs = front ++ 10 :: back) :
    ∃ after, back = encode after := by
  obtain ⟨before, after, rfl, rfl, hback⟩ := exists_encode_of_append h (by simp; decide)
  cases after with
  | nil => cases hback
  | cons c after =>
    obtain ⟨first, more, hbytes, -⟩ := encodeChar_eq c
    rw [encode_cons, hbytes, List.cons_append] at hback
    obtain ⟨rfl, hrest⟩ := List.cons.inj hback
    rw [eq_nil_of_encodeChar hbytes, List.nil_append] at hrest
    exact ⟨after, hrest⟩

/-- Bytes of characters start with a byte that starts one. -/
theorem head?_encode (cs : List Char) : ∀ b ∈ (encode cs).head?, ¬ Continues b := by
  cases cs with
  | nil => exact nofun
  | cons c cs =>
    obtain ⟨first, more, hbytes, hfirst, -⟩ := encodeChar_eq c
    rw [encode_cons, hbytes]
    rintro b ⟨⟩
    exact hfirst

/-- The bytes of a text that start a character are as many as its characters that end no line. -/
theorem countP_encode (cs : List Char) : (encode cs).countP starts = cs.countP isInLine := by
  induction cs with
  | nil => rfl
  | cons c cs ih =>
    obtain ⟨first, more, hbytes, -, hmore, hfirst⟩ := encodeChar_eq c
    have hnone : more.countP starts = 0 :=
      List.countP_eq_zero.mpr fun b hb => by rw [starts_of_continues (hmore b hb)]; exact Bool.false_ne_true
    rw [encode_cons, hbytes, List.cons_append, List.countP_cons, List.countP_append, hnone, ih, List.countP_cons, hfirst,
      Nat.zero_add]

/-! ## Reading any bytes -/

/-- The bounds of a character under way admit only bytes that go on, and make it one that ends no line. -/
structure Partial.Sound (p : Partial) : Prop where
  low : 0x80 ≤ p.low
  high : p.high < 0xC0
  bits : 14 ≤ p.bits * 64 + (p.low - 0x80)

/-- What a byte in first position stands for. -/
theorem lead_cases (b : Nat) : (b < 0x80 ∧ lead b = .single (.ofNat b)) ∨ (∃ p, 0xC0 ≤ b ∧ lead b = .start p ∧ p.Sound) ∨
    (0x80 ≤ b ∧ lead b = .invalid) := by
  by_cases hascii : b < 0x80
  · exact .inl ⟨hascii, by rw [lead, if_pos hascii]⟩
  refine .inr ?_
  by_cases hinvalid : b < 0xC2 ∨ 0xF4 < b
  · refine .inr ⟨by omega, ?_⟩
    have hfalse : ¬ b = 0xE0 ∧ ¬ b = 0xED ∧ ¬ b = 0xF0 ∧ ¬ b = 0xF4 := by omega
    rw [lead, if_neg hascii]
    rcases hinvalid with hlow | hhigh
    · rw [if_pos hlow]
    · have hbig : ¬ b < 0xC2 ∧ ¬ b < 0xE0 ∧ ¬ b < 0xF0 ∧ ¬ b < 0xF4 := by omega
      simp only [beq_iff_eq, hfalse, hbig, if_false]
  refine .inl ?_
  by_cases htwo : b < 0xE0
  · exact ⟨_, by omega, lead_two (by omega) htwo, ⟨Nat.le_refl _, by dsimp only; omega, by dsimp only; omega⟩⟩
  by_cases hthree : b < 0xF0
  · refine ⟨_, by omega, lead_three (by omega) hthree, ⟨?_, ?_, ?_⟩⟩
    all_goals dsimp only; split <;> omega
  · refine ⟨_, by omega, lead_four (by omega) (by omega), ⟨?_, ?_, ?_⟩⟩
    all_goals dsimp only; split <;> omega

namespace Reader

/-- A character under way has sound bounds. -/
def Sound (r : Reader) : Prop :=
  ∀ p ∈ r.pending, p.Sound

/-- How many characters that end no line there are, the one under way among them. -/
def count (r : Reader) : Nat :=
  r.done.countP isInLine + r.pending.toList.length

/-- A byte in first position counts if it starts a character, and also if it goes on with one. -/
theorem begin_counts (r : Reader) (b : UInt8) :
    (r.begin b.toNat).Sound ∧
      r.done.countP isInLine + (if starts b = true ∨ Continues b then 1 else 0) ≤ (r.begin b.toNat).count := by
  have hone (h : 0x80 ≤ b.toNat) : starts b = true ∨ Continues b := by
    by_cases hcontinues : b.toNat < 0xC0
    · exact .inr ⟨h, hcontinues⟩
    · exact .inl (starts_wide (Nat.not_lt.mp hcontinues))
  rw [begin]
  rcases lead_cases b.toNat with ⟨hascii, hlead⟩ | ⟨p, hlow, hlead, hsound⟩ | ⟨hlow, hlead⟩
  · have hgoes : ¬ Continues b := fun h => absurd h.1 (Nat.not_le.mpr hascii)
    rw [hlead]
    refine ⟨nofun, ?_⟩
    simp [count, List.countP_cons, starts_ascii hascii, hgoes]
  · rw [hlead]
    refine ⟨fun q hq => ?_, ?_⟩
    · obtain rfl : p = q := Option.some.inj hq
      exact hsound
    · simp [count, hone (by omega)]
  · rw [hlead]
    refine ⟨nofun, ?_⟩
    have hreplacement : isInLine replacement = true := by decide
    simp [count, hone hlow, hreplacement]

/-- Each byte that starts a character counts. -/
theorem step_counts {r : Reader} (hr : r.Sound) (b : UInt8) :
    (r.step b).Sound ∧ r.count + (if starts b then 1 else 0) ≤ (r.step b).count := by
  have hmono (n : Nat) (h : n + (if starts b = true ∨ Continues b then 1 else 0) ≤ (r.step b).count) :
      n + (if starts b then 1 else 0) ≤ (r.step b).count := by
    refine Nat.le_trans (Nat.add_le_add_left ?_ n) h
    by_cases hstarts : starts b = true <;> simp [hstarts]
  cases hpending : r.pending with
  | none =>
    have hstep := step_begin (b := b) hpending
    obtain ⟨hsound, hcount⟩ := begin_counts r b
    rw [← hstep] at hsound hcount
    have hnow : r.count = r.done.countP isInLine := by simp [count, hpending]
    exact ⟨hsound, hnow ▸ hmono _ hcount⟩
  | some p =>
    have hp := hr p hpending
    have hnow : r.count = r.done.countP isInLine + 1 := by simp [count, hpending]
    by_cases hin : p.low ≤ b.toNat ∧ b.toNat ≤ p.high
    · obtain ⟨hlow, hhigh, hbits⟩ := hp
      have hcontinues : Continues b := ⟨Nat.le_trans hlow hin.1, Nat.lt_of_le_of_lt hin.2 hhigh⟩
      have hmore : 14 ≤ p.bits * 64 + (b.toNat - 0x80) := by omega
      rw [step_goesOn hpending hin.1 hin.2, starts_of_continues hcontinues, hnow]
      split
      · refine ⟨nofun, ?_⟩
        simp [count, isInLine_ofNat hmore]
      · refine ⟨fun q hq => ?_, by simp [count]⟩
        obtain rfl := Option.some.inj hq
        exact ⟨Nat.le_refl _, by dsimp only; omega, by dsimp only; omega⟩
    · have hstep := step_breaksOff hpending hin
      obtain ⟨hsound, hcount⟩ := begin_counts { r with done := replacement :: r.done, clean := false } b
      rw [← hstep] at hsound hcount
      have hreplacement : isInLine replacement = true := by decide
      rw [List.countP_cons, if_pos hreplacement] at hcount
      exact ⟨hsound, hnow ▸ hmono _ hcount⟩

/-- Reading bytes counts at least those that start a character. -/
theorem foldl_counts {r : Reader} (hr : r.Sound) (bytes : List UInt8) :
    r.count + bytes.countP starts ≤ (bytes.foldl step r).count := by
  induction bytes generalizing r with
  | nil => exact Nat.le_refl _
  | cons b rest ih =>
    obtain ⟨hsound, hcount⟩ := step_counts hr b
    have hrest := ih hsound
    rw [List.countP_cons, List.foldl_cons]
    omega

/-- At its end, a reader has given as many characters that end no line as it has counted. -/
theorem count_finish (r : Reader) : r.finish.done.countP isInLine = r.count := by
  have hreplacement : isInLine replacement = true := by decide
  cases hpending : r.pending <;> simp [finish, count, hpending, hreplacement]

end Reader

/-- Reading bytes gives at least one character for each byte that starts one, and one more if the first byte goes on with one. -/
theorem starts_le_read (bytes : List UInt8) :
    bytes.countP starts + (if ∃ b ∈ bytes.head?, Continues b then 1 else 0) ≤ (read bytes).done.countP isInLine := by
  rw [read, Reader.count_finish]
  cases bytes with
  | nil => simp
  | cons b rest =>
    obtain ⟨hsound, hcount⟩ := Reader.begin_counts {} b
    have hrest := Reader.foldl_counts hsound rest
    rw [List.foldl_cons, step_begin rfl, List.countP_cons]
    have hfirst : (if starts b = true then 1 else 0) + (if ∃ c ∈ (b :: rest).head?, Continues c then 1 else 0) ≤
        if starts b = true ∨ Continues b then 1 else 0 := by
      by_cases hcontinues : Continues b
      · simp [starts_of_continues hcontinues, hcontinues]
      · simp [hcontinues]
    rw [List.countP_nil, Nat.zero_add] at hcount
    omega

end Utf8

end LineScript
