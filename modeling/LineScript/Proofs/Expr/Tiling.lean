import LineScript.Proofs.Expr.Skipped

/-!
# Tokens tile a text

The tokens of a text stand in it one after the other, with nothing but spaces and tabs between them (`Token.Tiles`). The offsets of
tokens count bytes. A walk over the bytes of a text that cuts its words out by their offsets (`Token.spans?`) never cuts where no
character begins, and finds each token where `Token.scan` says that it stands: what a byte by itself decides is decided by an ASCII
character, and the bytes of all other characters are out of that range.
-/

namespace LineScript

open Text

namespace Token

/-! ## Walking bytes -/

/-- Where a token stands: its kind, the offset of its first byte, and its length in bytes. -/
structure Span where
  /-- What it is. -/
  kind : TokenKind
  /-- The offset of its first byte. -/
  start : Nat
  /-- Its length in bytes. -/
  size : Nat
  deriving DecidableEq

/-- Where a token stands. -/
def span (t : Token) : Span :=
  ⟨t.kind, t.start, t.size⟩

/-- The bytes of a text, each as the character that has its number. -/
def byteChars (s : String) : List Char :=
  s.toUTF8.data.toList.map fun b => Char.ofNat b.toNat

/-- The token at byte `i`, which is neither a space nor a tab. Quoted texts, operators and brackets are told by bytes, words by characters.
There is no answer where a part is cut out that does not start and end between characters of the text. -/
def spanAt? (s : String) (i : Nat) : Option (Except LexError Span) :=
  match (byteChars s).drop i with
  | '"' :: rest =>
    match quotedOnto ['"'] rest with
    | none => some (.error .missingQuote)
    | some (quoted, _) => some (.ok ⟨.str, i, quoted.length⟩)
  | bytes =>
    match symbol? bytes with
    | some (kind, n) => some (.ok ⟨kind, i, n⟩)
    | none => do
      let rest ← slice? s i s.utf8ByteSize
      let word ← slice? rest 0 (byteSize (rest.toList.takeWhile (!isTerminator ·)))
      match word.toList.find? isIllegal with
      | some c => return .error (.illegal c)
      | none => do
        let after ← slice? s (i + word.utf8ByteSize) s.utf8ByteSize
        return .ok ⟨wordKind word.toList after.toList, i, word.utf8ByteSize⟩

/-- The tokens from byte `i` on, with `done` in reverse before them. There is no answer where a part cannot be cut out, or where the walk
takes more than `fuel` rounds. -/
def spansFrom? (s : String) : (fuel : Nat) → (done : List Span) → (i : Nat) → Option (Except LexError (List Span))
  | 0, _, _ => none
  | fuel + 1, done, i =>
    match (byteChars s)[i]? with
    | none => some (.ok done.reverse)
    | some c =>
      if isSpaceOrTab c then spansFrom? s fuel done (i + 1)
      else match spanAt? s i with
        | none => none
        | some (.error e) => some (.error e)
        | some (.ok span) => spansFrom? s fuel (span :: done) (i + span.size)

/-- The tokens of a text, found by a walk over its bytes. -/
def spans? (s : String) : Option (Except LexError (List Span)) :=
  spansFrom? s (s.utf8ByteSize + 1) [] 0

/-! ## Bytes as characters -/

/-- The bytes of some characters, each as the character that has its number. -/
def viewed (cs : List Char) : List Char :=
  (cs.flatMap String.utf8EncodeChar).map fun b => Char.ofNat b.toNat

/-- The bytes of a text are what is viewed of its characters. -/
theorem byteChars_eq (s : String) : byteChars s = viewed s.toList := by
  rw [byteChars, viewed, String.toUTF8_eq_toByteArray, ← String.utf8Encode_toList, List.utf8Encode, List.toList_data_toByteArray]

theorem viewed_append (cs ds : List Char) : viewed (cs ++ ds) = viewed cs ++ viewed ds := by
  rw [viewed, List.flatMap_append, List.map_append]
  rfl

theorem viewed_cons (c : Char) (cs : List Char) : viewed (c :: cs) = viewed [c] ++ viewed cs :=
  viewed_append [c] cs

/-- There are as many bytes to view as the characters have. -/
theorem length_viewed (cs : List Char) : (viewed cs).length = byteSize cs := by
  induction cs with
  | nil => rfl
  | cons c cs ih =>
    rw [viewed_cons, List.length_append, ih, byteSize_cons, viewed, List.length_map, List.flatMap_singleton,
      String.length_utf8EncodeChar]

/-- A character is viewed as its bytes. -/
theorem viewed_singleton (c : Char) : viewed [c] = (String.utf8EncodeChar c).map fun b => Char.ofNat b.toNat := by
  rw [viewed, List.flatMap_singleton]

/-- An ASCII character is its only byte. -/
theorem viewed_ascii {c : Char} (h : c.toNat < 128) : viewed [c] = [c] := by
  have hle : c.val.toNat ≤ 127 := Nat.le_of_lt_succ h
  have hbyte : (UInt8.ofNat c.val.toNat).toNat = c.toNat := by
    rw [UInt8.toNat_ofNat']
    exact Nat.mod_eq_of_lt (Nat.lt_trans h (by decide))
  rw [viewed_singleton, String.utf8EncodeChar]
  simp only [if_pos hle, List.map_singleton, hbyte, Char.ofNat_toNat]

theorem toNat_ofNat_byte (b : UInt8) : (Char.ofNat b.toNat).toNat = b.toNat := by
  have hvalid : b.toNat.isValidChar := .inl (Nat.lt_trans b.toNat_lt (by decide))
  rw [Char.ofNat, dif_pos hvalid]
  rfl

/-- A character has a first byte. -/
theorem exists_viewed (c : Char) : ∃ d ds, viewed [c] = d :: ds :=
  List.exists_cons_of_ne_nil (by simp [viewed_singleton])

/-- No byte of another character is ASCII. -/
theorem viewed_wide {c : Char} (h : 128 ≤ c.toNat) : ∀ d ∈ viewed [c], 128 ≤ d.toNat := by
  have hlt : ¬ c.val.toNat ≤ 127 := Nat.not_le.mpr h
  have hbytes : ∀ b ∈ String.utf8EncodeChar c, 128 ≤ b.toNat := by
    rw [String.utf8EncodeChar]
    simp only [if_neg hlt]
    split
    · simp only [List.mem_cons, List.not_mem_nil, or_false, forall_eq_or_imp, forall_eq, UInt8.toNat_ofNat']
      omega
    split
    · simp only [List.mem_cons, List.not_mem_nil, or_false, forall_eq_or_imp, forall_eq, UInt8.toNat_ofNat']
      omega
    · simp only [List.mem_cons, List.not_mem_nil, or_false, forall_eq_or_imp, forall_eq, UInt8.toNat_ofNat']
      omega
  rw [viewed_singleton]
  intro d hd
  obtain ⟨b, hb, rfl⟩ := List.mem_map.mp hd
  rw [toNat_ofNat_byte]
  exact hbytes b hb

/-- An ASCII character among the bytes of a character is that character. -/
theorem eq_of_mem_viewed {c d : Char} (hd : d ∈ viewed [c]) (hascii : d.toNat < 128) : d = c := by
  rcases Nat.lt_or_ge c.toNat 128 with hc | hc
  · rw [viewed_ascii hc] at hd
    exact List.mem_singleton.mp hd
  · exact absurd (viewed_wide hc d hd) (Nat.not_le.mpr hascii)

/-- Bytes start with an ASCII character exactly where the characters do. -/
theorem head?_viewed {cs : List Char} {d : Char} (hascii : d.toNat < 128) :
    (viewed cs).head? = some d ↔ cs.head? = some d := by
  cases cs with
  | nil => exact Iff.rfl
  | cons c cs =>
    obtain ⟨e, es, hview⟩ := exists_viewed c
    rw [viewed_cons]
    constructor
    · intro h
      rw [hview] at h
      obtain rfl : e = d := Option.some.inj h
      rw [eq_of_mem_viewed (hview ▸ List.mem_cons_self) hascii]
      rfl
    · rintro ⟨⟩
      rw [viewed_ascii hascii]
      rfl

/-! ## The same tokens -/

/-- A list that starts with no given character has another head, or none. -/
theorem head?_ne {c : Char} {cs : List Char} (h : ∀ rest, cs = c :: rest → False) : cs.head? ≠ some c := by
  intro hhead
  obtain ⟨rest, hcs⟩ := List.head?_eq_some_iff.mp hhead
  exact h rest hcs

/-- A quote that no other one follows closes a text in quotes. -/
theorem quotedOnto_close {taken rest : List Char} (h : rest.head? ≠ some '"') :
    quotedOnto taken ('"' :: rest) = some (('"' :: taken).reverse, rest) := by
  cases rest with
  | nil => rfl
  | cons c rest =>
    have hc : c ≠ '"' := by simpa using h
    simp [quotedOnto, hc]

/-- Characters that are no quotes are passed over. -/
theorem quotedOnto_pass {cs : List Char} (h : ∀ c ∈ cs, c ≠ '"') (taken rest : List Char) :
    quotedOnto taken (cs ++ rest) = quotedOnto (cs.reverse ++ taken) rest := by
  induction cs generalizing taken with
  | nil => rfl
  | cons c cs ih =>
    have hc : c ≠ '"' := h c List.mem_cons_self
    have hstep : quotedOnto taken (c :: (cs ++ rest)) = quotedOnto (c :: taken) (cs ++ rest) := by
      simp [quotedOnto, hc]
    rw [List.cons_append, hstep, ih fun d hd => h d (List.mem_cons_of_mem _ hd), List.reverse_cons, List.append_assoc]
    rfl

/-- The quote that closes a text is found among its bytes as among its characters. -/
theorem quotedOnto_viewed (taken cs : List Char) :
    quotedOnto (viewed taken.reverse).reverse (viewed cs) = (quotedOnto taken cs).map fun r => (viewed r.1, viewed r.2) := by
  have hquote (cs : List Char) : viewed ('"' :: cs) = '"' :: viewed cs := by
    rw [viewed_cons, viewed_ascii (by decide)]
    rfl
  have htaken (c : Char) (taken : List Char) :
      (viewed (c :: taken).reverse).reverse = (viewed [c]).reverse ++ (viewed taken.reverse).reverse := by
    rw [List.reverse_cons, viewed_append, List.reverse_append]
  fun_induction quotedOnto taken cs with
  | case1 taken => rfl
  | case2 taken rest ih =>
    rw [htaken, htaken, viewed_ascii (by decide)] at ih
    rw [hquote, hquote, ← ih, quotedOnto]
    rfl
  | case3 taken rest hother =>
    have hrest := head?_ne hother
    rw [hquote, quotedOnto_close (mt (head?_viewed (by decide)).mp hrest), Option.map_some, List.reverse_cons,
      List.reverse_cons, viewed_append, viewed_ascii (by decide), List.reverse_reverse]
  | case4 taken c rest _ hc ih =>
    have hc : c ≠ '"' := hc
    rw [viewed_cons, quotedOnto_pass, ← htaken, ih]
    rintro d hd rfl
    exact hc (eq_of_mem_viewed hd (by decide)).symm

/-- A symbol is told by its first two characters. -/
theorem symbol?_pair (c d : Char) (cs : List Char) : symbol? (c :: d :: cs) = symbol? [c, d] := by
  cases hword : isTerminator c with
  | false =>
    by_cases hpoint : c = '.'
    · rw [hpoint]
      rfl
    · rw [Expr.symbol?_eq_none hword hpoint, Expr.symbol?_eq_none hword hpoint]
  | true =>
    have hmem : c ∈ ['\t', ' ', '+', '-', '<', '>', '=', '*', '/', '&', '|', '^', '~', '!', '(', ')', ',', '"'] :=
      List.contains_iff_mem.mp hword
    simp only [List.mem_cons, List.not_mem_nil, or_false] at hmem
    rcases hmem with rfl | rfl | rfl | rfl | rfl | rfl | rfl | rfl | rfl | rfl | rfl | rfl | rfl | rfl | rfl | rfl | rfl | rfl
    any_goals rfl
    all_goals
      unfold symbol?
      grind

/-- A character beyond ASCII is none of ASCII. -/
theorem ne_of_wide {c d : Char} (hc : 128 ≤ c.toNat) (hd : d.toNat < 128) : c ≠ d := by
  rintro rfl
  omega

/-- A character beyond ASCII ends no word. -/
theorem isTerminator_of_wide {c : Char} (h : 128 ≤ c.toNat) : isTerminator c = false := by
  refine Bool.eq_false_iff.mpr fun hends => ?_
  have hascii : ['\t', ' ', '+', '-', '<', '>', '=', '*', '/', '&', '|', '^', '~', '!', '(', ')', ',', '"'].all
      (·.toNat < 128) = true := by decide
  have hlt := List.all_eq_true.mp hascii c (List.contains_iff_mem.mp hends)
  simp only [decide_eq_true_eq] at hlt
  omega

/-- No character beyond ASCII makes a symbol longer. -/
theorem symbol?_wide {d : Char} (h : 128 ≤ d.toNat) (c : Char) : symbol? [c, d] = symbol? [c] := by
  have hother {e : Char} (he : e.toNat < 128) : d ≠ e := ne_of_wide h he
  have hdigit : d.isDigit = false := by
    refine Bool.eq_false_iff.mpr fun hdigit => ?_
    have hle : d.toNat ≤ '9'.toNat := of_decide_eq_true (Bool.and_eq_true_iff.mp hdigit).2
    exact absurd (Nat.le_trans h hle) (by decide)
  have htimes := hother (e := '*') (by decide)
  have hover := hother (e := '/') (by decide)
  have hand := hother (e := '&') (by decide)
  have hor := hother (e := '|') (by decide)
  have heq := hother (e := '=') (by decide)
  have hlt := hother (e := '<') (by decide)
  have hgt := hother (e := '>') (by decide)
  unfold symbol?
  grind

/-- Bytes start with the symbol that the characters start with. -/
theorem symbol?_viewed (cs : List Char) : symbol? (viewed cs) = symbol? cs := by
  have hnone {c : Char} (h : 128 ≤ c.toNat) (cs : List Char) : symbol? (c :: cs) = none :=
    Expr.symbol?_eq_none (isTerminator_of_wide h) (ne_of_wide h (by decide)) cs
  -- The first byte of a character that is not ASCII is not ASCII either.
  have hwide {c : Char} (h : 128 ≤ c.toNat) (cs : List Char) : ∃ d ds, viewed (c :: cs) = d :: ds ∧ 128 ≤ d.toNat := by
    obtain ⟨d, ds, hview⟩ := exists_viewed c
    exact ⟨d, ds ++ viewed cs, by rw [viewed_cons, hview]; rfl, viewed_wide h d (hview ▸ List.mem_cons_self)⟩
  have hascii {c : Char} (h : c.toNat < 128) (cs : List Char) : viewed (c :: cs) = c :: viewed cs := by
    rw [viewed_cons, viewed_ascii h]
    rfl
  cases cs with
  | nil => rfl
  | cons c cs =>
    rcases Nat.lt_or_ge c.toNat 128 with hc | hc
    · rw [hascii hc]
      cases cs with
      | nil => rfl
      | cons d cs =>
        rcases Nat.lt_or_ge d.toNat 128 with hd | hd
        · rw [hascii hd, symbol?_pair, symbol?_pair c d cs]
        · obtain ⟨e, es, hview, he⟩ := hwide hd cs
          rw [hview, symbol?_pair, symbol?_pair c d cs, symbol?_wide he, symbol?_wide hd]
    · obtain ⟨d, ds, hview, hd⟩ := hwide hc cs
      rw [hview, hnone hd, hnone hc]

/-- A symbol has as many bytes as characters. -/
theorem byteSize_symbol {cs : List Char} {kind : TokenKind} {n : Nat} (h : symbol? cs = some (kind, n)) :
    byteSize (cs.take n) = n := by
  unfold symbol? at h
  split at h
  any_goals split at h
  all_goals cases h
  all_goals rfl

section

variable {s : String} {before : List Char}

/-- After the bytes of what stands before are those of what is left. -/
theorem drop_byteChars {cs : List Char} (hs : s.toList = before ++ cs) : (byteChars s).drop (byteSize before) = viewed cs := by
  rw [byteChars_eq, hs, viewed_append, ← length_viewed, List.drop_left]

/-- The end of a text is cut off where a character begins. -/
theorem slice?_end {cs : List Char} (hs : s.toList = before ++ cs) :
    slice? s (byteSize before) s.utf8ByteSize = some (.ofList cs) := by
  have hslice := @slice?_eq s before cs [] (by rw [List.append_nil, hs])
  rwa [← byteSize_append, ← hs, byteSize_toList] at hslice

/-- Walking bytes, the next token is found where it stands. -/
theorem spanAt?_eq {c : Char} {cs : List Char} (hs : s.toList = before ++ c :: cs) :
    spanAt? s (byteSize before) = some ((next (byteSize before) (c :: cs)).map fun r => r.1.span) := by
  have hdrop := drop_byteChars hs
  unfold spanAt?
  by_cases hquote : c = '"'
  · subst hquote
    have hquoted := quotedOnto_viewed ['"'] cs
    have htaken : (viewed ['"'].reverse).reverse = ['"'] := by decide
    rw [htaken] at hquoted
    rw [viewed_cons, viewed_ascii (by decide), List.singleton_append] at hdrop
    simp only [hdrop, hquoted, next]
    cases quotedOnto ['"'] cs with
    | none => rfl
    | some r =>
      obtain ⟨chars, rest⟩ := r
      simp [Except.map, span, size, length_viewed]
  · have hnext : next (byteSize before) (c :: cs) =
        match symbol? (c :: cs) with
        | some (kind, n) => .ok (⟨kind, byteSize before, (c :: cs).take n⟩, (c :: cs).drop n)
        | none =>
          let word := (c :: cs).takeWhile (!isTerminator ·)
          let rest := (c :: cs).dropWhile (!isTerminator ·)
          match word.find? isIllegal with
          | some c => .error (.illegal c)
          | none => .ok (⟨wordKind word rest, byteSize before, word⟩, rest) := by
      unfold next
      split
      · rename_i heq
        exact absurd (List.cons.inj heq).1 hquote
      · rfl
    rw [hnext, hdrop]
    split
    · rename_i rest hview
      have hhead := congrArg List.head? hview
      rw [List.head?_cons, head?_viewed (by decide)] at hhead
      exact absurd (Option.some.inj hhead) hquote
    · rw [symbol?_viewed]
      cases hsymbol : symbol? (c :: cs) with
      | some found =>
        obtain ⟨kind, n⟩ := found
        simp [Except.map, span, size, byteSize_symbol hsymbol]
      | none =>
        -- The word is cut out of the rest of the text, and what comes after it out of the whole.
        obtain ⟨word, hword⟩ : ∃ word, (c :: cs).takeWhile (!isTerminator ·) = word := ⟨_, rfl⟩
        obtain ⟨rest, hrest⟩ : ∃ rest, (c :: cs).dropWhile (!isTerminator ·) = rest := ⟨_, rfl⟩
        have hsplit : c :: cs = word ++ rest := by rw [← hword, ← hrest, List.takeWhile_append_dropWhile]
        have hcut : slice? (.ofList (c :: cs)) 0 (byteSize word) = some (.ofList word) := by
          have hslice := @slice?_eq (.ofList (c :: cs)) [] word rest (by rw [String.toList_ofList, hsplit]; rfl)
          rwa [byteSize, List.foldl_nil, Nat.zero_add] at hslice
        have hafter : slice? s (byteSize before + byteSize word) s.utf8ByteSize = some (.ofList rest) := by
          rw [← byteSize_append]
          exact slice?_end (by rw [hs, hsplit, List.append_assoc])
        simp only [slice?_end hs, Option.bind_eq_bind, Option.bind_some, String.toList_ofList, hword, hrest, hcut,
          utf8ByteSize_ofList, hafter]
        cases word.find? isIllegal <;> rfl

/-- After the bytes of the whole text there are no more. -/
theorem byteChars_end (hs : s.toList = before) : (byteChars s)[byteSize before]? = none := by
  rw [byteChars_eq, hs]
  exact List.getElem?_eq_none (Nat.le_of_eq (length_viewed _))

/-- Where a character begins, its first byte stands, which is blank exactly if the character is. -/
theorem byteChars_begin {c : Char} {cs : List Char} (hs : s.toList = before ++ c :: cs) :
    ∃ d, (byteChars s)[byteSize before]? = some d ∧ isSpaceOrTab d = isSpaceOrTab c := by
  obtain ⟨d, ds, hview⟩ := exists_viewed c
  refine ⟨d, ?_, ?_⟩
  · have hdrop := congrArg List.head? (drop_byteChars hs)
    rwa [List.head?_drop, viewed_cons, hview] at hdrop
  · rcases Nat.lt_or_ge c.toNat 128 with hc | hc
    · rw [viewed_ascii hc] at hview
      rw [(List.cons.inj hview).1]
    · have hd := viewed_wide hc d (hview ▸ List.mem_cons_self)
      rw [Expr.isSpaceOrTab_of_plain (isTerminator_of_wide hd), Expr.isSpaceOrTab_of_plain (isTerminator_of_wide hc)]

/-- The walk over bytes goes on as the scanner does. -/
theorem spansFrom?_eq {cs : List Char} (hs : s.toList = before ++ cs) {rounds fuel : Nat} (hrounds : byteSize cs < rounds)
    (hfuel : cs.length < fuel) (found : List Token) :
    spansFrom? s rounds (found.map span) (byteSize before) =
      some ((scanOnto fuel found (byteSize before) cs).map (·.map span)) := by
  induction rounds generalizing before cs fuel found with
  | zero => cases hrounds
  | succ rounds ih =>
    obtain ⟨fuel, rfl⟩ : ∃ f, fuel = f + 1 := ⟨fuel - 1, by omega⟩
    rw [spansFrom?]
    cases cs with
    | nil =>
      rw [byteChars_end (by rw [hs, List.append_nil]), scanOnto, Except.map, List.map_reverse]
    | cons c cs =>
      obtain ⟨d, hbegin, hblank⟩ := byteChars_begin hs
      rw [hbegin]
      simp only [hblank, scanOnto]
      rw [byteSize_cons] at hrounds
      rw [List.length_cons] at hfuel
      split
      · rename_i hc
        have hsize : byteSize [c] = 1 := by
          rcases Bool.or_eq_true_iff.mp hc with hc | hc <;> rw [beq_iff_eq.mp hc] <;> rfl
        have hpos := c.utf8Size_pos
        have hrest := @ih (before ++ [c]) cs (by rw [hs, List.append_assoc]; rfl) fuel (by omega) (by omega) found
        rwa [byteSize_append, hsize] at hrest
      · rename_i hc
        rw [spanAt?_eq hs]
        cases hnext : next (byteSize before) (c :: cs) with
        | error e => rfl
        | ok r =>
          obtain ⟨token, rest⟩ := r
          obtain ⟨-, hcs, hwhole⟩ := next_eq_ok (Bool.eq_false_iff.mpr hc) hnext
          have hlength := congrArg List.length hcs
          have hbytes := congrArg byteSize hcs
          rw [List.length_append, List.length_cons] at hlength
          rw [byteSize_append, byteSize_cons] at hbytes
          have hpos := List.length_pos_iff.mpr hwhole.chars_ne
          have hpos' := byteSize_pos hwhole.chars_ne
          have hrest := @ih (before ++ token.chars) rest (by rw [hs, hcs, List.append_assoc]) fuel (by omega) (by omega)
            (token :: found)
          rwa [byteSize_append] at hrest

/-- A walk over the bytes of a text cuts out all parts where characters begin and end, and finds the same tokens. -/
theorem spans?_eq (s : String) : spans? s = some ((scan s).map (·.map span)) := by
  have hrounds : byteSize s.toList < s.utf8ByteSize + 1 := by
    rw [byteSize_toList]
    exact Nat.lt_succ_self _
  exact @spansFrom?_eq s [] s.toList rfl _ _ hrounds (Nat.lt_succ_self _) []

end

/-! ## Tiles -/

/-- Tokens that tile a text: none is blank, each ends before the next one starts, all start and end where characters of the text begin or
end, and every byte outside of them is a space or a tab. A quoted text has a quote at either end and quotes only in pairs between them, and
no further quote follows it. -/
structure Tiles (s : String) (tokens : List Token) : Prop where
  nonempty : ∀ t ∈ tokens, 0 < t.size
  ordered : tokens.Pairwise fun t u => t.start < u.start ∧ t.start + t.size ≤ u.start
  inside : ∀ t ∈ tokens, String.Pos.Raw.IsValid s ⟨t.start⟩ ∧ String.Pos.Raw.IsValid s ⟨t.start + t.size⟩ ∧
    slice? s t.start (t.start + t.size) = some t.text
  blank : ∀ i b, s.toUTF8.data[i]? = some b → (∀ t ∈ tokens, ¬(t.start ≤ i ∧ i < t.start + t.size)) →
    b = ' '.toUInt8 ∨ b = '\t'.toUInt8
  quoted : ∀ t ∈ tokens, t.kind = .str → (∃ inner, t.chars = '"' :: (Expr.doubled inner ++ ['"'])) ∧
    s.toUTF8.data[t.start + t.size]? ≠ some '"'.toUInt8

/-- A byte is seen as the character that has its number. -/
theorem getElem?_byteChars (s : String) (i : Nat) :
    (byteChars s)[i]? = s.toUTF8.data[i]?.map fun b => Char.ofNat b.toNat := by
  rw [byteChars, List.getElem?_map, Array.getElem?_toList]

/-- The bytes of what stands before end between two characters. -/
theorem isValid_byteSize {s : String} {before after : List Char} (hs : s.toList = before ++ after) :
    String.Pos.Raw.IsValid s ⟨byteSize before⟩ := by
  refine String.Pos.Raw.isValid_iff_exists_append.mpr ⟨.ofList before, .ofList after, ?_, ?_⟩
  · rw [← String.ofList_append, ← hs, String.ofList_toList]
  · rw [← utf8ByteSize_ofList]
    rfl

/-- What is read up to a closing quote has quotes only in pairs, and no quote comes next. -/
theorem exists_doubled {taken cs chars rest : List Char} (h : quotedOnto taken cs = some (chars, rest)) :
    ∃ inner, chars = taken.reverse ++ (Expr.doubled inner ++ ['"']) ∧ rest.head? ≠ some '"' := by
  fun_induction quotedOnto taken cs with
  | case1 => cases h
  | case2 taken rest' ih =>
    obtain ⟨inner, rfl, hrest⟩ := ih h
    exact ⟨'"' :: inner, by simp [Expr.doubled], hrest⟩
  | case3 taken rest' hother =>
    cases h
    exact ⟨[], by simp [Expr.doubled], head?_ne hother⟩
  | case4 taken c rest' _ hc ih =>
    have hc : c ≠ '"' := hc
    obtain ⟨inner, rfl, hrest⟩ := ih h
    exact ⟨c :: inner, by simp [Expr.doubled, hc], hrest⟩

/-- A quoted text is read with its quotes. -/
theorem quoted_of_next {start : Nat} {cs rest : List Char} {token : Token} (h : next start cs = .ok (token, rest))
    (hkind : token.kind = .str) :
    (∃ inner, token.chars = '"' :: (Expr.doubled inner ++ ['"'])) ∧ rest.head? ≠ some '"' := by
  unfold next at h
  split at h
  · split at h
    · cases h
    · rename_i hquoted
      cases h
      obtain ⟨inner, hchars, hrest⟩ := exists_doubled hquoted
      exact ⟨⟨inner, hchars⟩, hrest⟩
  split at h
  · rename_i hsymbol
    cases h
    exact absurd hkind (symbol?_eq_some hsymbol).1
  · dsimp only at h
    split at h
    · cases h
    · cases h
      exact absurd hkind (wordKind_ne_str _ _)

end Token

namespace Expr

variable {pieces : List Piece} {after : List Char}

/-- Blanks are single bytes. -/
theorem viewed_blanks (blanks : Blanks) : Token.viewed blanks.chars = blanks.chars := by
  have hascii : ∀ c ∈ blanks.chars, c.toNat < 128 := fun c hc => by
    rcases blanks.space_or_tab hc with rfl | rfl <;> decide
  generalize blanks.chars = cs at hascii
  induction cs with
  | nil => rfl
  | cons c cs ih =>
    rw [Token.viewed_cons, Token.viewed_ascii (hascii c List.mem_cons_self), ih fun d hd => hascii d (List.mem_cons_of_mem _ hd)]
    rfl

/-- A token of what is written stands in it and is read there. -/
theorem exists_lexes (h : Scans pieces after) {start : Nat} {t : Token} (ht : t ∈ tokensFrom start pieces) :
    ∃ before rest, written pieces = before ++ (t.chars ++ rest) ∧ t.start = start + byteSize before ∧
      Lexes t.kind t.chars (rest ++ after) := by
  induction pieces generalizing start with
  | nil => cases ht
  | cons piece pieces ih =>
    cases piece with
    | gap blanks =>
      obtain ⟨before, rest, hwritten, hstart, hlexes⟩ := ih h ht
      have hwidth : blanks.chars.length = byteSize blanks.chars := by rw [← Token.length_viewed, viewed_blanks]
      refine ⟨blanks.chars ++ before, rest, ?_, ?_, hlexes⟩
      · rw [List.append_assoc, ← hwritten]
        rfl
      · rw [hstart, byteSize_append, Piece.width, hwidth, Nat.add_assoc]
    | lexeme kind chars =>
      obtain ⟨hlexes, hscans⟩ := h
      rcases List.mem_cons.mp ht with rfl | ht
      · exact ⟨[], written pieces, rfl, rfl, hlexes⟩
      · obtain ⟨before, rest, hwritten, hstart, hlexes⟩ := ih hscans ht
        refine ⟨chars ++ before, rest, ?_, ?_, hlexes⟩
        · rw [List.append_assoc, ← hwritten]
          rfl
        · rw [hstart, byteSize_append, Piece.width, Nat.add_assoc]

/-- Each token of what is written ends before the next one starts. -/
theorem ordered_tokensFrom (h : Scans pieces after) (start : Nat) :
    (tokensFrom start pieces).Pairwise fun t u => t.start + t.size ≤ u.start := by
  induction pieces generalizing start with
  | nil => exact .nil
  | cons piece pieces ih =>
    cases piece with
    | gap blanks => exact ih h _
    | lexeme kind chars => exact .cons (pairwise_tokensFrom h.2 _).2 (ih h.2 _)

/-- Every byte of what is written is in a token, or it is blank. -/
theorem covered_or_blank {start j : Nat} {d : Char} (h : (Token.viewed (written pieces))[j]? = some d) :
    (∃ t ∈ tokensFrom start pieces, t.start ≤ start + j ∧ start + j < t.start + t.size) ∨ isSpaceOrTab d = true := by
  induction pieces generalizing start j with
  | nil => cases h
  | cons piece pieces ih =>
    have hwritten : written (piece :: pieces) = piece.chars ++ written pieces := rfl
    rw [hwritten, Token.viewed_append] at h
    have hlater {n : Nat} (hn : (Token.viewed piece.chars).length = n) (hle : n ≤ j) :
        (∃ t ∈ tokensFrom (start + n) pieces, t.start ≤ start + j ∧ start + j < t.start + t.size) ∨ isSpaceOrTab d = true := by
      rw [List.getElem?_append_right (hn ▸ hle), hn] at h
      have hcovered := @ih (start + n) _ h
      rwa [show start + n + (j - n) = start + j by omega] at hcovered
    cases piece with
    | gap blanks =>
      rw [Piece.chars, viewed_blanks] at h hlater
      rcases Nat.lt_or_ge j blanks.chars.length with hlt | hle
      · rw [List.getElem?_append_left hlt] at h
        exact .inr (List.all_eq_true.mp blanks.blank d (List.mem_of_getElem? h))
      · exact hlater rfl hle
    | lexeme kind chars =>
      rcases Nat.lt_or_ge j (byteSize chars) with hlt | hle
      · exact .inl ⟨⟨kind, start, chars⟩, List.mem_cons_self, Nat.le_add_right _ _, Nat.add_lt_add_left hlt _⟩
      · rcases hlater (Token.length_viewed chars) hle with ⟨t, ht, hin⟩ | hblank
        · exact .inl ⟨t, List.mem_cons_of_mem _ ht, hin⟩
        · exact .inr hblank

end Expr

namespace Token

/-- The tokens of a text tile it. -/
theorem tiles_of_scan {s : String} {tokens : List Token} (h : scan s = .ok tokens) : Tiles s tokens := by
  obtain ⟨pieces, hpieces, htokens, hscans⟩ := Expr.exists_pieces h (Nat.lt_succ_self _)
  obtain rfl : tokens = Expr.tokensFrom 0 pieces := htokens
  have hplace {t : Token} (ht : t ∈ Expr.tokensFrom 0 pieces) : ∃ before rest, s.toList = before ++ (t.chars ++ rest) ∧
      t.start = byteSize before ∧ Expr.Lexes t.kind t.chars (rest ++ [')']) := by
    obtain ⟨before, rest, hwritten, hstart, hlexes⟩ := Expr.exists_lexes (hscans []) ht
    exact ⟨before, rest, hpieces ▸ hwritten, hstart.trans (Nat.zero_add _), hlexes⟩
  have hnonempty {t : Token} (ht : t ∈ Expr.tokensFrom 0 pieces) : 0 < t.size := by
    obtain ⟨_, _, -, -, hlexes⟩ := hplace ht
    obtain ⟨c, tail, hchars, -⟩ := hlexes.first
    exact byteSize_pos (by rw [hchars]; exact List.cons_ne_nil _ _)
  exact {
    nonempty := fun t => hnonempty
    ordered := (Expr.ordered_tokensFrom (hscans []) 0).imp_of_mem fun ht _ hle =>
      ⟨Nat.lt_of_lt_of_le (Nat.lt_add_of_pos_right (hnonempty ht)) hle, hle⟩
    inside := fun t ht => by
      obtain ⟨before, rest, hs, hstart, -⟩ := hplace ht
      have hsplit : s.toList = (before ++ t.chars) ++ rest := by rw [hs, List.append_assoc]
      have hstop := isValid_byteSize hsplit
      rw [byteSize_append] at hstop
      rw [hstart]
      exact ⟨isValid_byteSize hs, hstop, slice?_eq hs⟩
    blank := fun i b hb hout => by
      have hview : (viewed (Expr.written pieces))[0 + i]? = some (Char.ofNat b.toNat) := by
        rw [hpieces, ← byteChars_eq, getElem?_byteChars, Nat.zero_add, hb, Option.map_some]
      rcases Expr.covered_or_blank hview with ⟨t, ht, hin⟩ | hblank
      · rw [Nat.zero_add, Nat.zero_add] at hin
        exact absurd hin (hout t ht)
      · refine (Expr.isSpaceOrTab_iff.mp hblank).imp (fun hc => UInt8.toNat_inj.mp ?_) fun hc => UInt8.toNat_inj.mp ?_
        all_goals
          rw [← toNat_ofNat_byte, hc]
          rfl
    quoted := fun t ht hkind => by
      obtain ⟨before, rest, hs, hstart, hlexes⟩ := hplace ht
      obtain ⟨hchars, hnext⟩ := quoted_of_next (hlexes.next_eq 0) hkind
      refine ⟨hchars, fun hbyte => hnext ?_⟩
      have hview := congrArg List.head? (@drop_byteChars s (before ++ t.chars) rest (hs.trans (List.append_assoc _ _ _).symm))
      rw [List.head?_drop, getElem?_byteChars, byteSize_append, ← hstart] at hview
      have hview := hview.symm.trans (congrArg (Option.map fun b => Char.ofNat b.toNat) hbyte)
      rw [List.head?_append, (head?_viewed (by decide)).mp hview]
      rfl }

/-- A walk over the bytes of a text ends, and each part that it cuts out starts and ends where characters of the text do. It finds the tokens
that are scanned, or the same problem, and the tokens tile the text. -/
theorem scan_tiles (s : String) :
    spans? s = some ((scan s).map (·.map span)) ∧ ∀ tokens, scan s = .ok tokens → Tiles s tokens :=
  ⟨spans?_eq s, fun _ => tiles_of_scan⟩

/-- The tokens of a text with characters of one, two and three bytes. -/
def accentedTokens : List Token := [
  ⟨.operand, 1, ['é']⟩, ⟨.op .concat, 4, ['.']⟩, ⟨.str, 6, ['"', '∞', '"', '"', '"']⟩, ⟨.op .pow, 14, ['*', '*']⟩,
  ⟨.function, 17, ['ß']⟩, ⟨.leftParen, 19, ['(']⟩, ⟨.operand, 20, ['n', '%', 'ü', '%']⟩, ⟨.rightParen, 25, [')']⟩]

/-- A text with accented letters is scanned, and its tokens tile it. -/
theorem accentedTokens_tile :
    scan " é . \"∞\"\"\"\t** ß(n%ü%)" = .ok accentedTokens ∧ Tiles " é . \"∞\"\"\"\t** ß(n%ü%)" accentedTokens := by
  have hfound : (scan " é . \"∞\"\"\"\t** ß(n%ü%)").toOption = some accentedTokens := by decide +kernel
  have hscan : scan " é . \"∞\"\"\"\t** ß(n%ü%)" = .ok accentedTokens := by
    cases h : scan " é . \"∞\"\"\"\t** ß(n%ü%)" with
    | error e => rw [h] at hfound; cases hfound
    | ok tokens => rw [h] at hfound; exact congrArg _ (Option.some.inj hfound)
  exact ⟨hscan, (scan_tiles _).2 _ hscan⟩

end Token

end LineScript
