import LineScript.Proofs.Expr.Term
import LineScript.Proofs.Text.Offsets

/-!
# Scanning what is written

The scanner finds the pieces of a written term again. Whether it stops at the end of a piece depends on the character that
follows: a word needs a terminator, a quoted text no further quote, and an operator no character that would make it longer.
`Closes` and `Opens` say what follows an operand and what follows an operator, and a term is always written so that both hold.
-/

namespace LineScript

namespace Expr

/-! ## Pieces and tokens -/

/-- The number of bytes of a piece. Blanks are a byte each. -/
def Piece.width : Piece → Nat
  | .gap blanks => blanks.chars.length
  | .lexeme _ chars => Text.byteSize chars

/-- The tokens of some pieces from an offset on. -/
def tokensFrom : (start : Nat) → List Piece → List Token
  | _, [] => []
  | start, piece :: pieces =>
    match piece with
    | .gap _ => tokensFrom (start + piece.width) pieces
    | .lexeme kind chars => ⟨kind, start, chars⟩ :: tokensFrom (start + piece.width) pieces

/-- The tokens of some pieces and then others are those of the first, and those of the others further on. -/
theorem tokensFrom_append (start : Nat) (pieces pieces' : List Piece) :
    tokensFrom start (pieces ++ pieces') =
      tokensFrom start pieces ++ tokensFrom (pieces.foldl (fun offset piece => offset + piece.width) start) pieces' := by
  induction pieces generalizing start with
  | nil => rfl
  | cons piece pieces ih =>
    cases piece with
    | gap blanks => exact ih _
    | lexeme kind chars => exact congrArg (_ :: ·) (ih _)

/-- Pieces are written one after the other. -/
theorem written_append (pieces pieces' : List Piece) : written (pieces ++ pieces') = written pieces ++ written pieces' :=
  List.flatMap_append

/-- A token in front of a text is read as such, and it does not start with a blank. -/
structure Lexes (kind : TokenKind) (chars rest : List Char) : Prop where
  first : ∃ c tail, chars = c :: tail ∧ Text.isSpaceOrTab c = false
  next_eq : ∀ start, Token.next start (chars ++ rest) = .ok (⟨kind, start, chars⟩, rest)

/-- All pieces in front of a text are found again. -/
def Scans : List Piece → (after : List Char) → Prop
  | [], _ => True
  | .gap _ :: pieces, after => Scans pieces after
  | .lexeme kind chars :: pieces, after => Lexes kind chars (written pieces ++ after) ∧ Scans pieces after

/-- Pieces are found again if the first are before the others, and the others after them. -/
theorem scans_append {pieces pieces' : List Piece} {after : List Char} :
    Scans (pieces ++ pieces') after ↔ Scans pieces (written pieces' ++ after) ∧ Scans pieces' after := by
  induction pieces with
  | nil => simp [Scans]
  | cons piece pieces ih =>
    cases piece with
    | gap blanks => exact ih
    | lexeme kind chars => simp only [List.cons_append, Scans, ih, written_append, List.append_assoc, and_assoc]

/-- Blanks are passed over. -/
theorem scanOnto_blanks (blanks : Blanks) {fuel start : Nat} {found : List Token} {rest : List Char} :
    Token.scanOnto (fuel + blanks.chars.length) found start (blanks.chars ++ rest) =
      Token.scanOnto fuel found (start + blanks.chars.length) rest := by
  obtain ⟨chars, hblank⟩ := blanks
  induction chars generalizing start with
  | nil => rfl
  | cons c cs ih =>
    obtain ⟨hc, hcs⟩ : Text.isSpaceOrTab c = true ∧ cs.all Text.isSpaceOrTab = true := by
      rwa [List.all_cons, Bool.and_eq_true] at hblank
    have ih := @ih (start + 1) hcs
    simp only [List.length_cons, List.cons_append, ← Nat.add_assoc, Token.scanOnto, hc, if_true] at ih ⊢
    rw [ih, Nat.add_right_comm]

/-- Scanning what is written gives the tokens of its pieces. -/
theorem scanOnto_written {pieces : List Piece} (h : Scans pieces []) {fuel start : Nat} {found : List Token}
    (hfuel : (written pieces).length < fuel) :
    Token.scanOnto fuel found start (written pieces) = .ok (found.reverse ++ tokensFrom start pieces) := by
  induction pieces generalizing fuel start found with
  | nil =>
    obtain ⟨fuel, rfl⟩ : ∃ f, fuel = f + 1 := ⟨fuel - 1, by omega⟩
    simp [written, Token.scanOnto, tokensFrom]
  | cons piece pieces ih =>
    cases piece with
    | gap blanks =>
      have hlength : (written (.gap blanks :: pieces)).length = blanks.chars.length + (written pieces).length :=
        List.length_append
      obtain ⟨fuel, rfl⟩ : ∃ f, fuel = f + blanks.chars.length := ⟨fuel - blanks.chars.length, by omega⟩
      exact (scanOnto_blanks blanks).trans (ih h (by omega))
    | lexeme kind chars =>
      have hlength : (written (.lexeme kind chars :: pieces)).length = chars.length + (written pieces).length :=
        List.length_append
      obtain ⟨hlexes, hscans⟩ := h
      obtain ⟨c, tail, rfl, hc⟩ := hlexes.first
      have hnext := hlexes.next_eq start
      obtain ⟨fuel, rfl⟩ : ∃ f, fuel = f + 1 := ⟨fuel - 1, by omega⟩
      rw [List.length_cons] at hlength
      rw [List.append_nil, List.cons_append] at hnext
      have hwritten : written (.lexeme kind (c :: tail) :: pieces) = c :: (tail ++ written pieces) := rfl
      rw [hwritten]
      simp only [Token.scanOnto, hc, Bool.false_eq_true, if_false, hnext]
      rw [ih hscans (by omega), List.reverse_cons, List.append_assoc]
      rfl

/-- The tokens of what is written start one after the other. -/
theorem pairwise_tokensFrom {pieces : List Piece} {after : List Char} (h : Scans pieces after) (start : Nat) :
    (tokensFrom start pieces).Pairwise (·.start < ·.start) ∧ ∀ t ∈ tokensFrom start pieces, start ≤ t.start := by
  induction pieces generalizing start with
  | nil => exact ⟨.nil, nofun⟩
  | cons piece pieces ih =>
    cases piece with
    | gap blanks =>
      obtain ⟨hpairs, hle⟩ := ih h (start + blanks.chars.length)
      exact ⟨hpairs, fun t ht => Nat.le_trans (Nat.le_add_right _ _) (hle t ht)⟩
    | lexeme kind chars =>
      obtain ⟨hlexes, hscans⟩ := h
      obtain ⟨c, tail, rfl, -⟩ := hlexes.first
      obtain ⟨hpairs, hle⟩ := ih hscans (start + Text.byteSize (c :: tail))
      have hlt : ∀ t ∈ tokensFrom (start + Text.byteSize (c :: tail)) pieces, start < t.start := fun t ht =>
        Nat.lt_of_lt_of_le (Nat.lt_add_of_pos_right (Text.byteSize_pos (List.cons_ne_nil c tail))) (hle t ht)
      refine ⟨.cons hlt hpairs, fun t ht => ?_⟩
      rcases List.mem_cons.mp ht with rfl | ht
      · exact Nat.le_refl _
      · exact Nat.le_of_lt (hlt t ht)

/-! ## What follows a piece -/

/-- What may follow an operand: nothing, or a terminator that neither opens nor quotes. -/
def Closes (after : List Char) : Prop :=
  ∀ c ∈ after.head?, Token.isTerminator c = true ∧ c ≠ '(' ∧ c ≠ '"'

/-- What may follow an operator: nothing that would make it longer. -/
def Opens (text : List Char) : Prop :=
  ∀ c ∈ text.head?, c ∉ ['*', '/', '&', '|', '=', '<', '>']

theorem closes_nil : Closes [] :=
  nofun

theorem isSpaceOrTab_iff {c : Char} : Text.isSpaceOrTab c = true ↔ c = ' ' ∨ c = '\t' := by
  simp [Text.isSpaceOrTab]

theorem Blanks.space_or_tab (blanks : Blanks) {c : Char} (h : c ∈ blanks.chars) : c = ' ' ∨ c = '\t' :=
  isSpaceOrTab_iff.mp (List.all_eq_true.mp blanks.blank c h)

/-- Blanks that are there close whatever follows. -/
theorem closes_of_blanks {blanks : Blanks} (h : blanks.chars ≠ []) (text : List Char) : Closes (blanks.chars ++ text) := by
  obtain ⟨c, cs, hchars⟩ := List.exists_cons_of_ne_nil h
  have hc := blanks.space_or_tab (hchars ▸ List.mem_cons_self ..)
  rw [hchars]
  rintro _ ⟨⟩
  rcases hc with rfl | rfl <;> decide

/-- Blanks before what closes an operand close it as well. -/
theorem Closes.blanks {after : List Char} (h : Closes after) (blanks : Blanks) : Closes (blanks.chars ++ after) := by
  by_cases hnil : blanks.chars = []
  · rwa [hnil]
  · exact closes_of_blanks hnil after

/-- Blanks before what may follow an operator may follow it as well. -/
theorem Opens.blanks {text : List Char} (h : Opens text) (blanks : Blanks) : Opens (blanks.chars ++ text) := by
  cases hchars : blanks.chars with
  | nil => exact h
  | cons c cs =>
    have hc := blanks.space_or_tab (hchars ▸ List.mem_cons_self ..)
    rintro _ ⟨⟩
    rcases hc with rfl | rfl <;> decide

/-- What is no terminator may follow an operator. -/
theorem opens_of_plain {c : Char} (h : Token.isTerminator c = false) (text : List Char) : Opens (c :: text) := by
  rintro _ ⟨⟩ hc
  have hterminates : ['*', '/', '&', '|', '=', '<', '>'].all Token.isTerminator = true := by decide
  exact Bool.false_ne_true (h.symm.trans (List.all_eq_true.mp hterminates c hc))

/-! ## Words -/

/-- A plain character neither ends a word nor is refused in one. -/
theorem isPlain_iff {c : Char} : isPlain c = true ↔ Token.isTerminator c = false ∧ Token.isIllegal c = false := by
  simp [isPlain]

/-- The characters of a word neither end it nor are refused in it. -/
theorem Word.plain_of_mem (word : Word) {c : Char} (h : c ∈ word.chars) :
    Token.isTerminator c = false ∧ Token.isIllegal c = false :=
  isPlain_iff.mp (List.all_eq_true.mp word.plain c h)

/-- What starts like a name starts with neither a digit nor a point. -/
theorem startsName_cons {c : Char} {cs : List Char} (h : startsName (c :: cs) = true) : c.isDigit = false ∧ c ≠ '.' := by
  simpa [startsName] using h

theorem isSpaceOrTab_of_plain {c : Char} (h : Token.isTerminator c = false) : Text.isSpaceOrTab c = false := by
  rw [Bool.eq_false_iff, Ne, isSpaceOrTab_iff]
  rintro (rfl | rfl) <;> cases h

/-- A character that ends no word and is no point starts no symbol. -/
theorem symbol?_eq_none {c : Char} (h : Token.isTerminator c = false) (hpoint : c ≠ '.') (cs : List Char) :
    Token.symbol? (c :: cs) = none := by
  generalize htext : c :: cs = text
  fun_cases Token.symbol? text
  all_goals cases htext
  any_goals rfl
  any_goals exact absurd rfl hpoint
  all_goals cases h

/-- A word is read up to the next terminator. -/
theorem lexes_word (word : Word) {kind : TokenKind} {rest : List Char} (hsymbol : Token.symbol? (word.chars ++ rest) = none)
    (hkind : Token.wordKind word.chars rest = kind) (hend : ∀ c ∈ rest.head?, Token.isTerminator c = true) :
    Lexes kind word.chars rest := by
  obtain ⟨c, tail, hchars⟩ := List.exists_cons_of_ne_nil word.nonempty
  have hc : Token.isTerminator c = false := (word.plain_of_mem (hchars ▸ List.mem_cons_self ..)).1
  have hword : ∀ c ∈ word.chars, (!Token.isTerminator c) = true := fun c hc => by rw [(word.plain_of_mem hc).1]; rfl
  have htake : (word.chars ++ rest).takeWhile (!Token.isTerminator ·) = word.chars := by
    rw [List.takeWhile_append_of_pos hword]
    cases rest with
    | nil => simp
    | cons d rest => simp [hend d rfl]
  have hdrop : (word.chars ++ rest).dropWhile (!Token.isTerminator ·) = rest := by
    rw [List.dropWhile_append_of_pos hword]
    cases rest with
    | nil => rfl
    | cons d rest => simp [hend d rfl]
  have hlegal : word.chars.find? Token.isIllegal = none :=
    List.find?_eq_none.mpr fun c hc => by rw [(word.plain_of_mem hc).2]; exact Bool.false_ne_true
  refine ⟨⟨c, tail, hchars, isSpaceOrTab_of_plain hc⟩, fun start => ?_⟩
  unfold Token.next
  split
  · rename_i heq
    rw [hchars] at heq
    obtain rfl : c = '"' := (List.cons.inj heq).1
    cases hc
  · simp only [hsymbol, htake, hdrop, hlegal, hkind]

/-- What starts like a number starts with a digit, or with a point and a digit. -/
theorem startsNumber_cons {c : Char} {cs : List Char} (h : startsNumber (c :: cs) = true) :
    c.isDigit = true ∨ c = '.' ∧ ∃ d rest, cs = d :: rest ∧ d.isDigit = true := by
  unfold startsNumber at h
  split at h
  · rename_i d rest heq
    obtain ⟨rfl, rfl⟩ := List.cons.inj heq
    exact .inr ⟨rfl, d, rest, rfl, h⟩
  · rename_i heq
    exact .inl ((List.cons.inj heq).1 ▸ h)
  · cases h

/-- A number is read as one where something closes it. -/
theorem Numeral.lexes (numeral : Numeral) {rest : List Char} (h : Closes rest) : Lexes .number numeral.chars rest := by
  have hstarts := numeral.starts
  obtain ⟨c, tail, hchars⟩ := List.exists_cons_of_ne_nil numeral.nonempty
  have hc : Token.isTerminator c = false := (numeral.plain_of_mem (hchars ▸ List.mem_cons_self ..)).1
  rw [hchars] at hstarts
  refine lexes_word numeral.toWord ?_ ?_ fun c hc => (h c hc).1
  · rw [hchars]
    rcases startsNumber_cons hstarts with hdigit | ⟨rfl, d, tail, rfl, hdigit⟩
    · exact symbol?_eq_none hc (by rintro rfl; cases hdigit) _
    · simp [Token.symbol?, hdigit]
  · rw [hchars]
    rcases startsNumber_cons hstarts with hdigit | ⟨rfl, -⟩
    · simp [Token.wordKind, hdigit]
    · simp [Token.wordKind]

/-- A word that does not start like a number spells an operator or is a name. -/
theorem wordKind_cons {c : Char} (hdigit : c.isDigit = false) (hpoint : c ≠ '.') (cs rest : List Char) :
    Token.wordKind (c :: cs) rest = match operatorWord? (c :: cs) with
      | some op => .op op
      | none => if !(c :: cs).contains '%' && rest.head? == some '(' then .function else .operand := by
  simp only [Token.wordKind, operatorWord?, hdigit, hpoint, beq_iff_eq, Bool.false_or, if_false]
  generalize (c :: cs).map Char.toLower = lower
  by_cases hand : lower = ['a', 'n', 'd']
  · subst hand
    rfl
  · by_cases hor : lower = ['o', 'r']
    · subst hor
      rfl
    · by_cases hnot : lower = ['n', 'o', 't']
      · subst hnot
        rfl
      · simp [operatorWords, List.lookup_cons, hand, hor, hnot, beq_eq_false_iff_ne.mpr hand, beq_eq_false_iff_ne.mpr hor,
          beq_eq_false_iff_ne.mpr hnot]

/-- A name is a word that starts no symbol. -/
theorem Identifier.wordKind_eq (name : Identifier) (rest : List Char) :
    Token.symbol? (name.chars ++ rest) = none ∧
      Token.wordKind name.chars rest =
        if !name.chars.contains '%' && rest.head? == some '(' then .function else .operand := by
  have hstarts := name.starts
  have hnot := name.notOperator
  obtain ⟨c, tail, hchars⟩ := List.exists_cons_of_ne_nil name.nonempty
  have hc : Token.isTerminator c = false := (name.plain_of_mem (hchars ▸ List.mem_cons_self ..)).1
  rw [hchars] at hstarts hnot ⊢
  obtain ⟨hdigit, hpoint⟩ := startsName_cons hstarts
  exact ⟨symbol?_eq_none hc hpoint _, by rw [wordKind_cons hdigit hpoint, hnot]⟩

/-- A name is read as an operand where something closes it. -/
theorem Identifier.lexes (name : Identifier) {rest : List Char} (h : Closes rest) : Lexes .operand name.chars rest := by
  obtain ⟨hsymbol, hkind⟩ := name.wordKind_eq rest
  refine lexes_word name.toWord hsymbol (hkind.trans (if_neg ?_)) fun c hc => (h c hc).1
  rw [Bool.and_eq_true, beq_iff_eq]
  exact fun hparen => (h _ hparen.2).2.1 rfl

/-- A name with a parenthesis right after it is read as a function's. -/
theorem FunctionName.lexes (name : FunctionName) (rest : List Char) : Lexes .function name.chars ('(' :: rest) := by
  obtain ⟨hsymbol, hkind⟩ := name.toIdentifier.wordKind_eq ('(' :: rest)
  refine lexes_word name.toWord hsymbol (hkind.trans (if_pos ?_)) ?_
  · simpa using name.direct
  · rintro _ ⟨⟩
    rfl

/-- A character that is a small letter in lower case is that letter or its capital. -/
theorem eq_or_capital_of_toLower {c d : Char} (h : c.toLower = d) : c = d ∨ c = Char.ofNat (d.toNat - 32) := by
  unfold Char.toLower at h
  split at h
  · rename_i hupper
    have hle : c.toNat ≤ 90 := hupper.2
    have hsum : d.toNat = c.toNat + 32 := by
      rw [← h]
      show (c.val + 32).toNat = c.toNat + 32
      rw [UInt32.toNat_add]
      exact Nat.mod_eq_of_lt (by change c.toNat + 32 < _; omega)
    exact .inr (by rw [hsum, Nat.add_sub_cancel, Char.ofNat_toNat])
  · exact .inl h

/-- A word that spells an operator is in the list of those, in small letters. -/
theorem mem_operatorWords {chars : List Char} {op : Op} (h : operatorWord? chars = some op) :
    (chars.map Char.toLower, op) ∈ operatorWords := by
  obtain ⟨before, after, heq, -⟩ := List.lookup_eq_some_iff.mp h
  rw [heq]
  exact List.mem_append_right before (List.mem_cons_self ..)

/-- Operators that are words are spelled as names are, whatever the case of their letters. -/
theorem plain_of_operatorWord {chars : List Char} {op : Op} (h : operatorWord? chars = some op) :
    chars ≠ [] ∧ ∀ c ∈ chars, isPlain c = true ∧ startsName [c] = true := by
  have hletters : ∀ word ∈ operatorWords, word.1 ≠ [] ∧
      (word.1.flatMap fun d => [d, Char.ofNat (d.toNat - 32)]).all (fun c => isPlain c && startsName [c]) = true := by decide
  obtain ⟨hne, hall⟩ := hletters _ (mem_operatorWords h)
  refine ⟨fun hnil => hne (by rw [hnil, List.map_nil]), fun c hc => ?_⟩
  have hmem : c ∈ (chars.map Char.toLower).flatMap fun d => [d, Char.ofNat (d.toNat - 32)] :=
    List.mem_flatMap.mpr ⟨c.toLower, List.mem_map_of_mem hc, by simpa using eq_or_capital_of_toLower rfl⟩
  simpa using List.all_eq_true.mp hall c hmem

/-- A word that spells an operator is read as that operator. -/
theorem lexes_operatorWord {chars : List Char} {op : Op} (h : operatorWord? chars = some op) {rest : List Char}
    (hend : ∀ c ∈ rest.head?, Token.isTerminator c = true) : Lexes (.op op) chars rest := by
  obtain ⟨hne, hplain⟩ := plain_of_operatorWord h
  obtain ⟨c, tail, rfl⟩ := List.exists_cons_of_ne_nil hne
  obtain ⟨hc, hstarts⟩ := hplain c (List.mem_cons_self ..)
  obtain ⟨hdigit, hpoint⟩ := startsName_cons hstarts
  exact lexes_word ⟨c :: tail, hne, List.all_eq_true.mpr fun c hc => (hplain c hc).1⟩
    (symbol?_eq_none (isPlain_iff.mp hc).1 hpoint _) (by rw [wordKind_cons hdigit hpoint, h]) hend

/-! ## Symbols and quoted texts -/

/-- A symbol is read where the scanner knows it. -/
theorem lexes_symbol {kind : TokenKind} {c : Char} {cs rest : List Char} (hblank : Text.isSpaceOrTab c = false)
    (hquote : c ≠ '"') (h : Token.symbol? (c :: cs ++ rest) = some (kind, (c :: cs).length)) : Lexes kind (c :: cs) rest := by
  refine ⟨⟨c, cs, rfl, hblank⟩, fun start => ?_⟩
  unfold Token.next
  split
  · rename_i heq
    exact absurd (List.cons.inj heq).1 hquote
  · simp only [h, List.take_left', List.drop_left']

/-- An operator is read as it is written, unless what follows makes it longer. -/
theorem symbol?_of_mem_symbols {op : Op} {cs rest : List Char} (h : cs ∈ symbols op) (hrest : Opens rest) :
    Token.symbol? (cs ++ rest) = some (.op op, cs.length) := by
  rcases rest with _ | ⟨c, rest⟩
  · revert cs
    cases op <;> decide
  · have hne := hrest c rfl
    simp only [List.mem_cons, List.not_mem_nil, or_false, not_or] at hne
    obtain ⟨hmul, hdiv, hand, hor, heq, hlt, hgt⟩ := hne
    cases op <;> simp only [symbols, List.mem_cons, List.not_mem_nil, or_false] at h
    case ne => rcases h with rfl | rfl <;> rfl
    all_goals
      subst h
      simp [Token.symbol?, hmul, hdiv, hand, hor, heq, hlt, hgt]

/-- The symbols of operators start with a terminator that closes what stands before them. -/
theorem symbols_start {op : Op} {cs : List Char} (h : cs ∈ symbols op) :
    ∃ c tail, cs = c :: tail ∧ Text.isSpaceOrTab c = false ∧ Token.isTerminator c = true ∧ c ≠ '(' ∧ c ≠ '"' := by
  have hstart : ∀ cs ∈ symbols op,
      cs.head?.any (fun c => !Text.isSpaceOrTab c && Token.isTerminator c && c != '(' && c != '"') = true := by
    cases op <;> decide
  have hhead := hstart cs h
  cases cs with
  | nil => cases hhead
  | cons c tail => exact ⟨c, tail, rfl, by simpa [and_assoc] using hhead⟩

/-- A sign is read as it is written. -/
theorem Sign.lexes (sign : Sign) {rest : List Char} (h : Opens rest) : Lexes (.op sign.op) [sign.char] rest := by
  cases sign with
  | not =>
    refine lexes_symbol rfl (by decide) ?_
    cases rest with
    | nil => rfl
    | cons c rest =>
      have hc := h c rfl
      simp only [List.mem_cons, List.not_mem_nil, or_false, not_or] at hc
      simp [Token.symbol?, Sign.char, Sign.op, hc]
  | minus | plus | complement => exact lexes_symbol rfl (by decide) rfl

/-- Quotes inside a text are doubled, so the scanner finds the one that closes it. -/
theorem quotedOnto_doubled (cs taken : List Char) {rest : List Char} (hrest : ∀ c ∈ rest.head?, c ≠ '"') :
    Token.quotedOnto taken (doubled cs ++ '"' :: rest) = some (taken.reverse ++ (doubled cs ++ ['"']), rest) := by
  induction cs generalizing taken with
  | nil =>
    cases rest with
    | nil => simp [doubled, Token.quotedOnto]
    | cons c rest => simp [doubled, Token.quotedOnto, hrest c rfl]
  | cons c cs ih =>
    by_cases hc : c = '"'
    · simp [doubled, hc, Token.quotedOnto, ih]
    · simp [doubled, hc, Token.quotedOnto, ih]

/-- A text in quotes is read as one where something closes it. -/
theorem lexes_quote (cs : List Char) {rest : List Char} (h : Closes rest) : Lexes .str (quote cs) rest := by
  refine ⟨⟨'"', _, rfl, rfl⟩, fun start => ?_⟩
  have hquoted := quotedOnto_doubled cs ['"'] fun c hc => (h c hc).2.2
  simp only [quote, List.cons_append, List.append_assoc, List.nil_append, Token.next, hquoted, List.reverse_singleton]

/-! ## Operators with their blanks -/

namespace Spelling

variable {op : Op} (spelling : Spelling op)

/-- An operator closes the operand before it. -/
theorem closes (text : List Char) : Closes (spelling.before.chars ++ (spelling.chars ++ text)) := by
  rcases spelling.spelled with hsymbol | ⟨-, hbefore, -⟩
  · obtain ⟨c, tail, hchars, -, hc⟩ := symbols_start hsymbol
    refine Closes.blanks ?_ spelling.before
    rw [hchars]
    rintro _ ⟨⟩
    exact hc
  · exact closes_of_blanks hbefore _

/-- An operator is read as it is spelled, with its blanks before what may follow. -/
theorem lexes {text : List Char} (h : Opens text) :
    Lexes (.op op) spelling.chars (spelling.after.chars ++ text) := by
  rcases spelling.spelled with hsymbol | ⟨hword | ⟨rfl, hpoint⟩, -, hafter⟩
  · obtain ⟨c, tail, hchars, hblank, -, -, hquote⟩ := symbols_start hsymbol
    have hread := symbol?_of_mem_symbols hsymbol (h.blanks spelling.after)
    rw [hchars] at hread ⊢
    exact lexes_symbol hblank hquote hread
  · exact lexes_operatorWord hword fun c hc => (closes_of_blanks hafter text c hc).1
  · rw [hpoint]
    refine lexes_symbol rfl (by decide) ?_
    obtain ⟨c, cs, hchars⟩ := List.exists_cons_of_ne_nil hafter
    have hc : c.isDigit = false := by
      rcases spelling.after.space_or_tab (hchars ▸ List.mem_cons_self ..) with rfl | rfl <;> rfl
    simp [hchars, Token.symbol?, hc]

end Spelling

/-! ## Terms -/

/-- Pieces that stand as an operand does: they are found again before whatever closes them, and may follow an operator. -/
structure Stands (pieces : List Piece) : Prop where
  scans : ∀ after, Closes after → Scans pieces after
  opens : ∀ after, Opens (written pieces ++ after)

/-- A single token stands as an operand if it is read wherever it is closed and may follow an operator. -/
theorem stands_lexeme {kind : TokenKind} {chars : List Char} (h : ∀ after, Closes after → Lexes kind chars after)
    (hopens : ∀ after, Opens (chars ++ after)) : Stands [.lexeme kind chars] where
  scans after hafter := ⟨h after hafter, trivial⟩
  opens after := by
    rw [written, List.flatMap_singleton]
    exact hopens after

/-- A word may follow an operator. -/
theorem Word.opens (word : Word) (after : List Char) : Opens (word.chars ++ after) := by
  obtain ⟨c, tail, hchars⟩ := List.exists_cons_of_ne_nil word.nonempty
  rw [hchars]
  exact opens_of_plain (word.plain_of_mem (hchars ▸ List.mem_cons_self ..)).1 _

section

variable (style : Style) {pieces : List Piece}

/-- Pieces in parentheses stand as an operand. -/
theorem stands_parenthesized (h : ∀ after, Closes after → Scans pieces after) : Stands (style.parenthesized pieces) where
  scans after hafter := by
    have hclose : Closes (')' :: after) := by
      rintro _ ⟨⟩
      decide
    refine ⟨lexes_symbol rfl (by decide) rfl, scans_append.mpr ⟨h _ ?_, lexes_symbol rfl (by decide) rfl, trivial⟩⟩
    simpa [written, Style.gap, Piece.chars] using hclose.blanks (style.blanks .beforeClosing)
  opens after := by
    rintro _ ⟨⟩
    decide

/-- Put in parentheses where needed or not, an operand stands. -/
theorem Stands.operand (h : Stands pieces) (least level : Nat) : Stands (style.operand least level pieces) := by
  unfold Style.operand
  split
  · exact stands_parenthesized style h.scans
  · exact h

/-- An operand with a sign stands as an operand. -/
theorem Stands.signed (h : Stands pieces) (sign : Sign) :
    Stands (.lexeme (.op sign.op) [sign.char] :: style.gap .afterSign :: pieces) where
  scans after hafter := by
    refine ⟨sign.lexes ?_, h.scans after hafter⟩
    simpa [written, Style.gap, Piece.chars] using (h.opens after).blanks (style.blanks .afterSign)
  opens after := by
    rintro _ ⟨⟩
    cases sign <;> decide

/-- An operand with the word `not` stands as an operand. -/
theorem Stands.negation (h : Stands pieces) :
    Stands (.lexeme (.op .not) style.notWord :: .gap style.afterNot :: pieces) where
  scans after hafter := by
    refine ⟨lexes_operatorWord style.notWord_spelled fun c hc => ?_, h.scans after hafter⟩
    refine (closes_of_blanks style.afterNot_nonempty (written pieces ++ after) c ?_).1
    simpa [written, Piece.chars] using hc
  opens after := by
    obtain ⟨hne, hplain⟩ := plain_of_operatorWord style.notWord_spelled
    obtain ⟨c, tail, hchars⟩ := List.exists_cons_of_ne_nil hne
    have hopens := opens_of_plain (isPlain_iff.mp (hplain c (hchars ▸ List.mem_cons_self ..)).1).1
    simpa [written, Piece.chars, hchars] using hopens _

/-- Two operands with an operator between them stand as an operand. -/
theorem Stands.binary {left : List Piece} (hleft : Stands left) (h : Stands pieces) (op : BinaryOp) :
    Stands (left ++ (style.operator op ++ pieces)) where
  scans after hafter := by
    refine scans_append.mpr ⟨hleft.scans _ ?_, ?_, h.scans after hafter⟩
    · simpa [written, Style.operator, Piece.chars] using (style.spelling op).closes _
    · simpa [written, Piece.chars] using (style.spelling op).lexes (h.opens after)
  opens after := by
    rw [written_append, List.append_assoc]
    exact hleft.opens _

/-- A power stands as an operand. -/
theorem Stands.power {base : List Piece} (hbase : Stands base) (h : Stands pieces) :
    Stands (base ++ (style.gap .beforePower :: .lexeme (.op .pow) ['*', '*'] :: style.gap .afterPower :: pieces)) where
  scans after hafter := by
    refine scans_append.mpr ⟨hbase.scans _ ?_, lexes_symbol rfl (by decide) rfl, h.scans after hafter⟩
    have hclose (text : List Char) : Closes ('*' :: text) := by
      rintro _ ⟨⟩
      decide
    simpa [written, Style.gap, Piece.chars] using (hclose _).blanks (style.blanks .beforePower)
  opens after := by
    rw [written_append, List.append_assoc]
    exact hbase.opens _

/-- A call stands as an operand. -/
theorem FunctionName.stands (name : FunctionName) (h : ∀ after, Closes after → Scans pieces after) :
    Stands (.lexeme .function name.chars :: style.parenthesized pieces) where
  scans after hafter := ⟨name.lexes _, (stands_parenthesized style h).scans after hafter⟩
  opens after := by
    rw [written, List.flatMap_cons, List.append_assoc]
    exact name.toWord.opens _

/-- Arguments are found again, one after the other. -/
theorem scans_argument {arg args : List Piece} (harg : Stands arg) (hargs : ∀ after, Closes after → Scans args after) :
    ∀ after, Closes after → Scans (arg ++ (style.comma ++ args)) after := by
  intro after hafter
  refine scans_append.mpr ⟨harg.scans _ ?_, lexes_symbol rfl (by decide) rfl, hargs after hafter⟩
  have hclose (text : List Char) : Closes (',' :: text) := by
    rintro _ ⟨⟩
    decide
  simpa [written, Style.comma, Style.gap, Piece.chars] using (hclose _).blanks (style.blanks .beforeComma)

end

mutual

/-- A written term is found again piece by piece. -/
theorem Term.stands (style : Style) : (term : Term) → Stands (term.pieces style)
  | .number numeral => stands_lexeme (fun _ => numeral.lexes) numeral.toWord.opens
  | .text s => stands_lexeme (fun _ => lexes_quote s.toList) fun _ => by rintro _ ⟨⟩; decide
  | .var name => stands_lexeme (fun _ => name.lexes) name.toWord.opens
  | .signed sign operand => ((operand.stands style).operand style _ _).signed style sign
  | .negation operand => ((operand.stands style).operand style _ _).negation style
  | .binary op left right =>
    ((left.stands style).operand style _ _).binary style ((right.stands style).operand style _ _) op
  | .power base exponent => ((base.stands style).operand style _ _).power style ((exponent.stands style).operand style _ _)
  | .call name args => name.stands style (Term.scans_arguments style args)

/-- Written arguments are found again where a parenthesis or the end closes them. -/
theorem Term.scans_arguments (style : Style) :
    (args : List Term) → ∀ after, Closes after → Scans (Term.argumentPieces style args) after
  | [] => fun _ _ => trivial
  | arg :: args => by
    unfold Term.argumentPieces
    split
    · simpa using (arg.stands style).scans
    · exact scans_argument style (arg.stands style) (Term.scans_arguments style args)

end

/-- Scanning a printed term gives the tokens of its pieces. -/
theorem Term.scan_print (style : Style) (term : Term) :
    Token.scan (term.print style) = .ok (tokensFrom 0 (term.pieces style)) := by
  rw [Token.scan, Term.print, String.toList_ofList, Token.scanChars]
  exact scanOnto_written ((term.stands style).scans [] closes_nil) (Nat.lt_succ_self _)

end Expr

end LineScript
