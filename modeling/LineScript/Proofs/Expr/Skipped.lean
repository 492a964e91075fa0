import LineScript.Proofs.Expr.Printing
import LineScript.Proofs.Expr.Retracing
import LineScript.Proofs.Load.Sites
import Mathlib

/-!
# The skipped side of `and` and `or`

Where the left side of `and` or `or` decides, the right side is walked quietly. If it has a value in any state at all, its tokens
make an expression, and then the only problem it can be is the name that one of its operands puts together
(`Expr.decided_joined`). Both sides stand in parentheses, so they are scanned as they are by themselves
(`Expr.exists_pieces`), and their operands refer to the same variables.
-/

namespace LineScript

open Text

/-! ## Texts before a closing parenthesis -/

namespace Token

/-- A parenthesis after a text makes its first symbol no longer. -/
theorem symbol?_append {cs : List Char} {kind : TokenKind} {n : Nat} (h : symbol? cs = some (kind, n)) (more : List Char) :
    symbol? (cs ++ ')' :: more) = some (kind, n) ∧ n ≤ cs.length := by
  have hother {c d : Char} {tail : List Char} (hne : ∀ rest, d :: tail = c :: rest → False) : d ≠ c :=
    fun hd => hne tail (by rw [hd])
  unfold symbol? at h
  split at h
  any_goals split at h
  all_goals cases h
  any_goals exact ⟨rfl, by simp⟩
  -- What is left are symbols that another character would have made longer.
  case h_27.isFalse.refl hdigit => simp [symbol?, hdigit]
  case h_21.refl tail hgt hlt heq =>
    cases tail with
    | nil => exact ⟨rfl, by simp⟩
    | cons d tail => simp [symbol?, hother hgt, hother hlt, hother heq]
  case h_24.refl tail hgt heq =>
    cases tail with
    | nil => exact ⟨rfl, by simp⟩
    | cons d tail => simp [symbol?, hother hgt, hother heq]
  all_goals
    rename_i tail hne
    cases tail with
    | nil => exact ⟨rfl, by simp⟩
    | cons d tail => simp [symbol?, hother hne]

/-- Where no symbol starts, a parenthesis after the text makes none. -/
theorem symbol?_append_none {c : Char} {cs : List Char} (hblank : isSpaceOrTab c = false) (hquote : c ≠ '"')
    (h : symbol? (c :: cs) = none) (more : List Char) : symbol? (c :: (cs ++ ')' :: more)) = none := by
  have hword : isTerminator c = false := by
    refine Bool.eq_false_iff.mpr fun hends => ?_
    exact symbol?_ne_none hends hblank hquote cs h
  by_cases hpoint : c = '.'
  · subst hpoint
    cases cs with
    | nil => cases h
    | cons d cs =>
      have hdigit : d.isDigit = true := by simpa [symbol?] using h
      simp [symbol?, hdigit]
  · exact Expr.symbol?_eq_none hword hpoint _

/-- A text in quotes ends where it did when a parenthesis is put after what was left. -/
theorem quotedOnto_append {taken cs chars rest : List Char} (h : quotedOnto taken cs = some (chars, rest)) (more : List Char) :
    quotedOnto taken (cs ++ ')' :: more) = some (chars, rest ++ ')' :: more) := by
  fun_induction quotedOnto taken cs with
  | case1 => cases h
  | case2 taken rest' ih => exact ih h
  | case3 taken rest' hquote =>
    cases h
    cases rest with
    | nil => rfl
    | cons c rest =>
      have hc : c ≠ '"' := by
        rintro rfl
        exact hquote _ rfl
      simp [quotedOnto, hc]
  | case4 taken c rest' hquote hother ih =>
    have hc : c ≠ '"' := hother
    simpa [quotedOnto, hc] using ih h

/-- A word ends where a parenthesis closes it. -/
theorem takeWhile_append_paren (cs more : List Char) :
    (cs ++ ')' :: more).takeWhile (!isTerminator ·) = cs.takeWhile (!isTerminator ·) ∧
      (cs ++ ')' :: more).dropWhile (!isTerminator ·) = cs.dropWhile (!isTerminator ·) ++ ')' :: more := by
  induction cs with
  | nil => exact ⟨rfl, rfl⟩
  | cons c cs ih =>
    by_cases hc : isTerminator c = true
    · simp [hc]
    · simp [hc, ih]

/-- The kind of a word does not change when a parenthesis is put after what comes next. -/
theorem wordKind_append (word rest more : List Char) : wordKind word (rest ++ ')' :: more) = wordKind word rest := by
  cases rest <;> rfl

/-- A token that is read at the head of a text is read there as well where a parenthesis closes the text. -/
theorem next_append {start : Nat} {c : Char} {cs rest : List Char} {token : Token} (hblank : isSpaceOrTab c = false)
    (h : next start (c :: cs) = .ok (token, rest)) (start' : Nat) (more : List Char) :
    next start' (c :: (cs ++ ')' :: more)) = .ok (⟨token.kind, start', token.chars⟩, rest ++ ')' :: more) := by
  unfold next at h ⊢
  split at h
  · rename_i tail hcs
    obtain ⟨rfl, rfl⟩ := List.cons.inj hcs
    split at h
    · cases h
    · rename_i hquoted
      cases h
      simp only [quotedOnto_append hquoted]
  · rename_i hquote
    have hc : c ≠ '"' := fun hc => hquote cs (by rw [hc])
    split
    · rename_i heq
      exact absurd (List.cons.inj heq).1 hc
    split at h
    · rename_i kind n hsymbol
      cases h
      obtain ⟨hsymbol, hle⟩ := symbol?_append hsymbol more
      rw [List.cons_append] at hsymbol
      simp only [hsymbol]
      rw [← List.cons_append, List.take_append_of_le_length hle, List.drop_append_of_le_length hle]
    · rename_i hnone
      obtain ⟨htake, hdrop⟩ := takeWhile_append_paren (c :: cs) more
      rw [List.cons_append] at htake hdrop
      simp only [symbol?_append_none hblank hc hnone, htake, hdrop, wordKind_append] at h ⊢
      split at h
      · cases h
      · cases h
        rfl

end Token

namespace Expr

/-- A text that is scanned is written in pieces, which are found again where a parenthesis closes the text. -/
theorem exists_pieces {fuel start : Nat} {found tokens : List Token} {cs : List Char}
    (h : Token.scanOnto fuel found start cs = .ok tokens) (hfuel : cs.length < fuel) :
    ∃ pieces, written pieces = cs ∧ tokens = found.reverse ++ tokensFrom start pieces ∧
      ∀ more, Scans pieces (')' :: more) := by
  fun_induction Token.scanOnto fuel found start cs with
  | case1 => cases hfuel
  | case2 =>
    cases h
    exact ⟨[], rfl, (List.append_nil _).symm, fun _ => trivial⟩
  | case3 fuel found start c cs hblank ih =>
    rw [List.length_cons] at hfuel
    obtain ⟨pieces, rfl, rfl, hscans⟩ := ih h (by omega)
    exact ⟨.gap { chars := [c], blank := by simpa using hblank } :: pieces, rfl, rfl, hscans⟩
  | case4 => cases h
  | case5 fuel found start c cs hblank token rest hnext ih =>
    have hblank : isSpaceOrTab c = false := Bool.eq_false_iff.mpr hblank
    obtain ⟨hstart, hcs, hwhole⟩ := Token.next_eq_ok hblank hnext
    have hlength : cs.length + 1 = token.chars.length + rest.length := by
      simpa using congrArg List.length hcs
    have hpos := List.length_pos_iff.mpr hwhole.chars_ne
    rw [List.length_cons] at hfuel
    obtain ⟨pieces, rfl, rfl, hscans⟩ := ih h (by omega)
    refine ⟨.lexeme token.kind token.chars :: pieces, hcs.symm, ?_, fun more => ⟨⟨?_, fun start' => ?_⟩, hscans more⟩⟩
    · subst hstart
      simp [tokensFrom, Piece.width, Token.size]
    · obtain ⟨d, tail, hchars⟩ := List.exists_cons_of_ne_nil hwhole.chars_ne
      rw [hchars] at hcs
      obtain ⟨rfl, -⟩ := List.cons.inj hcs
      exact ⟨_, tail, hchars, hblank⟩
    · rw [← List.append_assoc, ← hcs]
      exact Token.next_append hblank hnext start' more

/-- Pieces that stand further on have their tokens moved. -/
theorem tokensFrom_moved (offset start : Nat) (pieces : List Piece) :
    tokensFrom (offset + start) pieces = (tokensFrom start pieces).map (·.moved offset) := by
  induction pieces generalizing start with
  | nil => rfl
  | cons piece pieces ih =>
    cases piece with
    | gap blanks =>
      rw [tokensFrom, tokensFrom, Nat.add_assoc]
      exact ih _
    | lexeme kind chars =>
      rw [tokensFrom, tokensFrom, Nat.add_assoc, List.map_cons]
      exact congrArg _ (ih _)

/-- The tokens of a text start one after the other. -/
theorem pairwise_scan {text : String} {tokens : List Token} (h : Token.scan text = .ok tokens) :
    tokens.Pairwise (·.start < ·.start) := by
  obtain ⟨pieces, -, rfl, hscans⟩ := exists_pieces h (Nat.lt_succ_self _)
  exact (pairwise_tokensFrom (hscans []) 0).1

/-- Pieces without tokens are written as spaces and tabs. -/
theorem blank_of_tokensFrom {start : Nat} {pieces : List Piece} (h : tokensFrom start pieces = []) :
    (written pieces).all isSpaceOrTab = true := by
  induction pieces generalizing start with
  | nil => rfl
  | cons piece pieces ih =>
    cases piece with
    | lexeme kind chars => cases h
    | gap blanks =>
      have hwritten : written (.gap blanks :: pieces) = blanks.chars ++ written pieces := rfl
      rw [hwritten, List.all_append, blanks.blank, ih h]
      rfl

/-- In spaces and tabs no token is found. -/
theorem scanOnto_of_blank {fuel start : Nat} {found : List Token} {cs : List Char} (h : cs.all isSpaceOrTab = true) :
    Token.scanOnto fuel found start cs = .ok found.reverse := by
  induction cs generalizing fuel start with
  | nil => cases fuel <;> rfl
  | cons c cs ih =>
    obtain ⟨hc, hcs⟩ := Bool.and_eq_true_iff.mp h
    cases fuel with
    | zero => rfl
    | succ fuel =>
      rw [Token.scanOnto, if_pos hc]
      exact ih hcs

/-- A text of nothing but spaces and tabs. -/
def Blank (text : String) : Prop :=
  text.toList.all isSpaceOrTab = true

/-- A text has no tokens exactly when it is blank. -/
theorem scan_eq_nil_iff {text : String} {tokens : List Token} (h : Token.scan text = .ok tokens) :
    tokens.isEmpty = true ↔ Blank text := by
  constructor
  · intro hnil
    obtain ⟨pieces, hpieces, rfl, -⟩ := exists_pieces h (Nat.lt_succ_self _)
    rw [Blank, ← hpieces]
    exact blank_of_tokensFrom (List.isEmpty_iff.mp hnil)
  · intro hblank
    rw [Token.scan, Token.scanChars, scanOnto_of_blank hblank] at h
    cases h
    rfl

/-! ## Two sides -/

/-- The operator that is decided by a left side that is true, or by one that is false. -/
def decider (either : Bool) : Op :=
  if either then .or else .and

/-- How it is written. -/
def deciderWord (either : Bool) : String :=
  if either then "or" else "and"

/-- Two expressions in parentheses, joined by `or` or by `and`. -/
def joined (either : Bool) (a e : String) : String :=
  "(" ++ a ++ ") " ++ deciderWord either ++ " (" ++ e ++ ")"

/-- A single space. -/
def space : Blanks := { chars := [' '], blank := rfl }

/-- The pieces of two expressions in parentheses. -/
def joinedPieces (either : Bool) (left right : List Piece) : List Piece :=
  .lexeme .leftParen ['('] :: (left ++
    ([.lexeme .rightParen [')'], .gap space, .lexeme (.op (decider either)) (deciderWord either).toList, .gap space,
      .lexeme .leftParen ['(']] ++ (right ++ [.lexeme .rightParen [')']])))

/-- The pieces of two expressions in parentheses are written as they are joined. -/
theorem written_joinedPieces {either : Bool} {a e : String} {left right : List Piece} (ha : written left = a.toList)
    (he : written right = e.toList) : written (joinedPieces either left right) = (joined either a e).toList := by
  simp [joined, joinedPieces, ← ha, ← he, space, written, Piece.chars]

/-- The pieces of two expressions in parentheses are scanned if those of each are where a parenthesis comes after them. -/
theorem scans_joinedPieces (either : Bool) {left right : List Piece} (hleft : ∀ more, Scans left (')' :: more))
    (hright : ∀ more, Scans right (')' :: more)) : Scans (joinedPieces either left right) [] := by
  have hopening (rest : List Char) : Lexes .leftParen ['('] rest := lexes_symbol rfl (by decide) rfl
  have hclosing (rest : List Char) : Lexes .rightParen [')'] rest := lexes_symbol rfl (by decide) rfl
  have hword (rest : List Char) : Lexes (.op (decider either)) (deciderWord either).toList (' ' :: rest) := by
    refine lexes_operatorWord (by cases either <;> decide) ?_
    rintro _ ⟨⟩
    rfl
  refine ⟨hopening _, scans_append.mpr ⟨hleft _, scans_append.mpr ⟨?_, scans_append.mpr ⟨hright _, ?_⟩⟩⟩⟩
  · exact ⟨hclosing _, hword _, hopening _, trivial⟩
  · exact ⟨hclosing _, trivial⟩

/-- The tokens of two expressions in parentheses are those of each, further on. -/
theorem scan_joined (either : Bool) {a e : String} {first second : List Token} (ha : Token.scan a = .ok first)
    (he : Token.scan e = .ok second) :
    ∃ i j k l m n o word, Token.scan (joined either a e) = .ok (⟨.leftParen, i, ['(']⟩ :: (first.map (·.moved m) ++
        ⟨.rightParen, j, [')']⟩ :: ⟨.op (decider either), k, word⟩ :: ⟨.leftParen, l, ['(']⟩ ::
          (second.map (·.moved n) ++ [⟨.rightParen, o, [')']⟩]))) := by
  obtain ⟨left, hleft, rfl, hscansLeft⟩ := exists_pieces ha (Nat.lt_succ_self _)
  obtain ⟨right, hright, rfl, hscansRight⟩ := exists_pieces he (Nat.lt_succ_self _)
  have hscans := scans_joinedPieces either hscansLeft hscansRight
  have hscan : Token.scan (joined either a e) = .ok (tokensFrom 0 (joinedPieces either left right)) := by
    rw [Token.scan, Token.scanChars, ← written_joinedPieces hleft hright, scanOnto_written hscans (Nat.lt_succ_self _)]
    rfl
  have hmoved (offset : Nat) (pieces : List Piece) : tokensFrom offset pieces = (tokensFrom 0 pieces).map (·.moved offset) :=
    tokensFrom_moved offset 0 pieces
  simp only [joinedPieces, tokensFrom, tokensFrom_append, List.cons_append, List.nil_append] at hscan
  rw [hmoved _ left, hmoved _ right] at hscan
  exact ⟨_, _, _, _, _, _, _, _, hscan⟩

/-- What an operand of a read expression stands for, in a table that has its variables. -/
theorem exists_target {before vars later : Variables} {tokens : List Token} {derefs : List Deref}
    (h : Reference.ofTokens before tokens = .ok (vars, derefs)) (hpairs : tokens.Pairwise (·.start < ·.start))
    (hlater : vars.Extends later) {t : Token} (ht : t ∈ tokens) (hkind : t.kind = .operand) (lookup : Lookup) :
    ∃ target, Reference.ofName later t.chars (fun _ => false) = .ok (later, target) ∧
      Context.operandOf { derefs, lookup } t = lookup target := by
  obtain ⟨deref, hfind, hname⟩ := Reference.find?_of_ofTokens h hpairs t ht hkind
  exact ⟨deref.target, Reference.ofName_later hname hlater, by simp only [Context.operandOf, hfind]⟩

/-- A reference that is found belongs to an operand. -/
theorem exists_operand {before vars : Variables} {tokens : List Token} {derefs : List Deref} {deref : Deref} {start : Nat}
    (h : Reference.ofTokens before tokens = .ok (vars, derefs)) (hfind : derefs.find? (·.start == start) = some deref) :
    ∃ t ∈ tokens, t.kind = .operand ∧ t.start = start := by
  induction tokens generalizing before derefs with
  | nil =>
    cases h
    cases hfind
  | cons first rest ih =>
    unfold Reference.ofTokens at h
    split at h
    · rename_i hkind
      obtain ⟨⟨vars₁, target⟩, -, h⟩ := bind_eq_ok_iff.mp h
      obtain ⟨⟨vars₂, more⟩, hmore, h⟩ := bind_eq_ok_iff.mp h
      cases h
      rw [List.find?_cons] at hfind
      split at hfind
      · rename_i hstart
        exact ⟨first, List.mem_cons_self, eq_of_beq hkind, eq_of_beq hstart⟩
      · obtain ⟨t, ht, hoperand⟩ := ih hmore hfind
        exact ⟨t, List.mem_cons_of_mem _ ht, hoperand⟩
    · obtain ⟨t, ht, hoperand⟩ := ih h hfind
      exact ⟨t, List.mem_cons_of_mem _ ht, hoperand⟩

/-- An operand has the value it has by itself where its name refers to the same. -/
theorem operandOf_again {ctx : Context} {vars : Variables} {derefs : List Deref} {lookup : Lookup} {offset : Nat}
    {tokens : List Token} (h : Reference.ofTokens vars tokens = .ok (vars, derefs))
    (hpairs : tokens.Pairwise (·.start < ·.start))
    (hnames : ∀ t ∈ tokens, t.kind = .operand → ∃ target,
      Reference.ofName vars t.chars (fun _ => false) = .ok (vars, target) ∧ ctx.operandOf (t.moved offset) = lookup target)
    (t : Token) (v : Value) (hv : Context.operandOf { derefs, lookup } t = .ok v) : ctx.operandOf (t.moved offset) = .ok v := by
  have hstart (ctx : Context) {t u : Token} (hstart : t.start = u.start) (h : ctx.operandOf t = .ok v) :
      ctx.operandOf u = .ok v := by
    unfold Context.operandOf at h ⊢
    rw [← hstart]
    split at h
    · cases h
    · exact h
  obtain ⟨deref, hfind⟩ : ∃ deref, derefs.find? (·.start == t.start) = some deref := by
    unfold Context.operandOf at hv
    split at hv
    · cases hv
    · exact ⟨_, ‹_›⟩
  obtain ⟨u, hu, hkind, hsame⟩ := exists_operand h hfind
  obtain ⟨target, hname, hvalue⟩ := hnames u hu hkind
  obtain ⟨target', hname', hvalue'⟩ := exists_target h hpairs (Variables.Extends.refl vars) hu hkind lookup
  obtain ⟨-, rfl⟩ := Prod.mk.inj (Except.ok.inj (hname.symm.trans hname'))
  rw [hstart _ hsame.symm hv] at hvalue'
  refine hstart ctx ?_ (hvalue.trans hvalue'.symm)
  simp [Token.moved, hsame]

open Expansion in
/-- Where all names of some operands refer to something, they can be looked up one after the other. -/
theorem exists_operands {ctx : Context} {vars : Variables} {view : View} {offset : Nat} {tokens : List Token}
    (h : ∀ t ∈ tokens, t.kind = .operand → ∃ target, Reference.ofName vars t.chars (fun _ => false) = .ok (vars, target) ∧
      ctx.operandOf (t.moved offset) = operand view vars target) :
    ∃ derefs, Reference.ofTokens vars tokens = .ok (vars, derefs) ∧
      ctx.lookAll (tokens.map (·.moved offset)) = (operands view vars derefs).map fun _ => () := by
  induction tokens with
  | nil => exact ⟨[], rfl, rfl⟩
  | cons t rest ih =>
    obtain ⟨derefs, hderefs, hlook⟩ := ih fun u hu => h u (List.mem_cons_of_mem _ hu)
    rw [List.map_cons]
    unfold Reference.ofTokens Context.lookAll
    rw [Token.kind_moved]
    split
    · rename_i hkind
      obtain ⟨target, hname, hvalue⟩ := h t List.mem_cons_self (eq_of_beq hkind)
      refine ⟨⟨t.start, t.size, target⟩ :: derefs, bind_eq_ok_iff.mpr ⟨_, hname, bind_eq_ok_iff.mpr ⟨_, hderefs, rfl⟩⟩, ?_⟩
      rw [hvalue, hlook, operands]
      dsimp only
      cases operand view vars target with
      | error e => rfl
      | ok v => cases operands view vars derefs <;> rfl
    · exact ⟨derefs, hderefs, hlook⟩

/-! ## The walk over both sides -/

section

variable {ctx : Context} {opening closing : Token}

/-- An operand in parentheses. -/
theorem binary_leftParen {fuel least : Nat} {quiet : Bool} {inner rest : List Token} {r : Except Problem Value}
    (hopening : opening.kind = .leftParen) (hclosing : closing.kind = .rightParen) (hpower : NoPower rest)
    (hinner : binary ctx fuel quiet leastLevel inner = r.map fun v => (v, closing :: rest)) :
    binary ctx (fuel + 4) quiet least (opening :: inner) = r.bind fun v => operators ctx (fuel + 3) quiet least v rest := by
  have hnot : isWordNot opening = false := by simp [isWordNot, hopening]
  have hop : ∀ op, opening.kind ≠ .op op := by simp [hopening]
  have hprimary : primary ctx (fuel + 1) quiet (opening :: inner) = r.map fun v => (v, rest) := by
    simp only [primary, hopening, hinner]
    cases r <;> simp [Except.map, hclosing]
  rw [binary]
  simp only [hnot, Bool.false_and, Bool.false_eq_true, if_false, unary_of_operand hop, power, hprimary]
  cases r with
  | error e => rfl
  | ok v =>
    cases rest with
    | nil => rfl
    | cons next rest => simp [Except.map, Except.bind, hpower next rfl]

/-- No operand starts with a closing parenthesis. -/
theorem binary_rightParen {fuel least : Nat} {quiet : Bool} (hclosing : closing.kind = .rightParen) (rest : List Token) :
    binary ctx (fuel + 4) quiet least (closing :: rest) = .error (.expression (.unexpected closing.text)) := by
  have hnot : isWordNot closing = false := by simp [isWordNot, hclosing]
  have hop : ∀ op, closing.kind ≠ .op op := by simp [hclosing]
  rw [binary]
  simp only [hnot, Bool.false_and, Bool.false_eq_true, if_false, unary_of_operand hop, power, primary, hclosing]

/-- What stands between parentheses must not be blank. -/
def inParens {α : Type} (tokens : List Token) (r : Except Problem α) : Except Problem α :=
  if tokens.isEmpty then .error (.expression (.unexpected ")")) else r

/-- A run of operands goes on with the operator that its value decides: the right operand is walked quietly. -/
theorem operators_decided {either quiet : Bool} {fuel least level : Nat} {v : Value} {front after rest : List Token}
    {r : Except Problem Value} (hop : binaryOp? front = some (decider either, level, after)) (hle : least ≤ level)
    (hdecides : v.isTrue = either)
    (hright : binary ctx fuel true (level + 1) after = r.map fun w => (w, rest)) :
    operators ctx (fuel + 1) quiet least v front = r.bind fun _ => operators ctx fuel quiet least (.ofBool either) rest := by
  have hshort : (decider either == .and || either) = true := by cases either <;> rfl
  have hflag : (decider either == .or) = either := by cases either <;> rfl
  rw [operators]
  simp only [hop, if_neg (Nat.not_lt.mpr hle), hflag, hshort, if_true, hdecides, beq_self_eq_true, Bool.or_true, hright]
  cases r <;> rfl

/-- Where the left side decides, the right side matters only by its problems. -/
theorem evaluateTokens_decided {either : Bool} {word opening' closing' : Token} {inner inner' : List Token}
    {first : Except Problem Value} {second : Except Problem Unit} (hopening : opening.kind = .leftParen)
    (hclosing : closing.kind = .rightParen) (hword : word.kind = .op (decider either)) (hopening' : opening'.kind = .leftParen)
    (hclosing' : closing'.kind = .rightParen)
    (hfirst : ∀ fuel, 8 * inner.length + 8 ≤ fuel →
      binary ctx fuel false leastLevel (inner ++ closing :: word :: opening' :: (inner' ++ [closing'])) =
        first.map fun v => (v, closing :: word :: opening' :: (inner' ++ [closing'])))
    (hdecides : ∀ v, first = .ok v → v.isTrue = either)
    (hsecond : ∀ fuel, 8 * inner'.length + 8 ≤ fuel →
      ∃ w, binary ctx fuel true leastLevel (inner' ++ [closing']) = second.map fun _ => (w, [closing'])) :
    evaluateTokens ctx (opening :: (inner ++ closing :: word :: opening' :: (inner' ++ [closing']))) =
      first.bind fun _ => second.map fun _ => .ofBool either := by
  obtain ⟨fuel, hfuel⟩ : ∃ fuel, 8 * (opening :: (inner ++ closing :: word :: opening' :: (inner' ++ [closing']))).length + 8 =
      fuel + 2 + 4 := ⟨8 * inner.length + 8 * inner'.length + 42, by simp; omega⟩
  have hlength : fuel = 8 * inner.length + 8 * inner'.length + 42 := by
    simp at hfuel
    omega
  have hpower : NoPower (word :: opening' :: (inner' ++ [closing'])) := by
    rintro _ ⟨⟩
    rw [hword]
    cases either <;> decide
  unfold evaluateTokens
  rw [hfuel, binary_leftParen hopening hclosing hpower (hfirst (fuel + 2) (by omega))]
  simp only [List.isEmpty_cons, Bool.false_eq_true, if_false]
  cases hv : first with
  | error e => rfl
  | ok v =>
    obtain ⟨w, hinner⟩ := hsecond fuel (by omega)
    have hright (least : Nat) : binary ctx (fuel + 2 + 2) true least (opening' :: (inner' ++ [closing'])) =
        (second.map fun _ => w).map fun w => (w, []) := by
      rw [binary_leftParen (r := second.map fun _ => w) hopening' hclosing' (stops_nil leastLevel).noPower
        (by rw [hinner]; cases second <;> rfl)]
      cases second with
      | error e => rfl
      | ok _ => simp only [Except.bind, Except.map, operators_stop (stops_nil least)]
    have hend (w : Value) : operators ctx (fuel + 2 + 2) false leastLevel w [] = .ok (w, []) := operators_stop (stops_nil _)
    obtain ⟨level, hlevel, hle⟩ : ∃ level, level? (decider either) = some level ∧ leastLevel ≤ level := by
      cases either
      · exact ⟨2, rfl, by decide⟩
      · exact ⟨1, rfl, by decide⟩
    have hop : binaryOp? (word :: opening' :: (inner' ++ [closing'])) =
        some (decider either, level, opening' :: (inner' ++ [closing'])) := by
      simp [binaryOp?, hword, hlevel]
    simp only [Except.bind, operators_decided hop hle (hdecides v hv) (hright (level + 1))]
    cases second with
    | error e => rfl
    | ok _ => simp only [Except.map, hend]

end

/-! ## The value of the whole -/

/-- An expression with a value has tokens, and these are read as one run unless there are none. -/
theorem evaluate_eq_ok {text : String} {derefs : List Deref} {lookup : Lookup} {v : Value}
    (h : evaluate text derefs lookup = .ok v) :
    ∃ tokens, Token.scan text = .ok tokens ∧ (tokens.isEmpty = false →
      binary { derefs, lookup } (8 * tokens.length + 8) false leastLevel tokens = .ok (v, [])) := by
  unfold evaluate at h
  split at h
  · cases h
  · rename_i tokens hscan
    refine ⟨tokens, hscan, fun hempty => ?_⟩
    unfold evaluateTokens at h
    rw [if_neg (by simp [hempty])] at h
    split at h
    · cases h
    · rename_i hwalk
      cases h
      exact hwalk
    · cases h

/-- In a table that has its variables, an expression gives a result. -/
def Gives (view : Expansion.View) (vars : Variables) (text : String) (result : Except Problem Value) : Prop :=
  ∃ derefs, Reference.inExpr vars text = .ok (vars, derefs) ∧
    evaluate text derefs (Expansion.operand view vars) = result

/-- The references of an expression are those of its tokens. -/
theorem ofTokens_of_inExpr {before vars : Variables} {text : String} {tokens : List Token} {derefs : List Deref}
    (hscan : Token.scan text = .ok tokens) :
    Reference.inExpr before text = .ok (vars, derefs) ↔ Reference.ofTokens before tokens = .ok (vars, derefs) := by
  rw [Reference.inExpr, hscan]

section

open Expansion

/-- The only problem of a reference is that it puts together what is no name. -/
theorem operand_cases (view : View) (vars : Variables) (target : Target) :
    (∃ v, operand view vars target = .ok v) ∧
        (∀ parts, target = .dynamic parts → ∃ name, dynamicName view vars parts = .ok name) ∨
      ∃ parts problem, target = .dynamic parts ∧ dynamicName view vars parts = .error problem ∧
        operand view vars target = .error (.naming problem) := by
  cases target with
  | static id => exact .inl ⟨⟨_, rfl⟩, nofun⟩
  | dynamic parts =>
    cases hname : dynamicName view vars parts with
    | error problem => exact .inr ⟨parts, problem, rfl, hname, by rw [operand, hname]⟩
    | ok name =>
      refine .inl ⟨?_, fun parts' hparts => ?_⟩
      · rw [operand, hname]
        dsimp only
        split <;> exact ⟨_, rfl⟩
      · cases hparts
        exact ⟨name, hname⟩

/-- Looking up references goes well exactly when all that they put together are names, and its only problem is one of those. -/
theorem operands_cases (view : View) (vars : Variables) (derefs : List Deref) :
    (∃ values, operands view vars derefs = .ok values) ∧
        (∀ deref ∈ derefs, ∀ parts, deref.target = .dynamic parts → ∃ name, dynamicName view vars parts = .ok name) ∨
      ∃ deref ∈ derefs, ∃ parts problem, deref.target = .dynamic parts ∧ dynamicName view vars parts = .error problem ∧
        operands view vars derefs = .error (.naming problem) := by
  induction derefs with
  | nil => exact .inl ⟨⟨[], rfl⟩, nofun⟩
  | cons deref rest ih =>
    rcases operand_cases view vars deref.target with ⟨⟨v, hv⟩, hnames⟩ | ⟨parts, problem, htarget, hname, hvalue⟩
    · rcases ih with ⟨⟨values, hvalues⟩, hrest⟩ | ⟨bad, hbad, parts, problem, htarget, hname, hvalues⟩
      · refine .inl ⟨⟨v :: values, by rw [operands, hv, hvalues]; rfl⟩, fun d hd => ?_⟩
        rcases List.mem_cons.mp hd with rfl | hd
        · exact hnames
        · exact hrest d hd
      · exact .inr ⟨bad, List.mem_cons_of_mem _ hbad, parts, problem, htarget, hname, by rw [operands, hv, hvalues]; rfl⟩
    · exact .inr ⟨deref, List.mem_cons_self, parts, problem, htarget, hname, by rw [operands, hvalue]⟩

/-- The whole walks the left side as it is by itself and looks up the operands of the right side. -/
theorem evaluate_joined {either : Bool} {a e : String} {before vars now : Variables} {derefs : List Deref} {view : View}
    {left right : Context} {first second : List Token} {v w : Value}
    (hread : Reference.inExpr before (joined either a e) = .ok (vars, derefs)) (hnow : vars.Extends now)
    (ha : Token.scan a = .ok first) (he : Token.scan e = .ok second)
    (hleft : Reference.ofTokens now first = .ok (now, left.derefs)) (hlookup : left.lookup = operand view now)
    (hfirst : first.isEmpty = false → binary left (8 * first.length + 8) false leastLevel first = .ok (v, []))
    (hsecond : second.isEmpty = false → binary right (8 * second.length + 8) false leastLevel second = .ok (w, []))
    (hdecides : v.isTrue = either) :
    ∃ skipped, Reference.ofTokens now second = .ok (now, skipped) ∧
      evaluate (joined either a e) derefs (operand view now) = (inParens first (Except.ok v)).bind fun _ =>
        (inParens second ((operands view now skipped).map fun _ => ())).map fun _ => .ofBool either := by
  obtain ⟨i, j, k, l, m, n, o, word, hscan⟩ := scan_joined either ha he
  have hpairs := pairwise_scan hscan
  rw [ofTokens_of_inExpr hscan] at hread
  have hnames : ∀ t ∈ first, t.kind = .operand → ∃ target, Reference.ofName now t.chars (fun _ => false) = .ok (now, target) ∧
      Context.operandOf { derefs, lookup := operand view now } (t.moved m) = operand view now target := by
    intro t ht hkind
    exact exists_target hread hpairs hnow (t := t.moved m) (by simp [List.mem_map_of_mem ht]) hkind (operand view now)
  have hnames' : ∀ t ∈ second, t.kind = .operand → ∃ target, Reference.ofName now t.chars (fun _ => false) = .ok (now, target) ∧
      Context.operandOf { derefs, lookup := operand view now } (t.moved n) = operand view now target := by
    intro t ht hkind
    exact exists_target hread hpairs hnow (t := t.moved n) (by simp [List.mem_map_of_mem ht]) hkind (operand view now)
  obtain ⟨skipped, hskipped, hlook⟩ := exists_operands hnames'
  have hagain : Retracing left ⟨{ derefs, lookup := operand view now }, m, ⟨.rightParen, j, [')']⟩ ::
      ⟨.op (decider either), k, word⟩ :: ⟨.leftParen, l, ['(']⟩ ::
      (second.map (·.moved n) ++ [⟨.rightParen, o, [')']⟩])⟩ True := by
    refine ⟨?_, fun _ => operandOf_again hleft (pairwise_scan ha) (hlookup ▸ hnames)⟩
    rintro _ ⟨⟩
    rfl
  have hquiet : Retracing right ⟨{ derefs, lookup := operand view now }, n, [⟨.rightParen, o, [')']⟩]⟩ False := by
    refine ⟨?_, nofun⟩
    rintro _ ⟨⟩
    rfl
  refine ⟨skipped, hskipped, ?_⟩
  rw [evaluate, hscan, ← hlook]
  refine evaluateTokens_decided rfl rfl rfl rfl rfl (fun fuel hfuel => ?left) (fun v' hv' => ?decides) fun fuel hfuel => ?right
  case left =>
    rw [List.length_map] at hfuel
    unfold inParens
    split
    · rename_i hempty
      obtain rfl := List.isEmpty_iff.mp hempty
      obtain ⟨fuel, rfl⟩ : ∃ f, fuel = f + 4 := ⟨fuel - 4, by omega⟩
      exact binary_rightParen rfl _
    · rename_i hempty
      exact hagain.binary_same hfuel (hfirst (Bool.eq_false_iff.mpr hempty))
  case decides =>
    unfold inParens at hv'
    split at hv'
    · cases hv'
    · cases hv'
      exact hdecides
  case right =>
    rw [List.length_map] at hfuel
    unfold inParens
    split
    · rename_i hempty
      obtain rfl := List.isEmpty_iff.mp hempty
      obtain ⟨fuel, rfl⟩ : ∃ f, fuel = f + 4 := ⟨fuel - 4, by omega⟩
      exact ⟨.empty, binary_rightParen rfl _⟩
    · rename_i hempty
      obtain ⟨w, -, hwalk⟩ := hquiet.binary_all hfuel (.inl rfl) (hsecond (Bool.eq_false_iff.mpr hempty))
      exact ⟨w, hwalk⟩

/-- Where the left side of `and` is false, or that of `or` is true, and the right side has a value in some state at all, the whole
has the value of its left side whatever the right side would be by itself, with two exceptions: neither side may be blank, and
what the operands of the right side put together must be names. The problem is the first of these. -/
theorem decided_joined {either : Bool} {a e : String} {before vars now : Variables} {derefs : List Deref} {view : View}
    {v : Value} (hread : Reference.inExpr before (joined either a e) = .ok (vars, derefs)) (hnow : vars.Extends now)
    (ha : Gives view now a (.ok v)) (hdecides : v.isTrue = either) (he : ∃ view' other w, Gives view' other e (.ok w)) :
    ∃ skipped, Reference.inExpr now e = .ok (now, skipped) ∧
      (evaluate (joined either a e) derefs (operand view now) = .ok (.ofBool either) ↔ ¬ Blank a ∧ ¬ Blank e ∧
        ∀ deref ∈ skipped, ∀ parts, deref.target = .dynamic parts → ∃ name, dynamicName view now parts = .ok name) ∧
      (Blank a ∨ Blank e →
        evaluate (joined either a e) derefs (operand view now) = .error (.expression (.unexpected ")"))) ∧
      (¬ Blank a → ¬ Blank e →
        evaluate (joined either a e) derefs (operand view now) = (operands view now skipped).map fun _ => .ofBool either) := by
  obtain ⟨derefsA, hreadA, hvalueA⟩ := ha
  obtain ⟨view', other, w, derefsE, -, hvalueE⟩ := he
  obtain ⟨first, hscanA, hwalkA⟩ := evaluate_eq_ok hvalueA
  obtain ⟨second, hscanE, hwalkE⟩ := evaluate_eq_ok hvalueE
  have hblankA := scan_eq_nil_iff hscanA
  have hblankE := scan_eq_nil_iff hscanE
  obtain ⟨skipped, hskipped, hwhole⟩ := evaluate_joined hread hnow hscanA hscanE ((ofTokens_of_inExpr hscanA).mp hreadA) rfl
    hwalkA hwalkE hdecides
  have hblank : Blank a ∨ Blank e →
      evaluate (joined either a e) derefs (operand view now) = .error (.expression (.unexpected ")")) := by
    intro hblank
    rw [hwhole]
    by_cases hfirst : first.isEmpty = true
    · rw [inParens, if_pos hfirst]
      rfl
    · have hsecond := hblankE.mpr (hblank.resolve_left (mt hblankA.mpr hfirst))
      rw [inParens, if_neg hfirst, inParens, if_pos hsecond]
      rfl
  have hsides : ¬ Blank a → ¬ Blank e →
      evaluate (joined either a e) derefs (operand view now) = (operands view now skipped).map fun _ => .ofBool either := by
    intro ha he
    rw [hwhole, inParens, if_neg (mt hblankA.mp ha), inParens, if_neg (mt hblankE.mp he)]
    cases operands view now skipped <;> rfl
  refine ⟨skipped, (ofTokens_of_inExpr hscanE).mpr hskipped, ⟨fun hvalue => ?_, fun ⟨ha, he, hall⟩ => ?_⟩, hblank, hsides⟩
  · have ha : ¬ Blank a := fun ha => nomatch hvalue.symm.trans (hblank (.inl ha))
    have he : ¬ Blank e := fun he => nomatch hvalue.symm.trans (hblank (.inr he))
    rcases operands_cases view now skipped with ⟨-, hall⟩ | ⟨-, -, -, problem, -, -, hvalues⟩
    · exact ⟨ha, he, hall⟩
    · rw [hsides ha he, hvalues] at hvalue
      cases hvalue
  · rcases operands_cases view now skipped with ⟨⟨values, hvalues⟩, -⟩ | ⟨deref, hderef, parts, problem, htarget, hname, -⟩
    · rw [hsides ha he, hvalues]
      rfl
    · obtain ⟨name, hok⟩ := hall deref hderef parts htarget
      cases hname.symm.trans hok

/-- A table with one variable. -/
def holding (value : Value) : Variables :=
  { slots := #[{ name := "n", key := "n", value, builtin := none }] }

/-- No division by zero on the right side of `or`, where the left side asks for it. -/
theorem decided_joined_dividing :
    Gives (fun _ => .empty) (holding (.int 0)) "10 // n" (.error .divideByZero) ∧
      ∃ derefs, Reference.inExpr (holding (.int 0)) (joined true "n = 0" "10 // n") = .ok (holding (.int 0), derefs) ∧
        evaluate (joined true "n = 0" "10 // n") derefs (operand (fun _ => .empty) (holding (.int 0))) = .ok (.int 1) := by
  have hread : Reference.inExpr (holding (.int 0)) (joined true "n = 0" "10 // n") =
      .ok (holding (.int 0), [⟨1, 1, .static 0⟩, ⟨18, 1, .static 0⟩]) := by cbv
  have hskipped : Reference.inExpr (holding (.int 0)) "10 // n" = .ok (holding (.int 0), [⟨6, 1, .static 0⟩]) := by cbv
  have ha : Gives (fun _ => .empty) (holding (.int 0)) "n = 0" (.ok (.int 1)) := ⟨[⟨0, 1, .static 0⟩], by cbv, by cbv⟩
  have he : Gives (fun _ => .empty) (holding (.int 2)) "10 // n" (.ok (.int 5)) := ⟨[⟨6, 1, .static 0⟩], by cbv, by cbv⟩
  refine ⟨⟨[⟨6, 1, .static 0⟩], hskipped, by cbv⟩, _, hread, ?_⟩
  obtain ⟨skipped, hread', hvalue, -⟩ := decided_joined hread (Variables.Extends.refl _) ha (by decide +kernel) ⟨_, _, _, he⟩
  cases hread'.symm.trans hskipped
  refine hvalue.mpr ⟨by simp [Blank, isSpaceOrTab], by simp [Blank, isSpaceOrTab], ?_⟩
  intro deref hderef parts htarget
  rw [List.mem_singleton.mp hderef] at htarget
  cases htarget

/-- The right side has a value where its variable holds a name, and the left side decides, but where that variable is blank the
whole fails. -/
theorem skipped_name_shows :
    Gives (fun _ => .empty) (holding .empty) "0" (.ok (.int 0)) ∧
      Gives (fun _ => .empty) (holding (.text "x")) "%n%" (.ok .empty) ∧
      Gives (fun _ => .empty) (holding .empty) (joined false "0" "%n%") (.error (.naming .empty)) := by
  refine ⟨⟨[], by cbv, by cbv⟩, ⟨[⟨0, 3, .dynamic [.var 0]⟩], by cbv, by cbv⟩, [⟨9, 3, .dynamic [.var 0]⟩], by cbv, by cbv⟩

end

end Expr
end LineScript
