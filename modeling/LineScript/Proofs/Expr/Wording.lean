import LineScript.Proofs.Expr.Walking

/-!
# Wordings of problems with expressions

A host sees a problem as a text. Which problem it is can be told from its wording as far as reading goes: what the rules of
expressions find, and names that are none, are worded differently from a text without tokens or an operand without a reference
(`Expr.OfRules.not_unread`, `Expr.naming_not_unread`).
-/

namespace LineScript

open Text

namespace Text

theorem prefix_append (s t : String) : s.toList <+: (s ++ t).toList := by
  rw [String.toList_append]
  exact List.prefix_append _ _

theorem getLast?_append {t : String} (h : t.toList ≠ []) (s : String) : (s ++ t).toList.getLast? = t.toList.getLast? := by
  rw [String.toList_append, List.getLast?_append, List.getLast?_eq_some_getLast h]
  rfl

/-- Texts that start differently are different. -/
theorem ne_of_prefix {s t : String} {p q : List Char} (hs : p <+: s.toList) (ht : q <+: t.toList)
    (hne : ¬ p <+: q ∧ ¬ q <+: p) : s ≠ t := by
  rintro rfl
  rcases List.prefix_or_prefix_of_prefix hs ht with h | h
  · exact hne.1 h
  · exact hne.2 h

end Text

namespace ExprProblem

/-- A problem with reading an expression: its text has no tokens, or an operand among them has no reference. -/
inductive OfReading : ExprProblem → Prop
  | lexical (e : LexError) : OfReading (.lexical e)
  | unknownOperand (text : String) : OfReading (.unknownOperand text)

/-- How the wording of a problem with an expression starts. -/
def opening : ExprProblem → String
  | lexical .missingQuote => "missing close-quote"
  | lexical (.illegal _) => "illegal character '"
  | missingOperand => "missing operand"
  | unexpected _ => "unexpected "
  | missing _ => "missing \""
  | invalidNumber _ => "invalid number "
  | unknownOperand _ => "unknown operand "
  | argCount name _ _ _ => name

/-- A message starts with the opening of its problem. -/
theorem prefix_message (problem : ExprProblem) : problem.opening.toList <+: problem.message.toList := by
  cases problem with
  | lexical e =>
    cases e with
    | missingQuote => exact List.prefix_rfl
    | illegal c => exact (prefix_append "illegal character '" c.toString).trans (prefix_append _ "' in expression")
  | missingOperand => exact List.prefix_rfl
  | unexpected token => exact prefix_append "unexpected " (quoted token)
  | missing token =>
    have hquoted : "missing " ++ quoted token = "missing \"" ++ (token ++ "\"") := by
      rw [quoted, ← String.append_assoc, ← String.append_assoc, ← String.append_assoc]
      rfl
    have hstart := prefix_append "missing \"" (token ++ "\"")
    rwa [← hquoted] at hstart
  | invalidNumber text => exact prefix_append "invalid number " (quoted text)
  | unknownOperand text => exact prefix_append "unknown operand " (quoted text)
  | argCount name least most given =>
    exact (prefix_append name "() takes ").trans ((prefix_append _ (toString least)).trans ((prefix_append _ " to ").trans
      ((prefix_append _ (toString most)).trans ((prefix_append _ " parameters, got ").trans
        (prefix_append _ (toString given))))))

/-- The problems of reading a text have three openings. -/
theorem OfReading.opening_mem {problem : ExprProblem} (h : problem.OfReading) :
    problem.opening ∈ ["missing close-quote", "illegal character '", "unknown operand "] := by
  cases h with
  | lexical e =>
    cases e with
    | missingQuote => exact .head _
    | illegal c => exact .tail _ (.head _)
  | unknownOperand text => exact .tail _ (.tail _ (.head _))

/-- A wording that starts in one of these ways is not one of a problem with reading. -/
theorem OfReading.ne_message {problem found : ExprProblem} (h : problem.OfReading)
    (hfound : found.opening ∈ ["missing operand", "unexpected ", "missing \"", "invalid number "]) :
    found.message ≠ problem.message := by
  have hapart : ∀ p ∈ ["missing operand", "unexpected ", "missing \"", "invalid number "],
      ∀ q ∈ ["missing close-quote", "illegal character '", "unknown operand "],
        ¬ p.toList <+: q.toList ∧ ¬ q.toList <+: p.toList := by decide
  exact ne_of_prefix found.prefix_message problem.prefix_message (hapart _ hfound _ h.opening_mem)

/-- A wording that ends with a number is not one of a problem with reading. -/
theorem OfReading.ne_append {problem : ExprProblem} (h : problem.OfReading) (s : String) (n : Nat) :
    s ++ toString n ≠ problem.message := by
  have hdigits : (toString n).toList = Nat.toDigits 10 n := by simp
  have hnumber : ∃ c, (s ++ toString n).toList.getLast? = some c ∧ c.isDigit = true := by
    have hne : (toString n).toList ≠ [] := hdigits ▸ Nat.toDigits_ne_nil
    rw [getLast?_append hne, hdigits]
    rw [hdigits] at hne
    exact ⟨_, List.getLast?_eq_some_getLast hne,
      Nat.isDigit_of_mem_toDigits (by decide) (by decide) (List.getLast_mem hne)⟩
  intro hmessage
  rw [hmessage] at hnumber
  obtain ⟨c, hlast, hdigit⟩ := hnumber
  have hother : ∃ d, problem.message.toList.getLast? = some d ∧ d.isDigit = false := by
    cases h with
    | lexical e =>
      cases e with
      | missingQuote => exact ⟨'e', by decide, by decide⟩
      | illegal c => exact ⟨'n', getLast?_append (by decide) ("illegal character '" ++ c.toString), by decide⟩
    | unknownOperand text =>
      refine ⟨'"', ?_, by decide⟩
      have hlast := getLast?_append (t := "\"") (by decide) ("unknown operand " ++ ("\"" ++ text))
      rwa [String.append_assoc] at hlast
  obtain ⟨d, hlast', hnone⟩ := hother
  obtain rfl : c = d := Option.some.inj (hlast.symm.trans hlast')
  exact Bool.false_ne_true (hnone.symm.trans hdigit)

end ExprProblem

namespace Expr

/-- A wording of a problem with reading an expression. -/
def Unread (message : String) : Prop :=
  ∃ problem : ExprProblem, problem.OfReading ∧ message = (Problem.expression problem).message

/-- Problems of expressions that are reported in the same words have the same message. -/
theorem message_injective {p q : ExprProblem} (h : (Problem.expression p).message = (Problem.expression q).message) :
    p.message = q.message := by
  have hchars := congrArg String.toList (show "expression error: " ++ p.message = "expression error: " ++ q.message from h)
  rw [String.toList_append, String.toList_append] at hchars
  exact String.toList_injective (List.append_cancel_left hchars)

/-- What the rules find is not worded as a problem with reading. -/
theorem OfRules.not_unread {problem : Problem} (h : OfRules problem) : ¬ Unread problem.message := by
  rintro ⟨reading, hreading, hmessage⟩
  have hstart : "expression error: ".toList <+: (Problem.expression reading).message.toList := prefix_append _ reading.message
  have hexpr {found : ExprProblem} (hfound : found.message ≠ reading.message)
      (hmessage : (Problem.expression found).message = (Problem.expression reading).message) : False :=
    hfound (message_injective hmessage)
  cases h with
  | divideByZero => exact ne_of_prefix List.prefix_rfl hstart (by decide) hmessage
  | unknownFunction name =>
    exact ne_of_prefix (prefix_append "call to nonexistent function " (quoted name)) hstart (by decide) hmessage
  | missingOperand => exact hexpr (hreading.ne_message (.head _)) hmessage
  | unexpected => exact hexpr (hreading.ne_message (.tail _ (.head _))) hmessage
  | missing => exact hexpr (hreading.ne_message (.tail _ (.tail _ (.head _)))) hmessage
  | invalidNumber => exact hexpr (hreading.ne_message (.tail _ (.tail _ (.tail _ (.head _))))) hmessage
  | argCount name least most given => exact hexpr (hreading.ne_append _ given) hmessage

/-- A problem with a name is not worded as one with reading. -/
theorem naming_not_unread (e : NameError) : ¬ Unread (Problem.naming e).message := by
  rintro ⟨reading, -, hmessage⟩
  have hstart : "expression error: ".toList <+: (Problem.expression reading).message.toList := prefix_append _ reading.message
  cases e with
  | empty => exact ne_of_prefix List.prefix_rfl hstart (by decide) hmessage
  | tooLong name => exact ne_of_prefix (prefix_append "variable name too long: " (quoted name)) hstart (by decide) hmessage
  | illegalChar name c =>
    have hname := (prefix_append "variable name " (quoted name)).trans ((prefix_append _ " contains an illegal character '").trans
      ((prefix_append _ c.toString).trans (prefix_append _ "'")))
    exact ne_of_prefix hname hstart (by decide) hmessage
  | readOnly name =>
    have hname := (prefix_append "\"" name).trans ((prefix_append _ "\"").trans (prefix_append _ " is a read-only variable"))
    exact ne_of_prefix hname hstart (by decide) hmessage

end Expr

end LineScript
