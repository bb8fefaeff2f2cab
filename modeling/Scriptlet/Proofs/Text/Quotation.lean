import Scriptlet.Proofs.Token.Scanner
import Scriptlet.Text.Quoted

namespace Scriptlet.Text

/-- The number that hexadecimal digits stand for. -/
def hexNumber (digits : List Char) : Nat :=
  digits.foldl (fun n c => 16 * n + Lexeme.hexValue c) 0

/-- The character that a quoted text begins with, and the text behind it. -/
def unquoteChar : List Char → Char × List Char
  | '\\' :: '0' :: cs => ('\x00', cs)
  | '\\' :: 't' :: cs => ('\t', cs)
  | '\\' :: 'r' :: cs => ('\r', cs)
  | '\\' :: 'n' :: cs => ('\n', cs)
  | '\\' :: '"' :: cs => ('"', cs)
  | '\\' :: '\\' :: cs => ('\\', cs)
  | '\\' :: 'u' :: '\x7b' :: cs =>
    (Char.ofNat (hexNumber (cs.takeWhile Lexeme.isHexDigit)), (cs.dropWhile Lexeme.isHexDigit).tail)
  | c :: cs => (c, cs)
  | [] => (default, [])

theorem hex_digitChar {d : Nat} (h : d < 16) :
    Lexeme.isHexDigit d.digitChar = true ∧ Lexeme.hexValue d.digitChar = d := by
  have hdigits : ∀ d : Fin 16, Lexeme.isHexDigit d.val.digitChar = true ∧
      Lexeme.hexValue d.val.digitChar = d.val := by
    decide
  exact hdigits ⟨d, h⟩

/-- A number is read back from its hexadecimal digits. -/
theorem hex_toDigits (n : Nat) :
    (∀ c ∈ Nat.toDigits 16 n, Lexeme.isHexDigit c = true) ∧ hexNumber (Nat.toDigits 16 n) = n := by
  induction n using Nat.strongRecOn with
  | ind n ih =>
    rcases Nat.lt_or_ge n 16 with hn | hn
    · obtain ⟨hdigit, hvalue⟩ := hex_digitChar hn
      rw [Nat.toDigits_of_lt_base hn]
      simpa [hexNumber] using ⟨hdigit, hvalue⟩
    · obtain ⟨hdigits, hnumber⟩ := ih (n / 16) (Nat.div_lt_self (by omega) (by decide))
      obtain ⟨hdigit, hvalue⟩ := hex_digitChar (Nat.mod_lt n (show 0 < 16 by decide))
      rw [Nat.toDigits_of_base_le (by decide) hn]
      refine ⟨List.forall_mem_append.mpr ⟨hdigits, by simpa using hdigit⟩, ?_⟩
      rw [hexNumber] at hnumber
      rw [hexNumber, List.foldl_append, hnumber, List.foldl_cons, List.foldl_nil, hvalue]
      exact Nat.div_add_mod n 16

theorem unquoteChar_codePoint (c : Char) (rest : List Char) :
    unquoteChar (codePoint c ++ rest) = (c, rest) := by
  obtain ⟨hdigits, hnumber⟩ := hex_toDigits c.toNat
  have hclosing : ∀ d ∈ ('\x7d' :: rest).head?, Lexeme.isHexDigit d = false := by
    rintro _ ⟨⟩
    rfl
  obtain ⟨htake, hdrop⟩ := Lexeme.span_run hdigits hclosing
  rw [codePoint, List.append_assoc, List.append_assoc]
  change (Char.ofNat (hexNumber (List.takeWhile _ (_ ++ '\x7d' :: rest))),
    (List.dropWhile _ (_ ++ '\x7d' :: rest)).tail) = _
  rw [htake, hdrop, hnumber, Char.ofNat_toNat]
  rfl

/-- A character is read back, whatever stands behind it. -/
theorem unquoteChar_quoteChar (c : Char) (rest : List Char) :
    unquoteChar (quoteChar c ++ rest) = (c, rest) := by
  unfold quoteChar
  split
  · rfl
  · rfl
  · rfl
  · rfl
  · rfl
  · rfl
  · split
    · exact unquoteChar_codePoint c rest
    · rename_i hbackslash _
      rw [List.singleton_append, unquoteChar]
      all_goals
        rintro _ rfl
        exact absurd rfl hbackslash

/-- What a character is quoted by does not begin with a quote. -/
theorem head_quoteChar (c : Char) : ∃ d ds, quoteChar c = d :: ds ∧ d ≠ '"' := by
  unfold quoteChar
  split
  · exact ⟨_, _, rfl, by decide⟩
  · exact ⟨_, _, rfl, by decide⟩
  · exact ⟨_, _, rfl, by decide⟩
  · exact ⟨_, _, rfl, by decide⟩
  · exact ⟨_, _, rfl, by decide⟩
  · exact ⟨_, _, rfl, by decide⟩
  · rename_i hquote _
    split
    · exact ⟨_, _, rfl, by decide⟩
    · exact ⟨_, _, rfl, hquote⟩

theorem flatMap_quoteChar_append_inj (cs ds : List Char) {r s : List Char}
    (h : cs.flatMap quoteChar ++ '"' :: r = ds.flatMap quoteChar ++ '"' :: s) :
    cs = ds ∧ r = s := by
  induction cs generalizing ds with
  | nil =>
    cases ds with
    | nil => exact ⟨rfl, (List.cons.inj h).2⟩
    | cons d ds =>
      obtain ⟨e, es, hd, hquote⟩ := head_quoteChar d
      rw [List.flatMap_cons, hd] at h
      exact absurd (List.cons.inj h).1.symm hquote
  | cons c cs ih =>
    cases ds with
    | nil =>
      obtain ⟨e, es, hc, hquote⟩ := head_quoteChar c
      rw [List.flatMap_cons, hc] at h
      exact absurd (List.cons.inj h).1 hquote
    | cons d ds =>
      rw [List.flatMap_cons, List.flatMap_cons, List.append_assoc, List.append_assoc] at h
      have hread := congrArg unquoteChar h
      rw [unquoteChar_quoteChar, unquoteChar_quoteChar, Prod.mk.injEq] at hread
      obtain ⟨rfl, hrest⟩ := hread
      obtain ⟨rfl, hrs⟩ := ih ds hrest
      exact ⟨rfl, hrs⟩

theorem toList_quote (s : String) :
    (quote s).toList = '"' :: (s.toList.flatMap quoteChar ++ ['"']) := by
  rw [quote, String.toList_ofList]
  rfl

/-- Quoted text ends by itself, and only one text is quoted in the way it is. -/
theorem quote_append_inj {s t : String} {r r' : List Char}
    (h : (quote s).toList ++ r = (quote t).toList ++ r') : s = t ∧ r = r' := by
  simp only [toList_quote, List.cons_append, List.append_assoc, List.nil_append, List.cons.injEq,
    true_and] at h
  obtain ⟨hlist, hrest⟩ := flatMap_quoteChar_append_inj _ _ h
  exact ⟨String.toList_inj.mp hlist, hrest⟩

end Scriptlet.Text
