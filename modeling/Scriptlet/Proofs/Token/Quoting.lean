import Scriptlet.Proofs.Token.Scan

namespace Scriptlet

namespace Lexeme

/-- The characters with an escape of their own, and the letter of each. -/
def escapes : List (Char × Char) :=
  [('\n', 'n'), ('\t', 't'), ('\r', 'r'), ('\x00', '0'), ('\\', '\\'), ('"', '"')]

/-- The ways to write a character between quotes. -/
inductive Spells : Char → List Char → Prop
  | plain {c} : c ≠ '"' → c ≠ '\\' → Spells c [c]
  | escape {c letter} : (c, letter) ∈ escapes → Spells c ['\\', letter]
  | code {c a b} : isHexDigit a = true → isHexDigit b = true →
      c.toNat = 16 * hexValue a + hexValue b → Spells c ['\\', 'x', a, b]

/-- The ways to write a string between quotes, character by character. -/
inductive Written : List Char → List Char → Prop
  | nil : Written [] []
  | cons {c spelling cs text} : Spells c spelling → Written cs text →
      Written (c :: cs) (spelling ++ text)

theorem exists_spells (c : Char) : ∃ spelling, Spells c spelling := by
  by_cases hquote : c = '"'
  · subst hquote
    exact ⟨['\\', '"'], .escape (by decide)⟩
  by_cases hbackslash : c = '\\'
  · subst hbackslash
    exact ⟨['\\', '\\'], .escape (by decide)⟩
  exact ⟨_, .plain hquote hbackslash⟩

/-- Every string can be written. -/
theorem exists_written (cs : List Char) : ∃ text, Written cs text := by
  induction cs with
  | nil => exact ⟨[], .nil⟩
  | cons c cs ih =>
    obtain ⟨spelling, hc⟩ := exists_spells c
    obtain ⟨text, hcs⟩ := ih
    exact ⟨spelling ++ text, .cons hc hcs⟩

theorem exists_hexDigit {d : Nat} (h : d < 16) :
    ∃ a : Char, isHexDigit a = true ∧ hexValue a = d := by
  by_cases hd : d < 10
  · have hdigit : ∀ d : Fin 10, isHexDigit (Char.ofNat (48 + d)) = true ∧
        hexValue (Char.ofNat (48 + d)) = d := by
      decide
    exact ⟨_, hdigit ⟨d, hd⟩⟩
  · have hletter : ∀ d : Fin 6, isHexDigit (Char.ofNat (97 + d)) = true ∧
        hexValue (Char.ofNat (97 + d)) = d + 10 := by
      decide
    obtain ⟨ha, hvalue⟩ := hletter ⟨d - 10, by omega⟩
    exact ⟨_, ha, hvalue.trans (by simp only; omega)⟩

/-- The first 256 characters can be written as their codes. -/
theorem exists_code {c : Char} (h : c.toNat < 256) : ∃ a b, Spells c ['\\', 'x', a, b] := by
  obtain ⟨a, ha, hhigh⟩ := exists_hexDigit (show c.toNat / 16 < 16 by omega)
  obtain ⟨b, hb, hlow⟩ := exists_hexDigit (Nat.mod_lt c.toNat (show 0 < 16 by omega))
  exact ⟨a, b, .code ha hb (by omega)⟩

theorem isHexDigit_plain {c : Char} (h : isHexDigit c = true) : c ≠ '"' ∧ c ≠ '\\' := by
  constructor
  · rintro rfl
    exact absurd h (by decide)
  · rintro rfl
    exact absurd h (by decide)

theorem unescape_plain {c : Char} (h : c ≠ '\\') (cs : List Char) :
    unescape (c :: cs) = c :: unescape cs := by
  rw [unescape] <;> simp [h]

namespace Spells

variable {c : Char} {spelling : List Char}

/-- A spelling stands for its character, whatever comes behind it. -/
theorem unescape_append (h : Spells c spelling) (text : List Char) :
    unescape (spelling ++ text) = c :: unescape text := by
  cases h with
  | plain _ hbackslash => exact unescape_plain hbackslash text
  | escape hc =>
    simp only [escapes, List.mem_cons, Prod.mk.injEq, List.not_mem_nil, or_false] at hc
    rcases hc with ⟨rfl, rfl⟩ | ⟨rfl, rfl⟩ | ⟨rfl, rfl⟩ | ⟨rfl, rfl⟩ | ⟨rfl, rfl⟩ | ⟨rfl, rfl⟩ <;>
      exact unescape.eq_def _
  | @code a b ha hb hcode =>
    -- The code has both of its digits, so no more of the text is taken for it.
    have hvalue : Char.ofNat (16 * hexValue a + hexValue b) = c := by
      rw [← hcode, Char.ofNat_toNat]
    change unescape ('\\' :: 'x' :: a :: b :: text) = _
    rw [unescape, if_pos ha, if_pos hb, hvalue]

/-- A spelling does not end the literal. -/
theorem toQuote_append (h : Spells c spelling) (text : List Char) :
    toQuote (spelling ++ text) = (spelling ++ (toQuote text).1, (toQuote text).2) := by
  cases h with
  | plain hquote hbackslash => exact toQuote_plain hquote hbackslash text
  | escape => rfl
  | @code a b ha hb _ =>
    obtain ⟨haquote, habackslash⟩ := isHexDigit_plain ha
    obtain ⟨hbquote, hbbackslash⟩ := isHexDigit_plain hb
    change toQuote ('\\' :: 'x' :: a :: b :: text) = _
    rw [toQuote, toQuote_plain haquote habackslash, toQuote_plain hbquote hbbackslash]
    rfl

end Spells

namespace Written

variable {cs text : List Char}

theorem unescape_eq (h : Written cs text) : unescape text = cs := by
  induction h with
  | nil => rfl
  | cons hc _ ih => rw [hc.unescape_append, ih]

theorem toQuote_eq (h : Written cs text) (rest : List Char) :
    toQuote (text ++ '"' :: rest) = (text, ['"']) := by
  induction h with
  | nil => rfl
  | cons hc _ ih => rw [List.append_assoc, hc.toQuote_append, ih]

/-- The literal is cut off at the quote behind it. -/
theorem cutBefore (h : Written cs text) (rest : List Char) :
    CutBefore ⟨.string, '"' :: (text ++ ['"']), String.ofList cs, true⟩ rest := by
  refine ⟨'"', text ++ ['"'], rfl, ⟨by decide, fun h => nomatch h.1⟩, ?_⟩
  rw [List.append_assoc, List.singleton_append, cut, if_pos rfl, ofString, h.toQuote_eq]
  dsimp only
  rw [h.unescape_eq]
  rfl

end Written

end Lexeme

/-- However a string is written between quotes, it is the only token, and nothing is reported. -/
theorem Lexeme.Written.tokenize_eq {value text : String}
    (h : Lexeme.Written value.toList text.toList) (file : String) :
    tokenize ("\"" ++ text ++ "\"") file =
      ([⟨.string, value,
          ⟨.ofByte file 0, .ofByte file ("\"" ++ text ++ "\"").utf8ByteSize⟩⟩,
        Cursor.endToken (.ofByte file ("\"" ++ text ++ "\"").utf8ByteSize)], []) := by
  have hcut := h.cutBefore []
  rw [String.ofList_toList] at hcut
  have htext : ("\"" ++ text ++ "\"").toList = [] ++ ('"' :: (text.toList ++ ['"']) ++ []) := by
    rw [String.toList_append, String.toList_append, List.append_nil]
    rfl
  have hscan : Scan 0 ("\"" ++ text ++ "\"").toList
      [⟨0, ⟨.string, '"' :: (text.toList ++ ['"']), value, true⟩⟩] := by
    rw [htext]
    exact .step .nil hcut (.done (.layout .nil))
  rw [hscan.tokenize_eq, ← Text.size_toList, htext]
  simp [Lexeme.Placed.recognised, Lexeme.Placed.token, Lexeme.Placed.stop,
    Lexeme.Placed.complaint?, Scanner.complaint?]

/-- Every string can be written between quotes, and each of the first 256 characters as its code.
However it is written, it is read back as one token from the first quote to the last, and nothing is
reported; the end of the token has 32 bits of its place. -/
theorem tokenize_written (value file : String) :
    (∃ text : String, Lexeme.Written value.toList text.toList) ∧
    (∀ c : Char, c.toNat < 256 → ∃ a b, Lexeme.Spells c ['\\', 'x', a, b]) ∧
    ∀ text : String, Lexeme.Written value.toList text.toList →
      let source := "\"" ++ text ++ "\""
      let stop := Position.ofByte file source.utf8ByteSize
      tokenize source file = ([⟨.string, value, ⟨⟨0, file⟩, stop⟩⟩, Cursor.endToken stop], []) ∧
        (source.utf8ByteSize < 0x100000000 → stop = ⟨source.utf8ByteSize, file⟩) := by
  refine ⟨?_, fun c => Lexeme.exists_code, fun text h => ⟨h.tokenize_eq file, ?_⟩⟩
  · obtain ⟨text, htext⟩ := Lexeme.exists_written value.toList
    exact ⟨String.ofList text, by rwa [String.toList_ofList]⟩
  · exact Position.ofByte_of_lt file

/-- Backslashes in a row, an escaped quote at the end, and a digit behind a code. -/
theorem tokenize_written_backslashes :
    Lexeme.Written "\\\\é1\"".toList "\\\\\\x5C\\xe91\\\"".toList ∧
      tokenize ("\"" ++ "\\\\\\x5C\\xe91\\\"" ++ "\"") "f" =
        ([⟨.string, "\\\\é1\"", ⟨⟨0, "f"⟩, ⟨15, "f"⟩⟩⟩, Cursor.endToken ⟨15, "f"⟩], []) := by
  have hwritten : Lexeme.Written "\\\\é1\"".toList "\\\\\\x5C\\xe91\\\"".toList :=
    .cons (.escape (by decide)) <| .cons (.code rfl rfl rfl) <| .cons (.code rfl rfl rfl) <|
      .cons (.plain (by decide) (by decide)) <| .cons (.escape (by decide)) .nil
  obtain ⟨-, -, hread⟩ := tokenize_written "\\\\é1\"" "f"
  obtain ⟨htokens, hstop⟩ := hread _ hwritten
  rw [hstop (by decide)] at htokens
  exact ⟨hwritten, htokens⟩

/-- A string of so many blanks that 32 bits cannot count them: its token does not go to the quote at
the end. -/
theorem tokenize_written_wraps :
    let value := String.ofList (List.replicate 0x100000000 ' ')
    let source := "\"" ++ value ++ "\""
    Lexeme.Written value.toList value.toList ∧ source.utf8ByteSize = 0x100000002 ∧
      (tokenize source "f").1 =
        [⟨.string, value, ⟨⟨0, "f"⟩, ⟨2, "f"⟩⟩⟩, Cursor.endToken ⟨2, "f"⟩] := by
  intro value source
  have hblanks (n : Nat) : Lexeme.Written (List.replicate n ' ') (List.replicate n ' ') := by
    induction n with
    | zero => exact .nil
    | succ n ih => exact .cons (.plain (by decide) (by decide)) ih
  have hwritten : Lexeme.Written value.toList value.toList := by
    rw [String.toList_ofList]
    exact hblanks _
  have hsize : source.utf8ByteSize = 0x100000002 := by
    have hvalue : value.utf8ByteSize = 0x100000000 := by
      rw [← Text.size_toList, String.toList_ofList, Text.size_replicate_space]
    have hquote : "\"".utf8ByteSize = 1 := by decide
    rw [String.utf8ByteSize_append, String.utf8ByteSize_append]
    omega
  have hwraps : Position.ofByte "f" source.utf8ByteSize = ⟨2, "f"⟩ := by
    rw [hsize]
    decide
  have htokens := congrArg Prod.fst (hwritten.tokenize_eq "f")
  rw [hwraps] at htokens
  exact ⟨hwritten, hsize, htokens⟩

end Scriptlet
