import Scriptlet.Text.Blank
import Scriptlet.Text.Size
import Scriptlet.Diagnostic.Basic
import Scriptlet.Token.Lexeme

/-!
Scanning a source into tokens. A scanner stands between two characters of its source; each step
skips layout, which is blanks and comments, and cuts off one lexeme. A character that begins no
lexeme is reported and becomes an error token, and a string that lacks its final quote is reported
and kept, so scanning always reaches the end.
-/
namespace Scriptlet

/-- `rest` is the source from byte `offset` on, and empty past its end. -/
structure Scanner where
  source : String
  rest : List Char
  offset : Nat
  file : String
  diagnostics : List Diagnostic

namespace Scanner

/-- At the start of a source. -/
def ofSource (source file : String) : Scanner :=
  { source, rest := source.toList, offset := 0, file, diagnostics := [] }

/-- The place of a byte of the source, or of one past its end. -/
def position (s : Scanner) (offset : Nat) : Position := .ofByte s.file offset

/-- From byte `start` to where the scanner stands. -/
def spanFrom (s : Scanner) (start : Nat) : Span := ⟨s.position start, s.position s.offset⟩

def atEnd (s : Scanner) : Bool := s.source.utf8ByteSize ≤ s.offset

/-- Goes on by `n` bytes, if need be past the end. Offsets have 64 bits. -/
def advance (s : Scanner) (n : Nat) : Scanner :=
  let offset := (s.offset + n) % 0x10000000000000000
  { s with rest := Text.dropBytes offset s.source.toList, offset }

/-- The place, as an offset and the text from there on, that the layout before byte `offset` of a
text leads to; `inComment` says whether it begins inside a comment. -/
def skipLayout (inComment : Bool) (offset : Nat) : List Char → Nat × List Char
  | [] => (offset, [])
  | c :: cs =>
    if inComment then skipLayout (c != '\n') (offset + c.utf8Size) cs
    else if Text.isBlank c then skipLayout false (offset + c.utf8Size) cs
    else if c = '/' ∧ cs.head? = some '/' then skipLayout true (offset + 1) cs
    else (offset, c :: cs)

/-- What a lexeme at `position` has to report. -/
def complaint? (lexeme : Lexeme) (position : Position) : Option Diagnostic :=
  match lexeme.kind with
  | .error => some ⟨.unrecognised lexeme.value, position⟩
  | .string => if lexeme.closed then none else some ⟨.unterminated lexeme.value, position⟩
  | _ => none

/-- The next token, and the scanner behind it. -/
def next (s : Scanner) : Token × Scanner :=
  let (offset, rest) := skipLayout false s.offset s.rest
  let here : Scanner := { s with offset, rest }
  match rest with
  | [] => (⟨.eof, "EOF", ⟨s.position offset, s.position offset⟩⟩, here)
  | c :: cs =>
    let lexeme := Lexeme.cut c cs
    let behind : Scanner :=
      { s with
        offset := offset + Text.size lexeme.text
        rest := rest.drop lexeme.text.length
        diagnostics := s.diagnostics ++ (complaint? lexeme (s.position offset)).toList }
    (⟨lexeme.kind, lexeme.value, ⟨s.position offset, s.position behind.offset⟩⟩, behind)

/-- The tokens of at most `limit` steps, up to the end of the source. -/
def run : Nat → Scanner → List Token × Scanner
  | 0, s => ([], s)
  | limit + 1, s =>
    let (token, behind) := s.next
    if token.kind = .eof then ([token], behind)
    else
      let (tokens, last) := run limit behind
      (token :: tokens, last)

end Scanner

/-- The tokens of a source, error tokens left out and the end of the text last, and what was
reported. Every step but the last one takes a character, which bounds their number. -/
def tokenize (source file : String) : List Token × List Diagnostic :=
  let scanner := Scanner.ofSource source file
  let (tokens, last) := scanner.run (scanner.rest.length + 1)
  (tokens.filter (·.kind ≠ .error), last.diagnostics)

end Scriptlet
