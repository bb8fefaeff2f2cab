import Scriptlet.Text.Split
import Scriptlet.Text.Size

/-!
Line and column of a byte offset. Lines count from one and columns from zero; a column counts the
characters of the line that start before the offset. An offset at the end of the text, or past it,
lies at the end of the last line, which is empty if the text ends in a newline.
-/
namespace Scriptlet

/-- A byte offset into the text called `file`. -/
structure Position where
  offset : Nat
  file : String
  deriving DecidableEq, Inhabited

/-- The position of what no text holds. -/
def Position.null : Position := ⟨0, "<null>"⟩

/-- The place of a byte. Positions have 32 bits. -/
def Position.ofByte (file : String) (offset : Nat) : Position := ⟨offset % 0x100000000, file⟩

theorem Position.ofByte_of_lt (file : String) {offset : Nat} (h : offset < 0x100000000) :
    ofByte file offset = ⟨offset, file⟩ :=
  congrArg (Position.mk · file) (Nat.mod_eq_of_lt h)

/-- What is added to a place may be added before its offset is cut to 32 bits. -/
theorem Position.ofByte_add (file file' : String) (n offset : Nat) :
    ofByte file (n + (ofByte file' offset).offset) = ofByte file (n + offset) :=
  congrArg (Position.mk · file) (Nat.add_mod_mod n offset _)

/-- A stretch of text: from `start` up to `stop`. -/
structure Span where
  start : Position
  stop : Position
  deriving DecidableEq, Inhabited

/-- From the start of the one to the end of the other. -/
def Span.cover (first last : Span) : Span := ⟨first.start, last.stop⟩

structure Location where
  line : Nat
  text : List Char
  column : Nat
  deriving DecidableEq

namespace Location

/-- How many characters start before byte `n`. -/
def charsBefore : Nat → List Char → Nat
  | _, [] => 0
  | n, c :: cs => if 0 < n then charsBefore (n - c.utf8Size) cs + 1 else 0

/-- Looks for byte `n` in the lines from number `line` on. -/
def among (line n : Nat) : List (List Char) → Location
  | [] => ⟨line, [], 0⟩
  | text :: rest =>
    if n < Text.size text ∨ rest = [] ∧ text.getLast? ≠ some '\n' then
      ⟨line, text, charsBefore n text⟩
    else among (line + 1) (n - Text.size text) rest

end Location

/-- The line that holds byte `offset` of a text, and the place in it. -/
def locate (text : List Char) (offset : Nat) : Location :=
  Location.among 1 offset (Text.lines text)

end Scriptlet
