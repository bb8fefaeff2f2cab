import Mathlib.Data.List.Basic
import Scriptlet.Proofs.Token.Stream

namespace Scriptlet

open Lexeme (Placed EndsLike)

/-- The place so many bytes further on. -/
def Position.shift (n : Nat) (p : Position) : Position := { p with offset := n + p.offset }

/-- The place so many bytes further on, in 32 bits. -/
def Position.shiftWrap (n : Nat) (p : Position) : Position := .ofByte p.file (n + p.offset)

theorem Position.shiftWrap_of_lt {n : Nat} {p : Position} (h : n + p.offset < 0x100000000) :
    p.shiftWrap n = p.shift n :=
  ofByte_of_lt p.file h

theorem Position.shiftWrap_ofByte (n : Nat) (file : String) (offset : Nat) :
    (ofByte file offset).shiftWrap n = ofByte file (n + offset) :=
  ofByte_add file file n offset

/-- The stretch between other places. -/
def Span.map (m : Position → Position) (s : Span) : Span := ⟨m s.start, m s.stop⟩

def Token.move (m : Position → Position) (t : Token) : Token := { t with span := t.span.map m }

def Diagnostic.move (m : Position → Position) (d : Diagnostic) : Diagnostic :=
  { d with position := m d.position }

namespace Lexeme

/-- Another line may follow the text. -/
theorem endsLike_newline (rest line : List Char) : EndsLike rest (rest ++ '\n' :: line) := by
  cases rest with
  | nil =>
    refine .gap ?_
    rintro c ⟨⟩
    decide
  | cons c cs => exact .same rfl fun hpoints => hpoints.trans (List.prefix_append _ _)

namespace Placed

def shift (n : Nat) (p : Placed) : Placed := { p with offset := n + p.offset }

variable {p : Placed} {n : Nat} {file : String}

theorem token_shift : (p.shift n).token file = (p.token file).move (.shiftWrap n) := by
  simp only [token, stop, shift, Token.move, Span.map, Nat.add_assoc, Position.shiftWrap_ofByte]

theorem complaint?_shift :
    (p.shift n).complaint? file = (p.complaint? file).map (·.move (.shiftWrap n)) := by
  have hmove (position : Position) : Scanner.complaint? p.lexeme (position.shiftWrap n) =
      (Scanner.complaint? p.lexeme position).map (·.move (.shiftWrap n)) := by
    unfold Scanner.complaint?
    split
    · rfl
    · split <;> rfl
    · rfl
  rw [complaint?, complaint?, ← hmove, Position.shiftWrap_ofByte]
  rfl

theorem map_token_shift (found : List Placed) :
    ((found.map (·.shift n)).filter (·.recognised)).map (·.token file) =
      ((found.filter (·.recognised)).map (·.token file)).map (·.move (.shiftWrap n)) := by
  rw [List.filter_map, List.map_map, List.map_map]
  exact List.map_congr_left fun p _ => token_shift

theorem filterMap_complaint?_shift (found : List Placed) :
    (found.map (·.shift n)).filterMap (·.complaint? file) =
      (found.filterMap (·.complaint? file)).map (·.move (.shiftWrap n)) := by
  rw [List.filterMap_map, List.map_filterMap]
  exact List.filterMap_congr fun p _ => complaint?_shift

end Placed

end Lexeme

namespace Scan

variable {offset : Nat} {text line : List Char} {found behind : List Placed}

/-- The same is found wherever the text begins. -/
theorem shift (h : Scan offset text found) (n : Nat) :
    Scan (n + offset) text (found.map (·.shift n)) := by
  induction h with
  | done hgap => exact .done hgap
  | step hgap hcut _ ih =>
    refine step_at hgap hcut (Nat.add_assoc _ _ _).symm ?_
    rwa [Nat.add_assoc]

/-- What is found in a text and what is found on the line behind it. -/
theorem append_line (h : Scan offset text found) (hclosed : ∀ p ∈ found, p.lexeme.closed = true)
    (hline : Scan (offset + Text.size text + 1) line behind) :
    Scan offset (text ++ '\n' :: line) (found ++ behind) := by
  -- On what is found in the first text: the newline ends its last layout, and the end of each
  -- lexeme stays where it is.
  induction h with
  | @done offset gap hgap =>
    have hlayout := hgap.newline
    rw [← List.singleton_append, ← List.append_assoc]
    refine behind_layout hlayout ?_
    rw [Text.size_append]
    exact hline
  | @step offset gap rest lexeme found hgap hcut _ ih =>
    obtain ⟨hlexeme, hclosed⟩ := List.forall_mem_cons.mp hclosed
    have hcut' := hcut.congr (Lexeme.endsLike_newline rest line) hlexeme
    rw [Text.size_append, Text.size_append, ← Nat.add_assoc, ← Nat.add_assoc] at hline
    have hstep := step hgap hcut' (ih hclosed hline)
    simpa using hstep

end Scan

/-- Maps that agree on the places of a source move its tokens and diagnostics alike. -/
theorem move_tokenize_congr (source file : String) {m m' : Position → Position}
    (h : ∀ p : Position, p.offset ≤ source.utf8ByteSize → m p = m' p) :
    (tokenize source file).1.map (·.move m) = (tokenize source file).1.map (·.move m') ∧
      (tokenize source file).2.map (·.move m) = (tokenize source file).2.map (·.move m') := by
  constructor
  · refine List.map_congr_left fun t ht => ?_
    obtain ⟨hstart, hstop⟩ := inside_tokenize source file t ht
    rw [Token.move, Token.move, Span.map, Span.map, h _ hstart.offset_le, h _ hstop.offset_le]
  · refine List.map_congr_left fun d hd => ?_
    have hposition := inside_of_mem_diagnostics hd
    rw [Diagnostic.move, Diagnostic.move, h _ hposition.offset_le]

/-- As much layout as 32 bits can just not count is not seen in the places of what is behind it. -/
theorem tokenize_behind_layout {gap : List Char} (hgap : Layout gap)
    (hsize : Text.size gap = 0x100000000) (text file : String) :
    tokenize (String.ofList gap ++ text) file = tokenize text file := by
  obtain ⟨found, hfound⟩ := exists_scan 0 text.toList
  have hscan : Scan 0 (String.ofList gap ++ text).toList (found.map (·.shift 0x100000000)) := by
    rw [String.toList_append, String.toList_ofList]
    refine .behind_layout hgap ?_
    rw [hsize, Nat.zero_add]
    exact hfound.shift 0x100000000
  have hstay (offset : Nat) : Position.ofByte file (0x100000000 + offset) = .ofByte file offset :=
    congrArg (Position.mk · file) (Nat.add_mod_left 0x100000000 offset)
  have htoken (p : Placed) : (p.shift 0x100000000).token file = p.token file := by
    simp only [Placed.token, Placed.stop, Placed.shift, Nat.add_assoc, hstay]
  have hreport (p : Placed) : (p.shift 0x100000000).complaint? file = p.complaint? file := by
    simp only [Placed.complaint?, Placed.shift, hstay]
  have hend : (String.ofList gap ++ text).utf8ByteSize = 0x100000000 + text.utf8ByteSize := by
    rw [String.utf8ByteSize_append, ← Text.size_ofList, hsize]
  rw [hscan.tokenize_eq, hfound.tokenize_eq, hend, hstay, List.filter_map, List.map_map,
    List.filterMap_map]
  simp only [Function.comp_def, htoken, hreport]
  rfl

/-- Tokens and diagnostics of one text with those of another behind it, whose places are changed.
Only the second text has its end among the tokens. -/
def followedBy (m : Position → Position) (first second : List Token × List Diagnostic) :
    List Token × List Diagnostic :=
  (first.1.filter (·.kind ≠ .eof) ++ second.1.map (·.move m),
    first.2 ++ second.2.map (·.move m))

/-- The tokens of two texts on lines of their own, where every lexeme of the first is closed. The
places of the second text are further on, as far as 32 bits can say. -/
theorem Scan.tokenize_append_line {a : String} (h : Scan 0 a.toList found)
    (hclosed : ∀ p ∈ found, p.lexeme.closed = true) (b file : String) :
    tokenize (a ++ "\n" ++ b) file =
      followedBy (.shiftWrap (a.utf8ByteSize + 1)) (tokenize a file) (tokenize b file) := by
  obtain ⟨behind, hbehind⟩ := exists_scan 0 b.toList
  generalize hn : a.utf8ByteSize + 1 = n
  have hscan : Scan 0 (a ++ "\n" ++ b).toList (found ++ behind.map (·.shift n)) := by
    have hline : Scan (0 + Text.size a.toList + 1) b.toList (behind.map (·.shift n)) := by
      rw [Nat.zero_add, Text.size_toList, hn]
      exact hbehind.shift n
    have happend := h.append_line hclosed hline
    rw [String.toList_append, String.toList_append, List.append_assoc]
    exact happend
  have hend : (a ++ "\n" ++ b).utf8ByteSize = n + b.utf8ByteSize := by
    rw [String.utf8ByteSize_append, String.utf8ByteSize_append, ← hn]
    rfl
  rw [followedBy, h.filter_tokenize_eq, hscan.tokenize_eq, h.tokenize_eq, hbehind.tokenize_eq, hend]
  apply Prod.ext
  · rw [List.filter_append, List.map_append, Placed.map_token_shift, List.map_append,
      List.append_assoc, ← Position.shiftWrap_ofByte]
    rfl
  · rw [List.filterMap_append, Placed.filterMap_complaint?_shift]

/-- Where 32 bits can count both texts, the places of the second are just further on. -/
theorem followedBy_shiftWrap {a b : String} {n : Nat} (hsize : n + b.utf8ByteSize < 0x100000000)
    (file : String) :
    followedBy (.shiftWrap n) (tokenize a file) (tokenize b file) =
      followedBy (.shift n) (tokenize a file) (tokenize b file) := by
  have hagree (p : Position) (hp : p.offset ≤ b.utf8ByteSize) : p.shiftWrap n = p.shift n :=
    Position.shiftWrap_of_lt (by omega)
  obtain ⟨htokens, hreports⟩ := move_tokenize_congr b file hagree
  rw [followedBy, followedBy, htokens, hreports]

/-- The tokens of two texts on lines of their own, where the first leaves no string open: those of
the first, and then those of the second further on by the first line. -/
theorem tokenize_lines {a b file : String}
    (h : ∀ d ∈ (tokenize a file).2, d.fault.isUnterminated = false) :
    tokenize (a ++ "\n" ++ b) file =
        followedBy (.shiftWrap (a.utf8ByteSize + 1)) (tokenize a file) (tokenize b file) ∧
      (a.utf8ByteSize + 1 + b.utf8ByteSize < 0x100000000 →
        tokenize (a ++ "\n" ++ b) file =
          ((tokenize a file).1.filter (·.kind ≠ .eof) ++
              (tokenize b file).1.map (·.move (.shift (a.utf8ByteSize + 1))),
            (tokenize a file).2 ++
              (tokenize b file).2.map (·.move (.shift (a.utf8ByteSize + 1))))) := by
  obtain ⟨found, hfound⟩ := exists_scan 0 a.toList
  have happend := hfound.tokenize_append_line (hfound.closed_of_no_unterminated h) b file
  refine ⟨happend, fun hsize => ?_⟩
  rw [happend, followedBy_shiftWrap hsize]
  rfl

/-- The lone `&` at the end of the first line and the one on the second are no operator. -/
theorem tokenize_lines_ampersands :
    (∀ d ∈ (tokenize "1.&" "f").2, d.fault.isUnterminated = false) ∧
      tokenize ("1.&" ++ "\n" ++ "&.5 \"") "f" =
        ((tokenize "1.&" "f").1.filter (·.kind ≠ .eof) ++
            (tokenize "&.5 \"" "f").1.map (·.move (.shift ("1.&".utf8ByteSize + 1))),
          (tokenize "1.&" "f").2 ++
            (tokenize "&.5 \"" "f").2.map (·.move (.shift ("1.&".utf8ByteSize + 1)))) := by
  have hclosed : ∀ d ∈ (tokenize "1.&" "f").2, d.fault.isUnterminated = false := by decide
  exact ⟨hclosed, (tokenize_lines hclosed).2 (by decide)⟩

end Scriptlet
