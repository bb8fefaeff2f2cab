import Mathlib.Data.List.Chain
import Mathlib.Data.List.Forall2
import Scriptlet.Proofs.Arithmetic.Source
import Scriptlet.Proofs.Token.Scan

namespace Scriptlet.Arithmetic

namespace Piece

/-- A numeral has digits and nothing else. -/
def Valid : Piece → Prop
  | numeral digits => digits ≠ [] ∧ ∀ c ∈ digits, c.isDigit = true
  | _ => True

/-- The pieces may stand next to each other. -/
def Meets : Piece → Piece → Prop
  | numeral _, numeral _ => False
  | operator _, numeral _ => True
  | operator _, opening => True
  | operator _, _ => False
  | _, _ => True

/-- An expression may begin with the piece. -/
def Begins : Piece → Prop
  | numeral _ | opening => True
  | _ => False

/-- An expression may end with the piece. -/
def Finishes : Piece → Prop
  | numeral _ | closing => True
  | _ => False

theorem Finishes.meets {p q : Piece} (h : p.Finishes) (hq : ¬q.Begins) : p.Meets q := by
  cases p <;> cases q <;> first | exact trivial | exact absurd trivial hq | exact absurd h id

theorem Begins.follows {p q : Piece} (h : q.Begins) (hp : ¬p.Finishes) : p.Meets q := by
  cases p <;> cases q <;> first | exact trivial | exact absurd trivial hp | exact absurd h id

/-- The piece ends where this text begins, and is no part of a longer lexeme. -/
def Ends : Piece → List Char → Prop
  | numeral _, text => ∀ c ∈ text.head?, c.isDigit = false ∧ c ≠ '.'
  | operator _, text => ∀ c ∈ text.head?, c ≠ '=' ∧ c ≠ '/'
  | _, _ => True

/-- The piece as a lexeme. -/
def lexeme (p : Piece) : Lexeme :=
  { kind := p.kind, text := p.text, value := String.ofList p.text }

end Piece

section Lexemes

variable {c : Char} {cs digits : List Char}

/-- What is no digit is another character than a digit. -/
theorem ne_of_isDigit {d : Char} (h : c.isDigit = true) (hd : d.isDigit = false) : c ≠ d := by
  rintro rfl
  rw [h] at hd
  cases hd

theorem ofOperator?_of_isDigit (h : c.isDigit = true) (cs : List Char) :
    Lexeme.ofOperator? (c :: cs) = none := by
  rw [Lexeme.ofOperator?, Option.map_eq_none_iff, List.find?_eq_none]
  intro entry hentry hfront
  have hdigit :=
    (Lexeme.head_of_operator_isPrefix hentry (List.isPrefixOf_iff_prefix.mp hfront)).2.1
  rw [h] at hdigit
  cases hdigit

/-- Operators that an equals sign would make longer stand alone if there is none. -/
theorem ofOperator?_operator (op : Operator) (h : ∀ d ∈ cs.head?, d ≠ '=') :
    Lexeme.ofOperator? (op.symbol :: cs) = some (Piece.operator op).lexeme := by
  rcases cs with _ | ⟨d, cs⟩
  · cases op <;> decide
  · have hd : ('=' == d) = false := beq_eq_false_iff_ne.mpr (Ne.symm (h d rfl))
    cases op <;>
      simp [Lexeme.ofOperator?, Lexeme.operators, Operator.symbol, List.find?, List.isPrefixOf, hd]
        <;> rfl

theorem ofNumber_numeral (hdigits : ∀ c ∈ digits, c.isDigit = true)
    (hends : ∀ c ∈ cs.head?, c.isDigit = false ∧ c ≠ '.') :
    Lexeme.ofNumber (digits ++ cs) = (Piece.numeral digits).lexeme := by
  obtain ⟨htake, hdrop⟩ := Lexeme.span_run hdigits fun d hd => (hends d hd).1
  have hpoint : '.' ∉ digits := fun h => absurd (hdigits '.' h) (by decide)
  rw [Lexeme.ofNumber, htake, hdrop]
  -- The text behind the digits does not begin with a point.
  split
  · exact absurd rfl (hends '.' rfl).2
  · exact absurd rfl (hends '.' rfl).2
  · rw [if_neg hpoint]
    rfl

end Lexemes

namespace Piece

variable {p q : Piece} {cs : List Char}

/-- A piece is cut off as a lexeme where it ends. -/
theorem cutBefore (hp : p.Valid) (hends : p.Ends cs) : p.lexeme.CutBefore cs := by
  cases p with
  | numeral digits =>
    obtain ⟨hne, hdigits⟩ := hp
    obtain ⟨c, ds, rfl⟩ := List.exists_cons_of_ne_nil hne
    have hc : c.isDigit = true := hdigits c List.mem_cons_self
    have hquote : c ≠ '"' := ne_of_isDigit hc (by decide)
    have hslash : c ≠ '/' := ne_of_isDigit hc (by decide)
    refine ⟨c, ds, rfl, ⟨Lexeme.isBlank_of_isDigit hc, fun h => hslash h.1⟩, ?_⟩
    rw [Lexeme.cut, if_neg hquote, ofOperator?_of_isDigit hc, Lexeme.isWordStart_of_isDigit hc]
    simp only [Bool.false_eq_true, if_false, if_pos hc]
    exact ofNumber_numeral hdigits hends
  | operator op =>
    have hslash : ¬(op.symbol = '/' ∧ cs.head? = some '/') := fun h => (hends '/' h.2).2 rfl
    have hblank : Text.isBlank op.symbol = false := by cases op <;> decide
    have hquote : op.symbol ≠ '"' := by cases op <;> decide
    refine ⟨op.symbol, [], rfl, ⟨hblank, hslash⟩, ?_⟩
    rw [List.nil_append, Lexeme.cut, if_neg hquote,
      ofOperator?_operator op fun d hd => (hends d hd).1]
  | opening => exact ⟨'(', [], rfl, ⟨by decide, fun h => absurd h.1 (by decide)⟩, rfl⟩
  | closing => exact ⟨')', [], rfl, ⟨by decide, fun h => absurd h.1 (by decide)⟩, rfl⟩
  | semicolon => exact ⟨';', [], rfl, ⟨by decide, fun h => absurd h.1 (by decide)⟩, rfl⟩

theorem ends_nil : p.Ends [] := by
  cases p <;> first | exact trivial | exact fun c hc => nomatch hc

/-- A blank ends every piece. -/
theorem ends_blank {c : Char} (hc : Text.isBlank c = true) (cs : List Char) : p.Ends (c :: cs) := by
  have hne {d : Char} (hd : Text.isBlank d = false) : c ≠ d := by
    rintro rfl
    rw [hc] at hd
    cases hd
  have hdigit : c.isDigit = false := by
    rw [Bool.eq_false_iff]
    intro h
    rw [Lexeme.isBlank_of_isDigit h] at hc
    cases hc
  cases p with
  | numeral digits =>
    rintro d ⟨⟩
    exact ⟨hdigit, hne (by decide)⟩
  | operator op =>
    rintro d ⟨⟩
    exact ⟨hne (by decide), hne (by decide)⟩
  | opening | closing | semicolon => trivial

/-- So does every piece that may stand next to it. -/
theorem ends_text (hq : q.Valid) (h : p.Meets q) (cs : List Char) : p.Ends (q.text ++ cs) := by
  cases p with
  | numeral digits =>
    cases q with
    | numeral => exact absurd h id
    | operator op =>
      rintro c ⟨⟩
      cases op <;> decide
    | opening | closing | semicolon =>
      rintro c ⟨⟩
      decide
  | operator op =>
    cases q with
    | numeral digits =>
      obtain ⟨c, ds, rfl⟩ := List.exists_cons_of_ne_nil hq.1
      have hc : c.isDigit = true := hq.2 c List.mem_cons_self
      rintro d ⟨⟩
      exact ⟨ne_of_isDigit hc (by decide), ne_of_isDigit hc (by decide)⟩
    | opening =>
      rintro c ⟨⟩
      decide
    | operator | closing | semicolon => exact absurd h id
  | opening | closing | semicolon => trivial

end Piece

/-- The text of pieces that meet ends the piece in front of them. -/
theorem LaidOut.ends {p : Piece} {ps : List Piece} {text : List Char} (h : LaidOut ps text)
    (hvalid : ∀ q ∈ ps, q.Valid) (hmeets : ∀ q ∈ ps.head?, p.Meets q) : p.Ends text := by
  cases h with
  | nil hgap =>
    cases hgap with
    | nil => exact Piece.ends_nil
    | blank hc _ => exact Piece.ends_blank hc _
  | @cons gap q ps text hgap _ =>
    cases hgap with
    | nil => exact Piece.ends_text (hvalid q List.mem_cons_self) (hmeets q rfl) text
    | blank hc _ => exact Piece.ends_blank hc _

/-- What the pieces of an expression have in common. -/
structure Phrase (ps : List Piece) : Prop where
  valid : ∀ p ∈ ps, p.Valid
  meets : ps.IsChain Piece.Meets
  first : ∃ p qs, ps = p :: qs ∧ p.Begins
  last : ∃ qs p, ps = qs ++ [p] ∧ p.Finishes

namespace Phrase

variable {ps qs : List Piece}

theorem numeral {digits : List Char} (h : (Piece.numeral digits).Valid) :
    Phrase [.numeral digits] where
  valid p hp := by rwa [List.mem_singleton.mp hp]
  meets := .singleton _
  first := ⟨_, [], rfl, trivial⟩
  last := ⟨[], _, rfl, trivial⟩

/-- The phrase may stand in front of a piece that no expression begins with. -/
theorem isChain_append (hp : Phrase ps) {p : Piece} (h : ¬p.Begins)
    (hq : (p :: qs).IsChain Piece.Meets) : (ps ++ p :: qs).IsChain Piece.Meets := by
  obtain ⟨rs, r, rfl, hr⟩ := hp.last
  refine hp.meets.append hq ?_
  rintro x hx y ⟨⟩
  rw [List.getLast?_concat] at hx
  cases hx
  exact hr.meets h

/-- And behind one that no expression ends with. -/
theorem isChain_cons (hp : Phrase ps) {p : Piece} (h : ¬p.Finishes) :
    (p :: ps).IsChain Piece.Meets := by
  obtain ⟨q, rs, rfl, hq⟩ := hp.first
  exact .cons_cons (hq.follows h) hp.meets

theorem apply (hp : Phrase ps) (op : Operator) (hq : Phrase qs) :
    Phrase (ps ++ .operator op :: qs) where
  valid := List.forall_mem_append.mpr ⟨hp.valid, List.forall_mem_cons.mpr ⟨trivial, hq.valid⟩⟩
  meets := hp.isChain_append id (hq.isChain_cons id)
  first := by
    obtain ⟨p, rs, rfl, h⟩ := hp.first
    exact ⟨p, _, rfl, h⟩
  last := by
    obtain ⟨rs, p, rfl, h⟩ := hq.last
    exact ⟨ps ++ .operator op :: rs, p, by simp, h⟩

theorem group (hp : Phrase ps) : Phrase (.opening :: (ps ++ [.closing])) where
  valid := by
    refine List.forall_mem_cons.mpr ⟨trivial, List.forall_mem_append.mpr ⟨hp.valid, ?_⟩⟩
    exact List.forall_mem_cons.mpr ⟨trivial, fun p h => nomatch h⟩
  meets := by
    obtain ⟨q, rs, rfl, hq⟩ := hp.first
    exact .cons_cons (hq.follows id) (hp.isChain_append id (.singleton _))
  first := ⟨_, _, rfl, trivial⟩
  last := ⟨.opening :: ps, .closing, rfl, trivial⟩

end Phrase

theorem Written.phrase {n : Nat} {t : Tree} {ps : List Piece} (h : Written n t ps) : Phrase ps := by
  induction h with
  | literal hne hdigits _ => exact .numeral ⟨hne, hdigits⟩
  | @apply _ op _ _ _ _ _ _ _ hleft hright => exact hleft.apply op hright
  | group _ ih => exact ih.group

theorem WrittenAll.valid {ts : List Tree} {ps : List Piece} (h : WrittenAll ts ps) :
    ∀ p ∈ ps, p.Valid := by
  induction h with
  | nil => exact fun p hp => nomatch hp
  | cons ht _ ih =>
    exact List.forall_mem_append.mpr ⟨ht.phrase.valid, List.forall_mem_cons.mpr ⟨trivial, ih⟩⟩

theorem WrittenAll.meets {ts : List Tree} {ps : List Piece} (h : WrittenAll ts ps) :
    ps.IsChain Piece.Meets := by
  induction h with
  | nil => exact .nil
  | @cons t ts ps qs ht _ ih =>
    refine ht.phrase.isChain_append id (ih.cons fun q _ => ?_)
    cases q <;> trivial

/-- The token is the piece. -/
structure Shows (t : Token) (p : Piece) : Prop where
  kind : t.kind = p.kind
  value : t.value = String.ofList p.text

theorem Piece.kind_ne_error (p : Piece) : p.kind ≠ .error := by
  cases p with
  | operator op => cases op <;> decide
  | numeral digits => exact Kind.noConfusion
  | opening | closing | semicolon => decide

theorem Piece.complaint?_lexeme (p : Piece) (position : Position) :
    Scanner.complaint? p.lexeme position = none := by
  cases p with
  | operator op => cases op <;> rfl
  | numeral | opening | closing | semicolon => rfl

/-- What is found in the text are the pieces. -/
theorem LaidOut.exists_scan {ps : List Piece} {text : List Char} (h : LaidOut ps text)
    (hvalid : ∀ p ∈ ps, p.Valid) (hmeets : ps.IsChain Piece.Meets) (offset : Nat) :
    ∃ found, Scan offset text found ∧ found.map (·.lexeme) = ps.map Piece.lexeme := by
  induction h generalizing offset with
  | nil hgap => exact ⟨[], .done (.layout hgap.layout), rfl⟩
  | @cons gap p ps text hgap hps ih =>
    obtain ⟨hhead, htail⟩ := List.isChain_cons.mp hmeets
    obtain ⟨hp, hvalid⟩ := List.forall_mem_cons.mp hvalid
    have hcut : p.lexeme.CutBefore text := p.cutBefore hp (hps.ends hvalid hhead)
    obtain ⟨found, hfound, hpieces⟩ :=
      ih hvalid htail (offset + Text.size gap + Text.size p.lexeme.text)
    exact ⟨_, .step hgap.layout hcut hfound, congrArg (p.lexeme :: ·) hpieces⟩

/-- The tokens of a text of arithmetic are its pieces and the end of the text. -/
theorem tokenize_laidOut {ps : List Piece} {text : List Char} (h : LaidOut ps text)
    (hvalid : ∀ p ∈ ps, p.Valid) (hmeets : ps.IsChain Piece.Meets) (file : String) :
    ∃ ts last, tokenize (String.ofList text) file = (ts ++ [last], []) ∧ last.kind = .eof ∧
      List.Forall₂ Shows ts ps := by
  obtain ⟨found, hfound, hpieces⟩ := h.exists_scan hvalid hmeets 0
  have hpiece : ∀ f ∈ found, ∃ p : Piece, p.lexeme = f.lexeme := by
    intro f hf
    have hmem : f.lexeme ∈ ps.map Piece.lexeme := hpieces ▸ List.mem_map_of_mem hf
    obtain ⟨p, -, hp⟩ := List.mem_map.mp hmem
    exact ⟨p, hp⟩
  have hrecognised : found.filter (·.recognised) = found := by
    refine List.filter_eq_self.mpr fun f hf => ?_
    obtain ⟨p, hp⟩ := hpiece f hf
    have hkind : f.lexeme.kind ≠ .error := hp ▸ p.kind_ne_error
    simpa [Lexeme.Placed.recognised] using hkind
  have hreports : found.filterMap (·.complaint? file) = [] := by
    refine List.filterMap_eq_nil_iff.mpr fun f hf => ?_
    obtain ⟨p, hp⟩ := hpiece f hf
    rw [Lexeme.Placed.complaint?, ← hp, Piece.complaint?_lexeme]
  rw [← String.toList_ofList (l := text)] at hfound
  let last := Cursor.endToken (.ofByte file (String.ofList text).utf8ByteSize)
  refine ⟨found.map (·.token file), last, ?_, rfl, ?_⟩
  · rw [hfound.tokenize_eq, hrecognised, hreports]
  · have hpairs : List.Forall₂ (· = ·) (found.map (·.lexeme)) (ps.map Piece.lexeme) := by
      rw [hpieces, List.forall₂_eq_eq_eq]
    rw [List.forall₂_map_left_iff, List.forall₂_map_right_iff] at hpairs
    refine List.forall₂_map_left_iff.mpr (hpairs.imp fun f p hp => ⟨?_, ?_⟩)
    · exact congrArg Lexeme.kind hp
    · exact congrArg Lexeme.value hp

end Scriptlet.Arithmetic
