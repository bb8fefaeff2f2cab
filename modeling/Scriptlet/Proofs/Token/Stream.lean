import Scriptlet.Proofs.Token.Scan

namespace Scriptlet

open Lexeme (Placed)

/-- At this place of the source stands a character that begins neither layout nor a lexeme. -/
def Unrecognised (source file : String) (p : Position) : Prop :=
  ∃ before c rest, source.toList = before ++ c :: rest ∧ Scanner.AtLexeme (c :: rest) ∧
    (∀ k text, Kind.IsLexeme k text → ¬text <+: c :: rest) ∧ p = .ofByte file (Text.size before)

/-- The position is in the file and not behind the end of the source. -/
structure Position.Inside (source file : String) (p : Position) : Prop where
  file_eq : p.file = file
  offset_le : p.offset ≤ source.utf8ByteSize

theorem Position.inside_ofByte {source : String} {offset : Nat} (file : String)
    (h : offset ≤ source.utf8ByteSize) : (ofByte file offset).Inside source file :=
  ⟨rfl, Nat.le_trans (Nat.mod_le _ _) h⟩

/-- The tokens lie in the source one behind the other, and the end of the text is a place only. In a
source that 32 bits cannot count the places begin anew, so there they are in no order. -/
structure Stream (source file : String) (ts : List Token) : Prop where
  files : ∀ t ∈ ts, t.span.start.file = file ∧ t.span.stop.file = file
  forward : ∀ t ∈ ts, t.span.start.offset ≤ t.span.stop.offset
  within : ∀ t ∈ ts, t.span.stop.offset ≤ source.utf8ByteSize
  ordered : ts.Pairwise fun t u => t.span.stop.offset ≤ u.span.start.offset
  ends : ∀ t ∈ ts, t.kind = .eof → t.span.start = t.span.stop

theorem Stream.sublist {source file : String} {ts us : List Token} (h : Stream source file ts)
    (hus : us.Sublist ts) : Stream source file us where
  files t ht := h.files t (hus.subset ht)
  forward t ht := h.forward t (hus.subset ht)
  within t ht := h.within t (hus.subset ht)
  ordered := h.ordered.sublist hus
  ends t ht := h.ends t (hus.subset ht)

theorem Unrecognised.inside {source file : String} {p : Position} (h : Unrecognised source file p) :
    p.Inside source file := by
  obtain ⟨before, c, rest, hsplit, -, -, rfl⟩ := h
  refine Position.inside_ofByte file ?_
  rw [← Text.size_toList, hsplit, Text.size_append]
  exact Nat.le_add_right _ _

/-- An error is cut off only where nothing else can be. -/
theorem Lexeme.no_lexeme_of_cut_error {c : Char} {cs : List Char} (h : (cut c cs).kind = .error) :
    ∀ k text, Kind.IsLexeme k text → ¬text <+: c :: cs := by
  have hdue := due_cut c cs
  rw [h] at hdue
  generalize (cut c cs).text = text at hdue
  cases hdue with
  | longest hlongest => exact absurd rfl hlongest.lexeme.ne_error
  | unrecognised hnone => exact hnone

/-- Letters, digits and underscores, at least one. -/
structure Lexeme.IsWord (text : String) : Prop where
  ne_nil : text.toList ≠ []
  isWordRest : ∀ c ∈ text.toList, Lexeme.isWordRest c = true

theorem Lexeme.isWord_of_isLexeme {text : List Char} (h : Kind.IsLexeme .identifier text) :
    Lexeme.IsWord (String.ofList text) := by
  have hnone : Kind.identifier.spelling? = none := rfl
  cases h with
  | operator hmem => exact absurd rfl (ne_of_spelling? (spelling?_of_mem_operators _ hmem) hnone)
  | keyword hmem => exact absurd rfl (ne_of_spelling? (spelling?_of_mem_keywords _ hmem) hnone)
  | @name c cs hstart hrest =>
    refine ⟨by simp, ?_⟩
    rw [String.toList_ofList, List.forall_mem_cons]
    exact ⟨Lexeme.isWordRest_of_isWordStart hstart, hrest⟩

namespace Scan

variable {source : String} {found : List Placed}

/-- The tokens of what is found are in order, and so they are with the end of the text. -/
theorem stream (h : Scan 0 source.toList found) (hsize : source.utf8ByteSize < 0x100000000)
    (file : String) :
    Stream source file
      (found.map (·.token file) ++ [Cursor.endToken (.ofByte file source.utf8ByteSize)]) := by
  have hwithin := h.stop_le_size
  have hstart (p : Placed) : p.offset ≤ p.stop := Nat.le_add_right _ _
  -- Nothing ends behind the source, so 32 bits count every offset in it.
  have hspan : ∀ p ∈ found, (p.token file).span = ⟨⟨p.offset, file⟩, ⟨p.stop, file⟩⟩ := by
    intro p hp
    have hstop := hwithin p hp
    have hle := hstart p
    rw [Placed.token, Position.ofByte_of_lt file (by omega), Position.ofByte_of_lt file (by omega)]
  rw [Position.ofByte_of_lt file hsize]
  constructor <;> simp only [List.forall_mem_append, List.pairwise_append, List.forall_mem_map,
    List.forall_mem_singleton]
  case files => exact ⟨fun p _ => ⟨rfl, rfl⟩, rfl, rfl⟩
  case forward =>
    refine ⟨fun p hp => ?_, Nat.le_refl _⟩
    rw [hspan p hp]
    exact hstart p
  case within =>
    refine ⟨fun p hp => ?_, Nat.le_refl _⟩
    rw [hspan p hp]
    exact hwithin p hp
  case ordered =>
    refine ⟨List.pairwise_map.mpr (h.pairwise.imp_of_mem fun hp hq hle => ?_),
      List.pairwise_singleton _ _, fun p hp => ?_⟩
    · rw [hspan _ hp, hspan _ hq]
      exact hle
    · rw [hspan p hp]
      exact hwithin p hp
  case ends =>
    refine ⟨fun p hp hkind => ?_, fun _ => rfl⟩
    obtain ⟨rest, hcut⟩ := h.exists_cutBefore p hp
    exact absurd hkind hcut.kind_ne_eof

/-- What is no lexeme stands in the source where nothing else could be cut off. -/
theorem unrecognised (h : Scan 0 source.toList found) (file : String) :
    ∀ p ∈ found, p.recognised = false → Unrecognised source file (.ofByte file p.offset) := by
  intro p hp hrecognised
  have hkind : p.lexeme.kind = .error := by simpa [Placed.recognised] using hrecognised
  obtain ⟨before, rest, htext, hoffset, c, text, hown, hlexeme, hcut⟩ := h.exists_split p hp
  rw [hown, List.cons_append] at htext
  refine ⟨before, c, text ++ rest, htext, hlexeme, ?_, ?_⟩
  · exact Lexeme.no_lexeme_of_cut_error (by rw [hcut, hkind])
  · rw [hoffset, Nat.zero_add]

/-- What is found is a lexeme of its kind, unless nothing could be cut off. The value of a string is
what it stands for, and only that. -/
theorem isLexeme (h : Scan 0 source.toList found) : ∀ p ∈ found, p.lexeme.kind ≠ .string →
    p.lexeme.kind ≠ .error → p.lexeme.kind.IsLexeme p.lexeme.value.toList := by
  intro p hp hstring herror
  obtain ⟨rest, c, text, -, -, hcut⟩ := h.exists_cutBefore p hp
  have hdue := Lexeme.due_cut c (text ++ rest)
  have hvalue := Lexeme.cut_value (hcut ▸ hstring)
  rw [hcut] at hdue hvalue
  rw [hvalue, String.toList_ofList]
  generalize p.lexeme.kind = k, p.lexeme.text = own at hdue herror
  cases hdue with
  | longest hlongest => exact hlongest.lexeme
  | range hrange => exact .int hrange.ne_nil hrange.isDigit
  | unrecognised => exact absurd rfl herror

end Scan

/-- The tokens of a source are lexemes, but for its end and its strings. -/
theorem isLexeme_tokenize {source file : String} {t : Token} (ht : t ∈ (tokenize source file).1)
    (hstring : t.kind ≠ .string) (heof : t.kind ≠ .eof) : t.kind.IsLexeme t.value.toList := by
  obtain ⟨found, hfound⟩ := exists_scan 0 source.toList
  rw [hfound.tokenize_eq, List.mem_append, List.mem_singleton] at ht
  rcases ht with ht | rfl
  · obtain ⟨p, hp, rfl⟩ := List.mem_map.mp ht
    obtain ⟨hp, hrecognised⟩ := List.mem_filter.mp hp
    exact hfound.isLexeme p hp hstring (by simpa [Placed.recognised] using hrecognised)
  · exact absurd rfl heof

/-- The names among the tokens of a source are words. -/
theorem isWord_tokenize {source file : String} {t : Token} (ht : t ∈ (tokenize source file).1)
    (hkind : t.kind = .identifier) : Lexeme.IsWord t.value := by
  have hlexeme := isLexeme_tokenize ht (by rw [hkind]; decide) (by rw [hkind]; decide)
  rw [hkind] at hlexeme
  have hword := Lexeme.isWord_of_isLexeme hlexeme
  rwa [String.ofList_toList] at hword

/-- The tokens of a source that 32 bits can count are in order. -/
theorem stream_tokenize {source : String} (hsize : source.utf8ByteSize < 0x100000000)
    (file : String) : Stream source file (tokenize source file).1 := by
  obtain ⟨found, hfound⟩ := exists_scan 0 source.toList
  rw [hfound.tokenize_eq]
  exact (hfound.stream hsize file).sublist ((List.filter_sublist.map _).append_right _)

/-- The tokens of every source are inside of it. -/
theorem inside_tokenize (source file : String) : ∀ t ∈ (tokenize source file).1,
    t.span.start.Inside source file ∧ t.span.stop.Inside source file := by
  obtain ⟨found, hfound⟩ := exists_scan 0 source.toList
  intro t ht
  rw [hfound.tokenize_eq, List.mem_append, List.mem_singleton] at ht
  rcases ht with ht | rfl
  · obtain ⟨p, hp, rfl⟩ := List.mem_map.mp ht
    have hstop := hfound.stop_le_size p (List.mem_filter.mp hp).1
    have hstart : p.offset ≤ p.stop := Nat.le_add_right _ _
    exact ⟨Position.inside_ofByte file (by omega), Position.inside_ofByte file hstop⟩
  · have hend := Position.inside_ofByte file (Nat.le_refl source.utf8ByteSize)
    exact ⟨hend, hend⟩

/-- What is reported about a source is about one of its tokens or about a character that begins no
lexeme. -/
theorem start_or_unrecognised {source file : String} {d : Diagnostic}
    (hd : d ∈ (tokenize source file).2) :
    (∃ t ∈ (tokenize source file).1, d.position = t.span.start) ∨
      Unrecognised source file d.position := by
  obtain ⟨found, hfound⟩ := exists_scan 0 source.toList
  rw [hfound.tokenize_eq] at hd ⊢
  obtain ⟨p, hp, hreport⟩ := List.mem_filterMap.mp hd
  rw [(Placed.of_complaint? hreport).1]
  cases hrecognised : p.recognised with
  | true =>
    have hkept := List.mem_filter.mpr ⟨hp, hrecognised⟩
    exact .inl ⟨_, List.mem_append_left _ (List.mem_map_of_mem hkept), rfl⟩
  | false => exact .inr (hfound.unrecognised file p hp hrecognised)

theorem inside_of_mem_diagnostics {source file : String} {d : Diagnostic}
    (hd : d ∈ (tokenize source file).2) : d.position.Inside source file := by
  rcases start_or_unrecognised hd with ⟨t, ht, hposition⟩ | hnone
  · rw [hposition]
    exact (inside_tokenize source file t ht).1
  · exact hnone.inside

end Scriptlet
