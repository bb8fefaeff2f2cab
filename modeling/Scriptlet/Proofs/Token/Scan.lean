import Scriptlet.Proofs.Token.Lookahead

/-!
A source as the sequence of its lexemes. Every text is layout and lexemes by turns, and what the
scanner gives can be read off that sequence: a token for each lexeme, and a diagnostic for those
that have something to report. A sequence can be cut, shifted and put together where a run of the
scanner cannot, so what happens to a source that is changed is said about its sequence.
-/
namespace Scriptlet

namespace Text

/-- What stands in the first `n` bytes of a text. A character that is only partly among them is
taken too. -/
def takeBytes : Nat → List Char → List Char
  | 0, _ => []
  | _ + 1, [] => []
  | n + 1, c :: cs => c :: takeBytes (n + 1 - c.utf8Size) cs

/-- The part of a text from one byte up to another. -/
def slice (start stop : Nat) (cs : List Char) : List Char :=
  takeBytes (stop - start) (dropBytes start cs)

theorem takeBytes_size (as bs : List Char) : takeBytes (size as) (as ++ bs) = as := by
  induction as with
  | nil => simp [takeBytes]
  | cons a as ih =>
    have := a.utf8Size_pos
    obtain ⟨n, hn⟩ : ∃ n, a.utf8Size + size as = n + 1 := ⟨a.utf8Size + size as - 1, by omega⟩
    rw [size_cons, hn, List.cons_append, takeBytes, show n + 1 - a.utf8Size = size as by omega, ih]

theorem slice_append (before text behind : List Char) :
    slice (size before) (size before + size text) (before ++ (text ++ behind)) = text := by
  rw [slice, dropBytes_size, Nat.add_sub_cancel_left, takeBytes_size]

end Text

/-- Whether a character is reported that begins no lexeme. -/
def Fault.isUnrecognised : Fault → Bool
  | unrecognised _ => true
  | _ => false

/-- Whether a string is reported that lacks its final quote. -/
def Fault.isUnterminated : Fault → Bool
  | unterminated _ => true
  | _ => false

/-- A token and the stretch of source that it was cut from, by the scanner's own count of bytes. The
places of the token have 32 bits of that count. -/
structure Scanner.Step where
  token : Token
  start : Nat
  stop : Nat

namespace Scanner

/-- The part of the source that the token was cut from. -/
def Step.slice (source : String) (t : Step) : List Char :=
  Text.slice t.start t.stop source.toList

/-- The next token and what it is cut from. -/
def step (s : Scanner) : Step := ⟨s.next.1, (skipLayout false s.offset s.rest).1, s.next.2.offset⟩

/-- What is cut off in at most `limit` steps, up to the end of the source. -/
def steps : Nat → Scanner → List Step
  | 0, _ => []
  | limit + 1, s => if s.next.1.kind = .eof then [] else s.step :: steps limit s.next.2

end Scanner

/-- All that is cut off a source, in as many steps as its tokens need. -/
def stepsOf (source file : String) : List Scanner.Step :=
  let scanner := Scanner.ofSource source file
  scanner.steps (scanner.rest.length + 1)

/-- Layout does not begin with a point, so what is behind it is not looked at. -/
theorem Layout.endsLike {gap : List Char} (h : Layout gap) (hne : gap ≠ [])
    (rest rest' : List Char) : Lexeme.EndsLike (gap ++ rest) (gap ++ rest') := by
  cases h with
  | nil => exact absurd rfl hne
  | blank hc =>
    refine .same rfl fun hpoints => ?_
    obtain ⟨rfl, -⟩ := List.cons_prefix_cons.mp hpoints
    cases hc
  | comment =>
    refine .same rfl fun hpoints => ?_
    cases (List.cons_prefix_cons.mp hpoints).1

namespace Lexeme

/-- In front of this rest of a text the lexeme is cut off. -/
def CutBefore (lexeme : Lexeme) (rest : List Char) : Prop :=
  ∃ c text, lexeme.text = c :: text ∧ Scanner.AtLexeme (c :: (text ++ rest)) ∧
    cut c (text ++ rest) = lexeme

/-- Where no layout stands, a lexeme is cut off. -/
theorem exists_cutBefore {text : List Char} (h : Scanner.AtLexeme text) :
    ∃ lexeme rest, text = lexeme.text ++ rest ∧ CutBefore lexeme rest := by
  cases text with
  | nil => exact absurd h id
  | cons c cs =>
    obtain ⟨rest, hrest⟩ := cut_isPrefix c cs
    obtain ⟨d, text, htext⟩ := List.exists_cons_of_ne_nil (cut_text_ne_nil c cs)
    obtain ⟨rfl, rfl⟩ : d = c ∧ text ++ rest = cs := by
      rw [htext] at hrest
      exact List.cons.inj hrest
    exact ⟨_, rest, hrest.symm, d, text, htext, h, rfl⟩

namespace CutBefore

variable {lexeme : Lexeme} {rest rest' : List Char}

theorem text_ne_nil (h : lexeme.CutBefore rest) : lexeme.text ≠ [] := by
  obtain ⟨c, text, htext, -⟩ := h
  rw [htext]
  exact List.cons_ne_nil _ _

theorem size_pos (h : lexeme.CutBefore rest) : 0 < Text.size lexeme.text := by
  obtain ⟨c, text, htext, -⟩ := h
  have hc := c.utf8Size_pos
  rw [htext, Text.size_cons]
  omega

theorem kind_ne_eof (h : lexeme.CutBefore rest) : lexeme.kind ≠ .eof := by
  obtain ⟨c, text, -, -, rfl⟩ := h
  exact cut_kind_ne_eof c _

/-- Only a string is left open, and then nothing is behind it. -/
theorem of_open (h : lexeme.CutBefore rest) (hopen : lexeme.closed = false) :
    lexeme.kind = .string ∧ rest = [] := by
  obtain ⟨c, text, htext, -, rfl⟩ := h
  obtain ⟨hkind, hall⟩ := cut_of_open hopen
  rw [htext] at hall
  exact ⟨hkind, List.append_right_eq_self.mp (List.cons.inj hall).2.symm⟩

/-- What begins no lexeme is cut off alone. -/
theorem of_error (h : lexeme.CutBefore rest) (hkind : lexeme.kind = .error) :
    ∃ c, lexeme.text = [c] ∧ lexeme.value = String.singleton c := by
  obtain ⟨c, text, -, -, rfl⟩ := h
  have hdue := due_cut c (text ++ rest)
  have hstring : (cut c (text ++ rest)).kind ≠ .string := by
    rw [hkind]
    exact Kind.noConfusion
  rw [hkind] at hdue
  rw [cut_value hstring]
  generalize (cut c (text ++ rest)).text = whole at hdue
  cases hdue with
  | longest hlongest => exact absurd rfl hlongest.lexeme.ne_error
  | @unrecognised d => exact ⟨d, rfl, String.singleton_eq_ofList.symm⟩

/-- Two points at the beginning of a lexeme belong to it. -/
theorem points_isPrefix (h : lexeme.CutBefore rest) (hpoints : ['.', '.'] <+: lexeme.text ++ rest) :
    ['.', '.'] <+: lexeme.text := by
  obtain ⟨c, text, htext, -, rfl⟩ := h
  obtain ⟨more, hmore⟩ := hpoints
  simp only [htext, List.cons_append, List.nil_append] at hmore
  obtain ⟨rfl, hsecond⟩ := List.cons.inj hmore
  rw [← hsecond]
  exact ⟨[], rfl⟩

/-- What is behind the lexeme does not matter to one that ends in front of it. -/
theorem endsLike {gap : List Char} (h : lexeme.CutBefore rest) (hgap : Layout gap)
    (rest' : List Char) :
    EndsLike (gap ++ (lexeme.text ++ rest)) (gap ++ (lexeme.text ++ rest')) := by
  by_cases hnil : gap = []
  · subst hnil
    refine .same ?_ fun hpoints => (h.points_isPrefix hpoints).trans (List.prefix_append _ _)
    obtain ⟨c, cs, htext⟩ := List.exists_cons_of_ne_nil h.text_ne_nil
    rw [htext]
    rfl
  · exact hgap.endsLike hnil _ _

/-- A lexeme that is closed is cut off in front of every text that ends it. -/
theorem congr (h : lexeme.CutBefore rest) (hrest : EndsLike rest rest')
    (hclosed : lexeme.closed = true) : lexeme.CutBefore rest' := by
  obtain ⟨c, text, htext, ⟨hblank, hcomment⟩, rfl⟩ := h
  refine ⟨c, text, htext, ⟨hblank, ?_⟩, cut_congr hrest htext hclosed⟩
  rintro ⟨rfl, hslash⟩
  -- The second slash of a comment would have been there before.
  cases text with
  | nil => exact hcomment ⟨rfl, hrest.head?_eq_some (by decide) hslash⟩
  | cons d ds => exact hcomment ⟨rfl, hslash⟩

end CutBefore

/-- A lexeme at an offset of its source. -/
structure Placed where
  offset : Nat
  lexeme : Lexeme

namespace Placed

def stop (p : Placed) : Nat := p.offset + Text.size p.lexeme.text

def token (file : String) (p : Placed) : Token :=
  ⟨p.lexeme.kind, p.lexeme.value, ⟨.ofByte file p.offset, .ofByte file p.stop⟩⟩

def step (file : String) (p : Placed) : Scanner.Step := ⟨p.token file, p.offset, p.stop⟩

def complaint? (file : String) (p : Placed) : Option Diagnostic :=
  Scanner.complaint? p.lexeme (.ofByte file p.offset)

/-- Whether it is more than a character that begins no lexeme. -/
def recognised (p : Placed) : Bool := p.lexeme.kind ≠ .error

variable {p : Placed} {file : String} {d : Diagnostic}

/-- A lexeme is reported where it begins, and as unrecognised if it is that. -/
theorem of_complaint? (h : p.complaint? file = some d) :
    d.position = .ofByte file p.offset ∧ d.fault.isUnrecognised = !p.recognised := by
  rw [complaint?, Scanner.complaint?] at h
  rw [recognised]
  split at h
  · rename_i hkind
    cases h
    exact ⟨rfl, by rw [hkind]; rfl⟩
  · rename_i hkind
    split at h
    · cases h
    · cases h
      exact ⟨rfl, by rw [hkind]; rfl⟩
  · cases h

theorem complaint?_unrecognised (h : p.recognised = false) (file : String) :
    p.complaint? file = some ⟨.unrecognised p.lexeme.value, .ofByte file p.offset⟩ := by
  have hkind : p.lexeme.kind = .error := by simpa [recognised] using h
  rw [complaint?, Scanner.complaint?, hkind]

theorem complaint?_open (hkind : p.lexeme.kind = .string) (hopen : p.lexeme.closed = false)
    (file : String) :
    p.complaint? file = some ⟨.unterminated p.lexeme.value, .ofByte file p.offset⟩ := by
  rw [complaint?, Scanner.complaint?, hkind, hopen]
  rfl

theorem complaint?_closed (h : p.recognised = true) (hclosed : p.lexeme.closed = true)
    (file : String) : p.complaint? file = none := by
  have hkind : p.lexeme.kind ≠ .error := by simpa [recognised] using h
  rw [complaint?, Scanner.complaint?]
  split
  · rename_i herror
    exact absurd herror hkind
  · rw [if_pos hclosed]
  · rfl

end Placed

end Lexeme

/-- What is found in a text that begins at this offset, with layout before, between and behind. -/
inductive Scan : Nat → List Char → List Lexeme.Placed → Prop
  | done {offset gap} : Layout.Final gap → Scan offset gap []
  | step {offset gap rest lexeme found} : Layout gap → lexeme.CutBefore rest →
      Scan (offset + Text.size gap + Text.size lexeme.text) rest found →
      Scan offset (gap ++ (lexeme.text ++ rest)) (⟨offset + Text.size gap, lexeme⟩ :: found)

/-- Every text can be scanned. -/
theorem exists_scan (offset : Nat) (text : List Char) : ∃ found, Scan offset text found := by
  -- On the length of the text, since every lexeme takes a character of it.
  induction hlength : text.length using Nat.strongRecOn generalizing offset text with
  | ind n ih =>
    obtain ⟨gap, rest, hskips, -⟩ := Scanner.exists_skipLayout_eq offset text
    obtain rfl := hskips.text_eq
    rcases hskips.layout with ⟨hlexeme, hgap⟩ | ⟨rfl, hgap⟩
    · obtain ⟨lexeme, behind, rfl, hcut⟩ := Lexeme.exists_cutBefore hlexeme
      have htext := List.length_pos_iff.mpr hcut.text_ne_nil
      have hshort : behind.length < n := by
        rw [← hlength, List.length_append, List.length_append]
        omega
      obtain ⟨found, hfound⟩ :=
        ih behind.length hshort (offset + Text.size gap + Text.size lexeme.text) behind rfl
      exact ⟨_, .step hgap hcut hfound⟩
    · rw [List.append_nil]
      exact ⟨[], .done hgap⟩

namespace Scan

open Lexeme (Placed)

variable {offset start : Nat} {gap text rest : List Char} {lexeme : Lexeme} {found : List Placed}

/-- A step at a place that is known. -/
theorem step_at (hgap : Layout gap) (hcut : lexeme.CutBefore rest)
    (hstart : start = offset + Text.size gap)
    (h : Scan (start + Text.size lexeme.text) rest found) :
    Scan offset (gap ++ (lexeme.text ++ rest)) (⟨start, lexeme⟩ :: found) := by
  subst hstart
  exact .step hgap hcut h

/-- Layout may be put in front. -/
theorem behind_layout (hgap : Layout gap) (h : Scan (offset + Text.size gap) text found) :
    Scan offset (gap ++ text) found := by
  cases h with
  | done hfinal => exact .done (hfinal.behind hgap)
  | @step _ gap' rest lexeme found hgap' hcut hfound =>
    have hstart : offset + Text.size gap + Text.size gap' =
        offset + Text.size (gap ++ gap') := by
      rw [Text.size_append, Nat.add_assoc]
    have hstep := step_at (hgap.append hgap') hcut hstart hfound
    rwa [List.append_assoc] at hstep

/-- Nothing is found where there is no text. -/
theorem eq_nil (h : Scan offset [] found) : found = [] := by
  generalize htext : [] = text at h
  cases h with
  | done => rfl
  | step _ hcut _ =>
    obtain ⟨-, htext⟩ := List.append_eq_nil_iff.mp htext.symm
    exact absurd (List.append_eq_nil_iff.mp htext).1 hcut.text_ne_nil

/-- Nothing is found before the text begins. -/
theorem le_offset (h : Scan offset text found) : ∀ p ∈ found, offset ≤ p.offset := by
  induction h with
  | done => exact fun _ hp => nomatch hp
  | step _ _ _ ih =>
    intro p hp
    rcases List.mem_cons.mp hp with rfl | hp
    · exact Nat.le_add_right _ _
    · have hle := ih p hp
      omega

/-- Each lexeme ends before the next one begins. -/
theorem pairwise (h : Scan offset text found) : found.Pairwise fun p q => p.stop ≤ q.offset := by
  induction h with
  | done => exact .nil
  | step _ _ hfound ih => exact .cons (fun q hq => hfound.le_offset q hq) ih

/-- Where a lexeme lies, the text has the lexeme's own, and it is cut off there. -/
theorem exists_split (h : Scan offset text found) : ∀ p ∈ found, ∃ before rest,
    text = before ++ (p.lexeme.text ++ rest) ∧ p.offset = offset + Text.size before ∧
      p.lexeme.CutBefore rest := by
  induction h with
  | done => exact fun _ hp => nomatch hp
  | @step offset gap rest lexeme found _ hcut _ ih =>
    intro p hp
    rcases List.mem_cons.mp hp with rfl | hp
    · exact ⟨gap, rest, rfl, rfl, hcut⟩
    · obtain ⟨before, behind, rfl, hoffset, hcut'⟩ := ih p hp
      refine ⟨gap ++ lexeme.text ++ before, behind, ?_, ?_, hcut'⟩
      · simp only [List.append_assoc]
      · rw [hoffset, Text.size_append, Text.size_append]
        omega

theorem exists_cutBefore (h : Scan offset text found) :
    ∀ p ∈ found, ∃ rest, p.lexeme.CutBefore rest := by
  intro p hp
  obtain ⟨-, rest, -, -, hcut⟩ := h.exists_split p hp
  exact ⟨rest, hcut⟩

/-- No lexeme goes beyond the text, and one that is left open goes to its end. -/
theorem stop_le (h : Scan offset text found) : ∀ p ∈ found, p.stop ≤ offset + Text.size text ∧
    (p.lexeme.closed = false → p.stop = offset + Text.size text) := by
  intro p hp
  obtain ⟨before, rest, rfl, hoffset, hcut⟩ := h.exists_split p hp
  rw [Placed.stop, hoffset, Text.size_append, Text.size_append]
  refine ⟨by omega, fun hopen => ?_⟩
  obtain ⟨-, rfl⟩ := hcut.of_open hopen
  rw [Text.size_nil, Nat.add_zero, Nat.add_assoc]

theorem stop_le_size {source : String} (h : Scan 0 source.toList found) :
    ∀ p ∈ found, p.stop ≤ source.utf8ByteSize := by
  intro p hp
  have hle := (h.stop_le p hp).1
  rwa [Nat.zero_add, Text.size_toList] at hle

/-- The token of a lexeme is cut from the lexeme's text. -/
theorem slice_step {source : String} (h : Scan 0 source.toList found) (file : String) :
    ∀ p ∈ found, (p.step file).slice source = p.lexeme.text := by
  intro p hp
  obtain ⟨before, rest, htext, hoffset, -⟩ := h.exists_split p hp
  rw [Nat.zero_add] at hoffset
  rw [Scanner.Step.slice, htext]
  change Text.slice p.offset p.stop _ = _
  rw [Placed.stop, hoffset, Text.slice_append]

/-- A lexeme with another one behind it is closed. -/
theorem pairwise_closed (h : Scan offset text found) :
    found.Pairwise fun p _ => p.lexeme.closed = true := by
  induction h with
  | done => exact .nil
  | step _ hcut hfound ih =>
    refine .cons (fun q hq => ?_) ih
    rw [← Bool.not_eq_false]
    intro hopen
    obtain ⟨-, rfl⟩ := hcut.of_open hopen
    rw [hfound.eq_nil] at hq
    cases hq

end Scan

namespace Scanner

open Lexeme (Placed)

variable {source file : String} {before gap rest : List Char} {lexeme : Lexeme} {s : Scanner}

/-- The scanner goes behind a lexeme and gives its token. -/
theorem next_cutBefore (h : s.Behind source file before) (hgap : Layout gap)
    (hcut : lexeme.CutBefore rest) (hrest : s.rest = gap ++ (lexeme.text ++ rest)) :
    let p : Placed := ⟨s.offset + Text.size gap, lexeme⟩
    s.step = p.step file ∧ s.next.2.rest = rest ∧
      s.next.2.Behind source file (before ++ gap ++ lexeme.text) ∧
      s.next.2.diagnostics = s.diagnostics ++ (p.complaint? file).toList := by
  obtain ⟨c, text, htext, hlexeme, rfl⟩ := hcut
  rw [htext, List.cons_append] at hrest
  have hskip : skipLayout false s.offset s.rest =
      (Text.size (before ++ gap), c :: (text ++ rest)) := by
    rw [hrest, skipLayout_layout hgap, skipLayout_lexeme hlexeme, h.offset_eq, Text.size_append]
  obtain ⟨-, hsplit, -, hbehind⟩ := next_stands h hrest hskip
  have hplace : s.offset + Text.size gap = Text.size (before ++ gap) := by
    rw [h.offset_eq, Text.size_append]
  refine ⟨?_, ?_, hbehind, ?_⟩
  · rw [step, next, hskip, hplace]
    simp only [position, h.file_eq]
    rfl
  · rw [hrest, htext, List.append_assoc, ← List.cons_append] at hsplit
    exact (List.append_cancel_left (List.append_cancel_left hsplit)).symm
  · rw [next, hskip, hplace]
    simp only [position, h.file_eq]
    rfl

/-- In front of nothing but layout the scanner goes to the end. -/
theorem next_final (h : s.Behind source file before) (hgap : Layout.Final s.rest) :
    s.next.1 = Cursor.endToken (.ofByte file source.utf8ByteSize) ∧
      s.next.2.Behind source file source.toList ∧ s.next.2.diagnostics = s.diagnostics := by
  have hskip : skipLayout false s.offset s.rest = (source.utf8ByteSize, []) := by
    rw [skipLayout_final hgap, h.offset_eq, ← Text.size_append, ← h.split, Text.size_toList]
  obtain ⟨hnext, hbehind⟩ := next_endToken h hskip
  refine ⟨hnext, hbehind, ?_⟩
  rw [next, hskip]

end Scanner

namespace Scan

open Lexeme (Placed)

variable {source file : String} {before text : List Char} {offset : Nat} {found : List Placed}
  {s : Scanner}

/-- With steps enough a scanner gives the tokens of what is found, and the end of the text. -/
theorem run (h : Scan offset text found) (hs : s.Behind source file before)
    (hoffset : s.offset = offset) (hrest : s.rest = text) {limit : Nat}
    (hlimit : text.length < limit) :
    (s.run limit).1 = found.map (·.token file) ++
        [Cursor.endToken (.ofByte file source.utf8ByteSize)] ∧
      (s.run limit).2.diagnostics = s.diagnostics ++ found.filterMap (·.complaint? file) ∧
      s.steps limit = found.map (·.step file) := by
  obtain ⟨limit, rfl⟩ : ∃ n, limit = n + 1 := ⟨limit - 1, by omega⟩
  -- On what is found. Each step leaves the scanner where the rest of what is found begins, and the
  -- text in front of it only matters for the places.
  induction h generalizing s before limit with
  | @done offset gap hgap =>
    subst hrest
    obtain ⟨hnext, -, hdiagnostics⟩ := Scanner.next_final hs hgap
    have hkind : s.next.1.kind = .eof := by rw [hnext]; rfl
    rw [Scanner.run_succ_of_eof hkind, Scanner.steps, if_pos hkind]
    exact ⟨by rw [hnext]; rfl, by rw [hdiagnostics]; simp, rfl⟩
  | @step offset gap rest lexeme found hgap hcut hfound ih =>
    subst hoffset
    obtain ⟨hstep, hbehind, hs', hdiagnostics⟩ := Scanner.next_cutBefore hs hgap hcut hrest
    let p : Placed := ⟨s.offset + Text.size gap, lexeme⟩
    have hnext : s.next.1 = p.token file := congrArg Scanner.Step.token hstep
    have hoffset : s.next.2.offset = p.stop := congrArg Scanner.Step.stop hstep
    have hkind : s.next.1.kind ≠ .eof := by
      rw [hnext]
      exact hcut.kind_ne_eof
    have hshort := s.length_rest_next_lt hkind
    rw [hbehind, hrest] at hshort
    obtain ⟨limit, rfl⟩ : ∃ n, limit = n + 1 := ⟨limit - 1, by omega⟩
    obtain ⟨htokens, hreports, hsteps⟩ := ih hs' hoffset hbehind limit (by omega)
    rw [Scanner.run_succ hkind, Scanner.steps, if_neg hkind, hstep, hsteps]
    refine ⟨?_, ?_, rfl⟩
    · rw [htokens, hnext]
      rfl
    · rw [hreports, hdiagnostics, List.append_assoc, List.filterMap_cons]
      cases p.complaint? file <;> rfl

/-- Step by step it gives the same tokens, and then the end of the text for ever. -/
theorem token_eq (h : Scan offset text found) (hs : s.Behind source file before)
    (hoffset : s.offset = offset) (hrest : s.rest = text) (n : Nat) :
    s.token n = (found.map (·.token file))[n]?.getD
      (Cursor.endToken (.ofByte file source.utf8ByteSize)) := by
  induction h generalizing s before n with
  | done hgap =>
    subst hrest
    obtain ⟨hnext, hend, -⟩ := Scanner.next_final hs hgap
    cases n with
    | zero => exact hnext
    | succ n => exact Scanner.token_at_end hend n
  | @step offset gap rest lexeme found hgap hcut hfound ih =>
    subst hoffset
    obtain ⟨hstep, hbehind, hs', -⟩ := Scanner.next_cutBefore hs hgap hcut hrest
    cases n with
    | zero => exact congrArg Scanner.Step.token hstep
    | succ n => exact ih hs' (congrArg Scanner.Step.stop hstep) hbehind n

/-- The tokens of a source and what is reported about it, read off what is found in it. -/
theorem tokenize_eq (h : Scan 0 source.toList found) (file : String) :
    tokenize source file =
      ((found.filter (·.recognised)).map (·.token file) ++
          [Cursor.endToken (.ofByte file source.utf8ByteSize)],
        found.filterMap (·.complaint? file)) := by
  let scanner := Scanner.ofSource source file
  obtain ⟨htokens, hreports, -⟩ := h.run (Scanner.behind_ofSource source file) rfl rfl
    (Nat.lt_succ_self scanner.rest.length)
  apply Prod.ext
  · change (scanner.run (scanner.rest.length + 1)).1.filter _ = _
    rw [htokens, List.filter_append, List.filter_map]
    rfl
  · exact hreports

theorem stepsOf_eq (h : Scan 0 source.toList found) (file : String) :
    stepsOf source file = found.map (·.step file) :=
  (h.run (Scanner.behind_ofSource source file) rfl rfl (Nat.lt_succ_self _)).2.2

/-- What is cut off a source without the characters that begin no lexeme. -/
theorem filter_stepsOf_eq (h : Scan 0 source.toList found) (file : String) :
    (stepsOf source file).filter (·.token.kind ≠ .error) =
      (found.filter (·.recognised)).map (·.step file) := by
  rw [h.stepsOf_eq, List.filter_map]
  rfl

/-- The characters of a source that begin no lexeme. -/
theorem filter_error_stepsOf_eq (h : Scan 0 source.toList found) (file : String) :
    (stepsOf source file).filter (·.token.kind = .error) =
      (found.filter (!·.recognised)).map (·.step file) := by
  rw [h.stepsOf_eq, List.filter_map]
  refine congrArg _ (List.filter_congr fun p _ => ?_)
  simp [Placed.recognised, Placed.step, Placed.token]

theorem kind_ne_eof (h : Scan offset text found) :
    ∀ t ∈ (found.filter (·.recognised)).map (·.token file), t.kind ≠ .eof := by
  intro t ht
  obtain ⟨p, hp, rfl⟩ := List.mem_map.mp ht
  obtain ⟨rest, hcut⟩ := h.exists_cutBefore p (List.mem_filter.mp hp).1
  exact hcut.kind_ne_eof

/-- The tokens without the end of the text. -/
theorem filter_tokenize_eq (h : Scan 0 source.toList found) (file : String) :
    (tokenize source file).1.filter (·.kind ≠ .eof) =
      (found.filter (·.recognised)).map (·.token file) := by
  rw [h.tokenize_eq, List.filter_append, List.filter_eq_self.mpr (by simpa using h.kind_ne_eof)]
  exact List.append_nil _

/-- If no string is reported to be open, every lexeme is closed. -/
theorem closed_of_no_unterminated (h : Scan 0 source.toList found)
    (hnone : ∀ d ∈ (tokenize source file).2, d.fault.isUnterminated = false) :
    ∀ p ∈ found, p.lexeme.closed = true := by
  intro p hp
  rw [← Bool.not_eq_false]
  intro hopen
  obtain ⟨rest, hcut⟩ := h.exists_cutBefore p hp
  rw [h.tokenize_eq] at hnone
  have hreport := Placed.complaint?_open (hcut.of_open hopen).1 hopen file
  cases hnone _ (List.mem_filterMap.mpr ⟨p, hp, hreport⟩)

end Scan

end Scriptlet
