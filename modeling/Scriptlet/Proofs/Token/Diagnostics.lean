import Mathlib.Data.List.DropRight
import Scriptlet.Proofs.Token.Scan

namespace Scriptlet

namespace Lexeme

/-- How many backslashes stand at the end of a text. -/
def backslashes (text : List Char) : Nat := (text.rtakeWhile (· = '\\')).length

/-- Every quote is escaped. Backslashes escape each other in pairs, so a quote is escaped if their
number in front of it is odd. -/
def NoQuote (text : List Char) : Prop :=
  ∀ front behind, text = front ++ '"' :: behind → backslashes front % 2 = 1

/-- A string literal that ends at the first quote that is not escaped. -/
def ClosedLiteral (text : List Char) : Prop :=
  ∃ inside, text = '"' :: (inside ++ ['"']) ∧ NoQuote inside ∧ backslashes inside % 2 = 0

/-- A string literal in which every quote behind the opening one is escaped. -/
def OpenLiteral (text : List Char) : Prop :=
  ∃ inside, text = '"' :: inside ∧ NoQuote inside

theorem OpenLiteral.not_closed {text : List Char} (h : OpenLiteral text) : ¬ClosedLiteral text := by
  obtain ⟨inside, rfl, hinside⟩ := h
  rintro ⟨front, htext, -, heven⟩
  have hodd := hinside front [] (List.cons.inj htext).2
  omega

variable {c : Char} {cs text : List Char}

theorem backslashes_le_length (text : List Char) : backslashes text ≤ text.length :=
  (List.rtakeWhile_suffix _ text).length_le

/-- One more backslash in front counts if there are only backslashes behind it. -/
theorem backslashes_cons (c : Char) (cs : List Char) :
    backslashes (c :: cs) =
      backslashes cs + if backslashes cs = cs.length ∧ c = '\\' then 1 else 0 := by
  simp only [backslashes, List.rtakeWhile, List.length_reverse, List.reverse_cons,
    List.takeWhile_append]
  by_cases hall : (cs.reverse.takeWhile (· = '\\')).length = cs.length
  · by_cases hc : c = '\\' <;> simp [hall, hc]
  · simp [hall]

theorem backslashes_plain (hc : c ≠ '\\') (cs : List Char) :
    backslashes (c :: cs) = backslashes cs := by
  rw [backslashes_cons, if_neg fun h => hc h.2, Nat.add_zero]

/-- A backslash and the character that it takes along change nothing for what is behind them. -/
theorem backslashes_escape (c : Char) (cs : List Char) :
    backslashes ('\\' :: c :: cs) % 2 = backslashes cs % 2 := by
  have hle := backslashes_le_length cs
  rw [backslashes_cons, backslashes_cons, List.length_cons]
  -- Either both belong to the backslashes at the end, or neither does.
  by_cases hall : backslashes cs = cs.length ∧ c = '\\'
  · rw [if_pos hall, if_pos ⟨by omega, rfl⟩]
    omega
  · rw [if_neg hall, if_neg (by omega)]
    omega

theorem NoQuote.nil : NoQuote [] := by
  intro front behind h
  cases (List.append_eq_nil_iff.mp h.symm).2

/-- A backslash may stand at the end, where it takes nothing along. -/
theorem NoQuote.plain (hquote : c ≠ '"') (hend : c = '\\' → cs = []) (h : NoQuote cs) :
    NoQuote (c :: cs) := by
  intro front behind hsplit
  cases front with
  | nil => exact absurd (List.cons.inj hsplit).1 hquote
  | cons d front =>
    obtain ⟨rfl, hcs⟩ := List.cons.inj hsplit
    have hc : c ≠ '\\' := by
      intro hc
      rw [hend hc] at hcs
      cases (List.append_eq_nil_iff.mp hcs.symm).2
    rw [backslashes_plain hc]
    exact h front behind hcs

theorem NoQuote.escape (c : Char) (h : NoQuote cs) : NoQuote ('\\' :: c :: cs) := by
  intro front behind hsplit
  match front with
  | [] => cases (List.cons.inj hsplit).1
  | [d] =>
    -- The quote is the character taken along, with one backslash in front of it.
    obtain ⟨rfl, -⟩ := List.cons.inj hsplit
    decide
  | d :: e :: front =>
    obtain ⟨rfl, hcs⟩ := List.cons.inj hsplit
    rw [backslashes_escape]
    exact h front behind (List.cons.inj hcs).2

theorem noQuote_toQuote (cs : List Char) : NoQuote (toQuote cs).1 := by
  induction cs using toQuote_induction with
  | nil | quote => exact .nil
  | lone => exact NoQuote.nil.plain (by decide) fun _ => rfl
  | escape c cs ih => exact ih.escape c
  | plain c cs hquote hc ih =>
    rw [toQuote_plain hquote hc]
    exact ih.plain hquote fun h => absurd h hc

/-- The quote that a literal ends at is not escaped. -/
theorem even_backslashes_toQuote (h : (toQuote cs).2 ≠ []) :
    backslashes (toQuote cs).1 % 2 = 0 := by
  induction cs using toQuote_induction with
  | nil | lone => exact absurd rfl h
  | quote => rfl
  | escape c cs ih => exact (backslashes_escape c _).trans (ih h)
  | plain c cs hquote hc ih =>
    rw [toQuote_plain hquote hc] at h ⊢
    rw [backslashes_plain hc]
    exact ih h

theorem toQuote_snd (h : (toQuote cs).2 ≠ []) : (toQuote cs).2 = ['"'] := by
  induction cs using toQuote_induction with
  | nil | lone => exact absurd rfl h
  | quote => rfl
  | escape c cs ih => exact ih h
  | plain c cs hquote hc ih =>
    rw [toQuote_plain hquote hc] at h ⊢
    exact ih h

theorem closedLiteral_ofString (h : (ofString cs).closed = true) :
    ClosedLiteral (ofString cs).text := by
  have hquote : (toQuote cs).2 ≠ [] := by
    intro hnone
    simp [ofString, hnone] at h
  refine ⟨(toQuote cs).1, ?_, noQuote_toQuote cs, even_backslashes_toQuote hquote⟩
  rw [← toQuote_snd hquote]
  rfl

theorem openLiteral_ofString (h : (ofString cs).closed = false) :
    OpenLiteral (ofString cs).text := by
  have hnone : (toQuote cs).2 = [] := by simpa [ofString] using h
  refine ⟨(toQuote cs).1, ?_, noQuote_toQuote cs⟩
  change '"' :: ((toQuote cs).1 ++ (toQuote cs).2) = _
  rw [hnone, List.append_nil]

/-- A string that is cut off is closed or left open as a literal. -/
theorem CutBefore.literal {lexeme : Lexeme} {rest : List Char} (h : lexeme.CutBefore rest)
    (hkind : lexeme.kind = .string) :
    (lexeme.closed = true → ClosedLiteral lexeme.text) ∧
      (lexeme.closed = false → OpenLiteral lexeme.text) := by
  obtain ⟨c, text, -, -, rfl⟩ := h
  have hquote : c = '"' := by
    by_contra hc
    exact cut_kind_ne_string hc _ hkind
  rw [cut, if_pos hquote]
  exact ⟨closedLiteral_ofString, openLiteral_ofString⟩

end Lexeme

open Lexeme (Placed ClosedLiteral OpenLiteral)

namespace Scan

variable {offset : Nat} {text : List Char} {found : List Placed}

/-- Only the last lexeme may be left open. -/
theorem exists_open (h : Scan offset text found) :
    ∃ last : Option Placed, found.filter (!·.lexeme.closed) = last.toList ∧
      ∀ p ∈ last, [p] <:+ found := by
  induction h with
  | done => exact ⟨none, rfl, fun _ hp => nomatch hp⟩
  | @step offset gap rest lexeme found _ hcut hfound ih =>
    cases hclosed : lexeme.closed with
    | true =>
      obtain ⟨last, hlast, hsuffix⟩ := ih
      refine ⟨last, ?_, fun p hp => (hsuffix p hp).trans (List.suffix_cons _ _)⟩
      rw [List.filter_cons, hclosed]
      exact hlast
    | false =>
      -- What is left open goes to the end of the text, so nothing is found behind it.
      obtain ⟨-, rfl⟩ := hcut.of_open hclosed
      obtain rfl := hfound.eq_nil
      refine ⟨some ⟨offset + Text.size gap, lexeme⟩, ?_, ?_⟩
      · rw [List.filter_cons, hclosed]
        rfl
      · rintro p ⟨⟩
        exact List.suffix_rfl

/-- Characters that begin no lexeme are reported in their order, and then what is left open. -/
theorem filterMap_complaint? (h : Scan offset text found) (file : String) :
    found.filterMap (·.complaint? file) =
      (found.filter (!·.recognised)).map
          (fun p => ⟨.unrecognised p.lexeme.value, .ofByte file p.offset⟩) ++
        (found.filter (!·.lexeme.closed)).map
          (fun p => ⟨.unterminated p.lexeme.value, .ofByte file p.offset⟩) := by
  induction h with
  | done => rfl
  | @step offset gap rest lexeme found _ hcut hfound ih =>
    let p : Placed := ⟨offset + Text.size gap, lexeme⟩
    cases hclosed : lexeme.closed with
    | true =>
      cases hrecognised : p.recognised with
      | true =>
        have hnone := Placed.complaint?_closed hrecognised hclosed file
        rw [List.filterMap_cons_none hnone, ih]
        simp [p, hrecognised, hclosed]
      | false =>
        have hsome := Placed.complaint?_unrecognised hrecognised file
        rw [List.filterMap_cons_some hsome, ih]
        simp [p, hrecognised, hclosed]
    | false =>
      -- Nothing is behind what is left open.
      obtain ⟨hkind, rfl⟩ := hcut.of_open hclosed
      obtain rfl := hfound.eq_nil
      have hsome := Placed.complaint?_open (p := p) hkind hclosed file
      have hrecognised : p.recognised = true := by simp [p, Placed.recognised, hkind]
      rw [List.filterMap_cons_some hsome]
      simp [p, hrecognised, hclosed]

/-- Each lexeme begins behind the one before it. -/
theorem pairwise_offset (h : Scan offset text found) :
    found.Pairwise fun p q => p.offset < q.offset := by
  refine h.pairwise.imp_of_mem fun hp _ hle => ?_
  obtain ⟨rest, hcut⟩ := h.exists_cutBefore _ hp
  exact Nat.lt_of_lt_of_le (Nat.lt_add_of_pos_right hcut.size_pos) hle

/-- Where 32 bits can count the lexemes, the reports are in the order of their places. -/
theorem pairwise_complaint? {source : String} (h : Scan 0 source.toList found)
    (hsize : source.utf8ByteSize ≤ 0x100000000) (file : String) :
    (found.filterMap (·.complaint? file)).Pairwise
      fun d e => d.position.offset < e.position.offset := by
  have hoffset : ∀ p ∈ found, p.offset < 0x100000000 := by
    intro p hp
    obtain ⟨rest, hcut⟩ := h.exists_cutBefore p hp
    have hstop : p.offset + Text.size p.lexeme.text ≤ source.utf8ByteSize := h.stop_le_size p hp
    have hpos := hcut.size_pos
    omega
  refine List.pairwise_filterMap.mpr (h.pairwise_offset.imp_of_mem fun hp hq hlt d hd e he => ?_)
  rw [(Placed.of_complaint? hd).1, (Placed.of_complaint? he).1,
    Position.ofByte_of_lt file (hoffset _ hp), Position.ofByte_of_lt file (hoffset _ hq)]
  exact hlt

end Scan

/-- The tokens and the diagnostics of a source against what the scanner cuts off step by step, until
it gives the end of the text for ever. At most one of these tokens is a string that is left open.
The places of tokens and diagnostics have 32 bits of the scanner's count. -/
structure Diagnosed (source file : String) (steps : List Scanner.Step)
    (unclosed : Option Scanner.Step) : Prop where
  successive : ∀ n, (Scanner.ofSource source file).token n =
    (steps.map (·.token))[n]?.getD (Cursor.endToken (.ofByte file source.utf8ByteSize))
  ends : ∀ t ∈ steps, t.token.kind ≠ .eof
  spans : ∀ t ∈ steps, t.token.span = ⟨.ofByte file t.start, .ofByte file t.stop⟩
  ordered : steps.Pairwise fun t u => t.start < u.start
  tokens : (tokenize source file).1 = (steps.map (·.token)).filter (·.kind ≠ .error) ++
    [Cursor.endToken (.ofByte file source.utf8ByteSize)]
  diagnostics : (tokenize source file).2 =
    (steps.filter (·.token.kind = .error)).map
        (fun t => ⟨.unrecognised t.token.value, t.token.span.start⟩) ++
      unclosed.toList.map (fun t => ⟨.unterminated t.token.value, t.token.span.start⟩)
  increasing : source.utf8ByteSize ≤ 0x100000000 →
    (tokenize source file).2.Pairwise fun d e => d.position.offset < e.position.offset
  character : ∀ t ∈ steps, t.token.kind = .error →
    ∃ c, t.slice source = [c] ∧ t.token.value = String.singleton c
  last : ∀ t ∈ unclosed, t.token.kind = .string ∧ t.stop = source.utf8ByteSize ∧ [t] <:+ steps
  opens : ∀ t, unclosed = some t ↔
    (steps.filter (·.token.kind = .string)).getLast? = some t ∧ OpenLiteral (t.slice source)
  closes : ∀ t ∈ steps, t.token.kind = .string → unclosed ≠ some t →
    ClosedLiteral (t.slice source)

namespace Scan

variable {source file : String} {found : List Placed}

/-- Every step cuts off something that is found. -/
theorem exists_step (h : Scan 0 source.toList found) {t : Scanner.Step}
    (ht : t ∈ stepsOf source file) :
    ∃ p ∈ found, p.step file = t ∧ t.slice source = p.lexeme.text ∧
      ∃ rest, p.lexeme.CutBefore rest := by
  rw [h.stepsOf_eq] at ht
  obtain ⟨p, hp, rfl⟩ := List.mem_map.mp ht
  exact ⟨p, hp, rfl, h.slice_step file p hp, h.exists_cutBefore p hp⟩

theorem character_of_error (h : Scan 0 source.toList found) {t : Scanner.Step}
    (ht : t ∈ stepsOf source file) (hkind : t.token.kind = .error) :
    ∃ c, t.slice source = [c] ∧ t.token.value = String.singleton c := by
  obtain ⟨p, -, rfl, hslice, rest, hcut⟩ := h.exists_step ht
  obtain ⟨c, htext, hvalue⟩ := hcut.of_error hkind
  exact ⟨c, hslice.trans htext, hvalue⟩

theorem literal_of_string (h : Scan 0 source.toList found) {t : Scanner.Step}
    (ht : t ∈ stepsOf source file) (hkind : t.token.kind = .string) :
    ∃ p ∈ found, p.step file = t ∧
      (p.lexeme.closed = true → ClosedLiteral (t.slice source)) ∧
      (p.lexeme.closed = false → OpenLiteral (t.slice source)) := by
  obtain ⟨p, hp, rfl, hslice, rest, hcut⟩ := h.exists_step ht
  rw [hslice]
  exact ⟨p, hp, rfl, hcut.literal hkind⟩

/-- What is left open is a string at the end of the source, and nothing is cut off behind it. -/
theorem ends_of_open (h : Scan 0 source.toList found) {p : Placed} (hp : [p] <:+ found)
    (hopen : p.lexeme.closed = false) :
    p.lexeme.kind = .string ∧ p.stop = source.utf8ByteSize ∧
      [p.step file] <:+ stepsOf source file := by
  have hmem : p ∈ found := hp.subset List.mem_cons_self
  obtain ⟨rest, hcut⟩ := h.exists_cutBefore p hmem
  refine ⟨(hcut.of_open hopen).1, ?_, ?_⟩
  · have hstop := (h.stop_le p hmem).2 hopen
    rwa [Nat.zero_add, Text.size_toList] at hstop
  · rw [h.stepsOf_eq]
    exact hp.map _

theorem diagnostics_eq (h : Scan 0 source.toList found) {last : Option Placed}
    (hlast : found.filter (!·.lexeme.closed) = last.toList) :
    (tokenize source file).2 =
      ((stepsOf source file).filter (·.token.kind = .error)).map
          (fun t => ⟨.unrecognised t.token.value, t.token.span.start⟩) ++
        (last.map (·.step file)).toList.map
          (fun t => ⟨.unterminated t.token.value, t.token.span.start⟩) := by
  rw [h.tokenize_eq, h.filterMap_complaint?, hlast, h.filter_error_stepsOf_eq, Option.toList_map,
    List.map_map, List.map_map]
  rfl

/-- The strings of the steps that are left open: at most one, the last. -/
theorem opens (h : Scan 0 source.toList found) {last : Option Placed}
    (hmem : ∀ p, last = some p ↔ p ∈ found ∧ p.lexeme.closed = false)
    (hlast : ∀ p ∈ last, [p] <:+ found) (t : Scanner.Step) :
    last.map (·.step file) = some t ↔
      ((stepsOf source file).filter (·.token.kind = .string)).getLast? = some t ∧
        OpenLiteral (t.slice source) := by
  constructor
  · intro ht
    obtain ⟨p, hp, rfl⟩ := Option.map_eq_some_iff.mp ht
    obtain ⟨hfound, hopen⟩ := (hmem p).mp hp
    obtain ⟨rest, hcut⟩ := h.exists_cutBefore p hfound
    obtain ⟨hkind, -, hsuffix⟩ := h.ends_of_open (hlast p hp) hopen
    obtain ⟨front, hfront⟩ : [p.step file] <:+ stepsOf source file := hsuffix
    have hstring : (p.step file).token.kind = .string := hkind
    rw [← hfront, h.slice_step file p hfound]
    refine ⟨?_, (hcut.literal hkind).2 hopen⟩
    simp [hstring]
  · rintro ⟨ht, hliteral⟩
    obtain ⟨hstep, hkind⟩ := List.mem_filter.mp (List.mem_of_getLast? ht)
    obtain ⟨p, hp, rfl, hclosed, -⟩ := h.literal_of_string hstep (by simpa using hkind)
    have hopen : p.lexeme.closed = false := by
      rw [← Bool.not_eq_true]
      exact fun htrue => hliteral.not_closed (hclosed htrue)
    rw [(hmem p).mpr ⟨hp, hopen⟩]
    rfl

end Scan

/-- The diagnostics of every source are exact, against what is cut off it step by step. -/
theorem tokenize_diagnosed (source file : String) :
    ∃ unclosed, Diagnosed source file (stepsOf source file) unclosed := by
  obtain ⟨found, hfound⟩ := exists_scan 0 source.toList
  obtain ⟨last, hlast, hsuffix⟩ := hfound.exists_open
  -- At most one lexeme is open, the last. Its step is the one that is left unclosed.
  have hmem (p : Placed) : last = some p ↔ p ∈ found ∧ p.lexeme.closed = false := by
    rw [← Option.mem_toList, ← hlast, List.mem_filter]
    simp
  have hsteps := hfound.stepsOf_eq file
  refine ⟨last.map (·.step file), ?_⟩
  constructor
  case successive =>
    rw [hsteps, List.map_map]
    exact hfound.token_eq (Scanner.behind_ofSource source file) rfl rfl
  case ends =>
    intro t ht
    obtain ⟨p, hp, rfl, -, rest, hcut⟩ := hfound.exists_step ht
    exact hcut.kind_ne_eof
  case spans =>
    intro t ht
    obtain ⟨p, hp, rfl, -⟩ := hfound.exists_step ht
    rfl
  case ordered =>
    rw [hsteps]
    exact List.pairwise_map.mpr hfound.pairwise_offset
  case tokens =>
    rw [hfound.tokenize_eq, hsteps, List.map_map, List.filter_map]
    rfl
  case diagnostics => exact hfound.diagnostics_eq hlast
  case increasing =>
    intro hsize
    rw [hfound.tokenize_eq]
    exact hfound.pairwise_complaint? hsize file
  case character => exact fun t ht => hfound.character_of_error ht
  case last =>
    intro t ht
    obtain ⟨p, hp, rfl⟩ := Option.map_eq_some_iff.mp ht
    exact hfound.ends_of_open (hsuffix p hp) ((hmem p).mp hp).2
  case opens => exact hfound.opens hmem hsuffix
  case closes =>
    intro t ht hkind hne
    obtain ⟨p, hp, rfl, hclosed, -⟩ := hfound.literal_of_string ht hkind
    refine hclosed ?_
    rw [← Bool.not_eq_false]
    intro hopen
    rw [(hmem p).mpr ⟨hp, hopen⟩] at hne
    exact hne rfl

/-- Two characters that are reported have one place if they are so far apart that 32 bits cannot
tell. -/
theorem tokenize_diagnosed_wraps :
    let source := String.ofList ('@' :: (List.replicate 0xFFFFFFFF ' ' ++ ['@']))
    (tokenize source "f").2 = [⟨.unrecognised "@", ⟨0, "f"⟩⟩, ⟨.unrecognised "@", ⟨0, "f"⟩⟩] ∧
      ¬(tokenize source "f").2.Pairwise fun d e => d.position.offset < e.position.offset := by
  intro source
  let sign : Lexeme := ⟨.error, ['@'], "@", true⟩
  have hcut (rest : List Char) : sign.CutBefore rest := ⟨'@', [], rfl, ⟨by decide, nofun⟩, rfl⟩
  have hstart : 0x100000000 = 0 + 1 + Text.size (List.replicate 0xFFFFFFFF ' ') := by
    have hblanks := Text.size_replicate_space 0xFFFFFFFF
    omega
  have hlast : Scan (0 + 1) (List.replicate 0xFFFFFFFF ' ' ++ ['@']) [⟨0x100000000, sign⟩] :=
    .step_at (.replicate_space _) (hcut []) hstart (.done (.layout .nil))
  have hscan : Scan 0 source.toList [⟨0, sign⟩, ⟨0x100000000, sign⟩] := by
    rw [String.toList_ofList]
    exact .step .nil (hcut _) hlast
  have hreports : (tokenize source "f").2 =
      [⟨.unrecognised "@", ⟨0, "f"⟩⟩, ⟨.unrecognised "@", ⟨0, "f"⟩⟩] := by
    have hwraps : Position.ofByte "f" 0x100000000 = ⟨0, "f"⟩ := by decide
    let report (offset : Nat) : Diagnostic := ⟨.unrecognised "@", .ofByte "f" offset⟩
    have hlast : report 0x100000000 = report 0 := congrArg (Diagnostic.mk _) hwraps
    rw [hscan.tokenize_eq]
    change [report 0, report 0x100000000] = [report 0, report 0]
    rw [hlast]
  rw [hreports]
  exact ⟨rfl, by decide⟩

/-- The backslash in front of the second quote is escaped, the one in front of the last is not. -/
example : (tokenize "@ \"\\\\\" \"\\\"" "f").2 =
    [⟨.unrecognised "@", ⟨0, "f"⟩⟩, ⟨.unterminated "\"", ⟨7, "f"⟩⟩] := by decide

end Scriptlet
