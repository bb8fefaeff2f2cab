import Scriptlet.Proofs.Token.Scan

namespace Scriptlet

open Lexeme (Placed EndsLike)

/-- A gap that keeps two lexemes apart: a blank and any layout behind it. -/
inductive Separator : List Char → Prop
  | intro {c cs} : Text.isBlank c = true → Layout cs → Separator (c :: cs)

/-- The texts in their order, with a separator between any two. -/
inductive Joined : List (List Char) → List Char → Prop
  | nil : Joined [] []
  | last {text} : Joined [text] text
  | cons {text gap next texts joined} : Separator gap → Joined (next :: texts) joined →
      Joined (text :: next :: texts) (text ++ (gap ++ joined))

namespace Separator

variable {gap : List Char}

theorem layout (h : Separator gap) : Layout gap := by
  obtain ⟨hc, hcs⟩ := h
  exact .blank hc hcs

theorem endsLike (h : Separator gap) (rest behind : List Char) :
    EndsLike rest (gap ++ behind) := by
  obtain ⟨hc, -⟩ := h
  refine .gap ?_
  rintro d ⟨⟩
  exact hc

end Separator

namespace Lexeme

theorem endsLike_nil (rest : List Char) : EndsLike rest [] :=
  .gap fun _ hc => nomatch hc

/-- At the end of a text a lexeme may be open. -/
theorem CutBefore.at_end {lexeme : Lexeme} {rest : List Char} (h : lexeme.CutBefore rest) :
    lexeme.CutBefore [] := by
  cases hclosed : lexeme.closed with
  | true => exact h.congr (endsLike_nil rest) hclosed
  | false =>
    obtain ⟨-, rfl⟩ := h.of_open hclosed
    exact h

end Lexeme

/-- What is found behind a lexeme is found behind it still. -/
theorem exists_scan_cons {lexeme : Lexeme} {lexemes : List Lexeme} {rest : List Char} {offset : Nat}
    (hcut : lexeme.CutBefore rest)
    (h : ∃ found, Scan (offset + Text.size lexeme.text) rest found ∧
      found.map (·.lexeme) = lexemes) :
    ∃ found, Scan offset (lexeme.text ++ rest) found ∧
      found.map (·.lexeme) = lexeme :: lexemes := by
  obtain ⟨found, hfound, hlexemes⟩ := h
  exact ⟨⟨offset, lexeme⟩ :: found, Scan.step_at .nil hcut rfl hfound,
    congrArg (lexeme :: ·) hlexemes⟩

/-- Lexemes with separators between them are found again. -/
theorem exists_scan_joined {lexemes : List Lexeme} {joined trail : List Char}
    (hcut : ∀ l ∈ lexemes, ∃ rest, l.CutBefore rest)
    (hclosed : lexemes.Pairwise fun l _ => l.closed = true)
    (htrail : trail = [] ∨ Separator trail ∧ ∀ l ∈ lexemes, l.closed = true)
    (h : Joined (lexemes.map (·.text)) joined) (offset : Nat) :
    ∃ found, Scan offset (joined ++ trail) found ∧ found.map (·.lexeme) = lexemes := by
  have hend (offset : Nat) : Scan offset trail [] := by
    refine .done (.layout ?_)
    rcases htrail with rfl | ⟨htrail, -⟩
    · exact .nil
    · exact htrail.layout
  -- On the lexemes. Each of them ends at the gap behind it; only the last may be open, and then
  -- nothing is behind it.
  induction lexemes generalizing joined offset with
  | nil =>
    cases h with
    | nil => exact ⟨[], hend offset, rfl⟩
  | cons l ls ih =>
    obtain ⟨⟨rest, hl⟩, hls⟩ := List.forall_mem_cons.mp hcut
    obtain ⟨hbehind, hclosed⟩ := List.pairwise_cons.mp hclosed
    cases ls with
    | nil =>
      cases h with
      | last =>
        refine exists_scan_cons ?_ ⟨[], hend _, rfl⟩
        rcases htrail with rfl | ⟨htrail, hall⟩
        · exact hl.at_end
        · have hends := htrail.endsLike rest []
          rw [List.append_nil] at hends
          exact hl.congr hends (hall l List.mem_cons_self)
    | cons m ms =>
      cases h with
      | @cons _ gap _ _ joined hgap hjoined =>
        have htrail' : trail = [] ∨ Separator trail ∧ ∀ l ∈ m :: ms, l.closed = true :=
          htrail.imp_right (.imp_right fun hall => (List.forall_mem_cons.mp hall).2)
        obtain ⟨found, hfound, hlexemes⟩ := ih hls hclosed htrail' hjoined
          (offset + Text.size l.text + Text.size gap)
        rw [List.append_assoc, List.append_assoc]
        refine exists_scan_cons ?_ ⟨found, hfound.behind_layout hgap.layout, hlexemes⟩
        exact hl.congr (hgap.endsLike rest _) (hbehind m List.mem_cons_self)

/-- What is left of a scan without the characters that begin no lexeme is found again if it is put
together with other gaps. -/
theorem Scan.exists_scan_separated {found : List Placed} {text lead joined trail : List Char}
    (h : Scan 0 text found) (hlead : Layout lead)
    (hjoined : Joined ((found.filter (·.recognised)).map (·.lexeme.text)) joined)
    (htrail : trail = [] ∨ Separator trail ∧ ∀ p ∈ found, p.lexeme.closed = true) :
    ∃ again, Scan 0 (lead ++ (joined ++ trail)) again ∧
      again.map (·.lexeme) = (found.filter (·.recognised)).map (·.lexeme) ∧
      ∀ p ∈ again, p.recognised = true := by
  -- What is left has been cut off in the scan, and there only the last lexeme may be open.
  have hkept : ∀ l ∈ (found.filter (·.recognised)).map (·.lexeme),
      ∃ p ∈ found, p.recognised = true ∧ p.lexeme = l := by
    intro l hl
    obtain ⟨p, hp, rfl⟩ := List.mem_map.mp hl
    obtain ⟨hp, hrecognised⟩ := List.mem_filter.mp hp
    exact ⟨p, hp, hrecognised, rfl⟩
  have hcut : ∀ l ∈ (found.filter (·.recognised)).map (·.lexeme), ∃ rest, l.CutBefore rest := by
    intro l hl
    obtain ⟨p, hp, -, rfl⟩ := hkept l hl
    exact h.exists_cutBefore p hp
  have hclosed : ((found.filter (·.recognised)).map (·.lexeme)).Pairwise
      fun l _ => l.closed = true :=
    List.pairwise_map.mpr (h.pairwise_closed.sublist List.filter_sublist)
  have htrail' : trail = [] ∨ Separator trail ∧
      ∀ l ∈ (found.filter (·.recognised)).map (·.lexeme), l.closed = true := by
    refine htrail.imp_right (.imp_right fun hall l hl => ?_)
    obtain ⟨p, hp, -, rfl⟩ := hkept l hl
    exact hall p hp
  have htexts : Joined (((found.filter (·.recognised)).map (·.lexeme)).map (·.text)) joined := by
    rw [List.map_map]
    exact hjoined
  obtain ⟨again, hagain, hlexemes⟩ :=
    exists_scan_joined hcut hclosed htrail' htexts (0 + Text.size lead)
  refine ⟨again, hagain.behind_layout hlead, hlexemes, fun p hp => ?_⟩
  obtain ⟨q, -, hrecognised, hlexeme⟩ := hkept _ (hlexemes ▸ List.mem_map_of_mem hp)
  rw [Placed.recognised, ← hlexeme]
  exact hrecognised

/-- The tokens of a source stay the same if its layout is exchanged: what they were cut from may be
put together again with other gaps. Characters that begin no lexeme are left out with the layout. A
string that is left open stays open, so nothing can be put behind it. -/
theorem tokenize_separated {source file file' : String} {lead joined trail : List Char}
    (hlead : Layout lead)
    (hjoined : Joined
      (((stepsOf source file).filter (·.token.kind ≠ .error)).map (·.slice source)) joined)
    (htrail : trail = [] ∨ Separator trail ∧
      ∀ d ∈ (tokenize source file).2, d.fault.isUnterminated = false) :
    let tokens := (tokenize source file).1.filter (·.kind ≠ .eof)
    let again := tokenize (String.ofList (lead ++ (joined ++ trail))) file'
    ((stepsOf source file).filter (·.token.kind ≠ .error)).map (·.token) = tokens ∧
      (again.1.map fun t => (t.kind, t.value)) =
        (tokens.map fun t => (t.kind, t.value)) ++ [(.eof, "EOF")] ∧
      ∀ d ∈ again.2, d.fault.isUnrecognised = false := by
  obtain ⟨found, hfound⟩ := exists_scan 0 source.toList
  rw [hfound.filter_stepsOf_eq] at hjoined ⊢
  rw [hfound.filter_tokenize_eq]
  -- Steps go over the texts of what is found, also where the places of their tokens begin anew.
  have hslices : ((found.filter (·.recognised)).map (·.step file)).map (·.slice source) =
      (found.filter (·.recognised)).map (·.lexeme.text) := by
    rw [List.map_map]
    exact List.map_congr_left fun p hp => hfound.slice_step file p (List.mem_filter.mp hp).1
  rw [hslices] at hjoined
  obtain ⟨again, hagain, hlexemes, hrecognised⟩ := hfound.exists_scan_separated hlead hjoined
    (htrail.imp_right (.imp_right hfound.closed_of_no_unterminated))
  rw [← String.toList_ofList (l := lead ++ (joined ++ trail))] at hagain
  rw [hagain.tokenize_eq, List.filter_eq_self.mpr hrecognised]
  refine ⟨List.map_map, ?_, ?_⟩
  · have hpairs := congrArg (List.map fun l => (l.kind, l.value)) hlexemes
    rw [List.map_map, List.map_map] at hpairs
    rw [List.map_append, List.map_map, List.map_map]
    exact congrArg (· ++ [(Kind.eof, "EOF")]) hpairs
  · intro d hd
    obtain ⟨p, hp, hreport⟩ := List.mem_filterMap.mp hd
    rw [(Placed.of_complaint? hreport).2, hrecognised p hp]
    rfl

/-- The comment between the tokens looks like a string, and the string at the end is open. The at
sign is gone. -/
theorem tokenize_separated_open :
    let source := "1..@\"a"
    let slices := ((stepsOf source "f").filter (·.token.kind ≠ .error)).map (·.slice source)
    let joined := "1 ..\n//\"\n\"a".toList
    let tokens := (tokenize source "f").1.filter (·.kind ≠ .eof)
    let again := tokenize (String.ofList ([] ++ (joined ++ []))) "g"
    Layout [] ∧ Joined slices joined ∧
      (([] : List Char) = [] ∨ Separator [] ∧
        ∀ d ∈ (tokenize source "f").2, d.fault.isUnterminated = false) ∧
      ((stepsOf source "f").filter (·.token.kind ≠ .error)).map (·.token) = tokens ∧
        (again.1.map fun t => (t.kind, t.value)) =
          (tokens.map fun t => (t.kind, t.value)) ++ [(.eof, "EOF")] ∧
        ∀ d ∈ again.2, d.fault.isUnrecognised = false := by
  intro source slices joined tokens again
  have hslices : slices = [['1'], ['.', '.'], ['"', 'a']] := by decide
  have hcomment : Layout ('/' :: '/' :: (['"'] ++ '\n' :: [])) := .comment (by decide) .nil
  have hjoined : Joined slices joined := by
    rw [hslices]
    exact .cons (.intro rfl .nil) (.cons (.intro rfl hcomment) .last)
  exact ⟨.nil, hjoined, .inl rfl, tokenize_separated .nil hjoined (.inl rfl)⟩

end Scriptlet
