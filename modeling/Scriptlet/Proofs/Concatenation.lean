import Scriptlet.Proofs.Syntax.Sequencing
import Scriptlet.Proofs.Token.Diagnostics

namespace Scriptlet

open Lexeme (Placed)

/-- The lexemes of a program are closed: behind an open string there is nothing, and no statement
ends in a string. -/
theorem Scan.closed_of_parse {source file file' : String} {found : List Placed} {b : Block}
    {c : Cursor} (h : Scan 0 source.toList found)
    (hparse : parse (tokenize source file).1 file' = .ok b c) :
    ∀ p ∈ found, p.lexeme.closed = true := by
  intro p hp
  rw [← Bool.not_eq_false]
  intro hopen
  obtain ⟨rest, hcut⟩ := h.exists_cutBefore p hp
  obtain ⟨hkind, -⟩ := hcut.of_open hopen
  -- It would be the last lexeme, and its token the last one in front of the end of the text.
  obtain ⟨last, hlast, hsuffix⟩ := h.exists_open
  have hmem : p ∈ last.toList := by
    rw [← hlast]
    exact List.mem_filter.mpr ⟨hp, by rw [hopen]; rfl⟩
  obtain ⟨front, rfl⟩ := hsuffix p (Option.mem_toList.mp hmem)
  have hkept : (front ++ [p]).filter (·.recognised) = front.filter (·.recognised) ++ [p] := by
    rw [List.filter_append, List.filter_cons_of_pos (by simp [Placed.recognised, hkind])]
    rfl
  have hstatements := (parse_eq_ok_iff.mp hparse).1
  rw [h.tokenize_eq] at hstatements
  have hpasses := hstatements.passes rfl h.kind_ne_eof
  have hpassed : c.passed = p.token file ::
      ((front.filter (·.recognised)).map (·.token file)).reverse := by
    rw [hpasses.passed, Cursor.passed_ofTokens, hkept, List.map_append, List.reverse_append]
    simp
  -- But a statement ends in another one.
  rcases hstatements.eq_or_closed (Cursor.ended_ofTokens _ _) with rfl | ⟨t, ts, hclosing, hclosed⟩
  · rw [Cursor.passed_ofTokens] at hpassed
    cases hpassed
  · rw [hpassed] at hclosing
    obtain ⟨rfl, -⟩ := List.cons.inj hclosing
    have hclosed : p.lexeme.kind.Closing := hclosed
    rw [hkind] at hclosed
    rcases hclosed with hclosed | hclosed <;> cases hclosed

/-- The tokens of two programs are those of one program, whatever is done to the places of the
second. -/
theorem exists_parse_followedBy {a b file file' : String} {first second : Block} {c c' : Cursor}
    (ha : parse (tokenize a file).1 file' = .ok first c)
    (hb : parse (tokenize b file).1 file' = .ok second c') (m : Position → Position) :
    ∃ program last,
      parse (followedBy m (tokenize a file) (tokenize b file)).1 file' = .ok program last ∧
        program.body = first.body ++ second.body.map (Stmt.move m) := by
  obtain ⟨found, hfound⟩ := exists_scan 0 a.toList
  obtain ⟨ts, last, hts, hlast⟩ := exists_tokenize_eq_concat b file
  have hfirst := (parse_eq_ok_iff.mp ha).1
  have hsecond := (parse_eq_ok_iff.mp hb).1
  rw [followedBy, hfound.filter_tokenize_eq, hts]
  rw [hfound.tokenize_eq] at hfirst
  rw [hts] at hsecond
  obtain ⟨e, he⟩ := hfirst.concat rfl hlast hfound.kind_ne_eof hsecond m
  exact ⟨.mk _ _, e, parse_eq_ok_iff.mpr ⟨he, rfl⟩, rfl⟩

/-- Two programs on lines of their own are one: its statements are those of the first and, further
on by the first line, those of the second, and what is reported adds up in the same way. The places
have 32 bits, which is of account where these cannot count the two programs. -/
theorem parse_lines {a b file file' : String} {first second : Block} {c c' : Cursor}
    (ha : parse (tokenize a file).1 file' = .ok first c)
    (hb : parse (tokenize b file).1 file' = .ok second c') :
    let behind := a.utf8ByteSize + 1
    (∃ program last, parse (tokenize (a ++ "\n" ++ b) file).1 file' = .ok program last ∧
      program.body = first.body ++ second.body.map (Stmt.move (.shiftWrap behind)) ∧
      (behind + b.utf8ByteSize < 0x100000000 →
        program.body = first.body ++ second.body.map (Stmt.move (.shift behind)))) ∧
    (tokenize (a ++ "\n" ++ b) file).2 =
      (tokenize a file).2 ++ (tokenize b file).2.map (·.move (.shiftWrap behind)) ∧
    (behind + b.utf8ByteSize < 0x100000000 → (tokenize (a ++ "\n" ++ b) file).2 =
      (tokenize a file).2 ++ (tokenize b file).2.map (·.move (.shift behind))) := by
  intro behind
  obtain ⟨found, hfound⟩ := exists_scan 0 a.toList
  have happend : tokenize (a ++ "\n" ++ b) file =
      followedBy (.shiftWrap behind) (tokenize a file) (tokenize b file) :=
    hfound.tokenize_append_line (hfound.closed_of_parse ha) b file
  obtain ⟨program, last, hparse, hbody⟩ := exists_parse_followedBy ha hb (.shiftWrap behind)
  rw [happend]
  refine ⟨⟨program, last, hparse, hbody, fun hsize => ?_⟩, rfl, fun hsize => ?_⟩
  · -- The tokens are the same, so this is the same program.
    obtain ⟨program', last', hparse', hbody'⟩ := exists_parse_followedBy ha hb (.shift behind)
    rw [followedBy_shiftWrap hsize, hparse'] at hparse
    cases hparse
    exact hbody'
  · rw [followedBy_shiftWrap hsize]
    rfl

/-- A branch without `else` in front of a comment, and a character that begins no lexeme. -/
theorem parse_lines_branch : ∃ first c second c',
    parse (tokenize "if a \x7b b; \x7d // c" "f").1 "f" = .ok first c ∧
    parse (tokenize "\"d\"; @" "f").1 "f" = .ok second c' ∧
    (∃ program last,
      parse (tokenize ("if a \x7b b; \x7d // c" ++ "\n" ++ "\"d\"; @") "f").1 "f" =
        .ok program last ∧
      program.body = first.body ++ second.body.map (Stmt.move (.shift 17))) ∧
    (tokenize ("if a \x7b b; \x7d // c" ++ "\n" ++ "\"d\"; @") "f").2 =
      (tokenize "if a \x7b b; \x7d // c" "f").2 ++
        (tokenize "\"d\"; @" "f").2.map (·.move (.shift 17)) := by
  have hfirst : succeeds (parse (tokenize "if a \x7b b; \x7d // c" "f").1 "f") = true := by
    decide +kernel
  have hsecond : succeeds (parse (tokenize "\"d\"; @" "f").1 "f") = true := by decide +kernel
  obtain ⟨first, c, ha⟩ := exists_eq_ok hfirst
  obtain ⟨second, c', hb⟩ := exists_eq_ok hsecond
  obtain ⟨⟨program, last, hparse, -, hbody⟩, -, hreports⟩ := parse_lines ha hb
  exact ⟨first, c, second, c', ha, hb, ⟨program, last, hparse, hbody (by decide)⟩,
    hreports (by decide)⟩

/-- Behind a program of blanks that is as long as 32 bits can count, a statement has the place that
it has alone, and not one further on. -/
theorem parse_lines_wraps :
    let a := String.ofList (List.replicate 0xFFFFFFFF ' ')
    ∃ first c second c' program last, parse (tokenize a "f").1 "f" = .ok first c ∧
      parse (tokenize "x;" "f").1 "f" = .ok second c' ∧
      parse (tokenize (a ++ "\n" ++ "x;") "f").1 "f" = .ok program last ∧
      program.body ≠ first.body ++ second.body.map (Stmt.move (.shift (a.utf8ByteSize + 1))) := by
  intro a
  have hspaces : Text.size (List.replicate 0xFFFFFFFF ' ') = 0xFFFFFFFF :=
    Text.size_replicate_space _
  have hsize : a.utf8ByteSize + 1 = 0x100000000 := by
    rw [← Text.size_toList, String.toList_ofList]
    omega
  have hblanks := Layout.replicate_space 0xFFFFFFFF
  have hscan : Scan 0 a.toList [] := by
    rw [String.toList_ofList]
    exact .done (.layout hblanks)
  have hjoined : tokenize (a ++ "\n" ++ "x;") "f" = tokenize "x;" "f" := by
    have hline : Text.size ['\n'] = 1 := by decide
    have hgap : Text.size (List.replicate 0xFFFFFFFF ' ' ++ ['\n']) = 0x100000000 := by
      rw [Text.size_append]
      omega
    have hnewline : String.ofList ['\n'] = "\n" := by decide
    rw [← tokenize_behind_layout (Layout.Final.layout hblanks).newline hgap "x;" "f",
      String.ofList_append, hnewline]
  clear_value a
  have hstatement : (resultOf? (parse (tokenize "x;" "f").1 "f")).map
      (fun program => program.body.map (·.span.start.offset)) = some [0] := by
    decide +kernel
  obtain ⟨program, hprogram, hstarts⟩ := Option.map_eq_some_iff.mp hstatement
  obtain ⟨last, hparse⟩ := exists_eq_ok_of_resultOf? hprogram
  obtain ⟨first, c, hfirst, hnone⟩ : ∃ first c, parse (tokenize a "f").1 "f" = .ok first c ∧
      first.body = [] := by
    rw [hscan.tokenize_eq]
    exact ⟨.mk [] _, _, parse_eq_ok_iff.mpr ⟨.done rfl, rfl⟩, rfl⟩
  rw [hjoined]
  refine ⟨first, c, program, last, program, last, hfirst, hparse, hparse, fun heq => ?_⟩
  have hmoved : program.body.map (·.span.start.offset) =
      (program.body.map (·.span.start.offset)).map (0x100000000 + ·) := by
    rw [hnone, List.nil_append, hsize] at heq
    conv_lhs => rw [heq]
    rw [List.map_map, List.map_map]
    exact List.map_congr_left fun s _ => congrArg (·.start.offset) (s.span_move _)
  rw [hstarts] at hmoved
  cases hmoved

end Scriptlet
