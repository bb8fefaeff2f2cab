import Scriptlet.Proofs.Syntax.Collecting
import Scriptlet.Proofs.Syntax.Sequencing
import Scriptlet.Proofs.Token.Excerpt

namespace Scriptlet

open Lexeme (Placed)

/-- The text from one byte of a source up to another. -/
def excerpt (source : String) (start stop : Nat) : String :=
  String.ofList (Text.slice start stop source.toList)

/-- The text under the span of the statement. -/
def Stmt.excerpt (source : String) (s : Stmt) : String :=
  Scriptlet.excerpt source s.span.start.offset s.span.stop.offset

/-- The text from one token to another has the tokens between them, and reports what is reported
there. The text begins and ends where the scanner cuts off the tokens, of which their places have 32
bits. -/
theorem exists_tokenize_excerpt {source file : String} {before us behind : List Token}
    {first last : Token} (h : (tokenize source file).1 = before ++ (us ++ behind))
    (hbehind : behind ≠ []) (hfirst : us.head? = some first) (hlast : us.getLast? = some last) :
    ∃ start stop, first.span.start = .ofByte file start ∧ last.span.stop = .ofByte file stop ∧
      start + (excerpt source start stop).utf8ByteSize = stop ∧ stop ≤ source.utf8ByteSize ∧
      ∃ ts e, (tokenize (excerpt source start stop) file).1 = ts ++ [e] ∧ e.kind = .eof ∧
        (∀ t ∈ ts, t.kind ≠ .eof) ∧ ts.map (·.move (.shiftWrap start)) = us ∧
        (tokenize (excerpt source start stop) file).2.map (·.move (.shiftWrap start)) <:+:
          (tokenize source file).2 := by
  obtain ⟨found, hfound⟩ := exists_scan 0 source.toList
  obtain ⟨behind, e, rfl⟩ := (List.eq_nil_or_concat' behind).resolve_left hbehind
  have hsplit : (found.filter (·.recognised)).map (·.token file) = before ++ (us ++ behind) := by
    rw [hfound.tokenize_eq, ← List.append_assoc us, ← List.append_assoc before] at h
    exact List.append_inj_left' h rfl
  obtain ⟨kept₀, rest, hkept, -, hrest⟩ := List.map_eq_append_iff.mp hsplit
  obtain ⟨kept, kept₁, rfl, hus, -⟩ := List.map_eq_append_iff.mp hrest
  rw [← hus, List.head?_map, Option.map_eq_some_iff] at hfirst
  rw [← hus, List.getLast?_map, Option.map_eq_some_iff] at hlast
  obtain ⟨p, hp, rfl⟩ := hfirst
  obtain ⟨q, hq, rfl⟩ := hlast
  have hne : kept ≠ [] := by
    rintro rfl
    cases hp
  -- Between the lexemes of these tokens there may be others that are no tokens.
  obtain ⟨front, middle, back, rfl, hmiddle, hhead, hend⟩ := exists_infix_of_filter hkept hne
  obtain ⟨found, hexcerpt, hsize, rfl⟩ := hfound.excerpt (hhead.trans hp) (hend.trans hq)
  have hscan : Scan 0 (excerpt source p.offset q.stop).toList found := by
    rwa [excerpt, String.toList_ofList]
  have hq' : q ∈ front ++ (found.map (·.shift p.offset) ++ back) :=
    List.mem_append_right _ (List.mem_append_left _ (List.mem_of_getLast? (hend.trans hq)))
  refine ⟨p.offset, q.stop, rfl, rfl, ?_, hfound.stop_le_size q hq', _, _,
    congrArg Prod.fst (hscan.tokenize_eq file), rfl, hscan.kind_ne_eof, ?_, ?_⟩
  · rw [excerpt, ← Text.size_ofList, hsize]
  · rw [← Placed.map_token_shift, ← hus, ← hmiddle]
  · rw [hscan.tokenize_eq, hfound.tokenize_eq, ← Placed.filterMap_complaint?_shift]
    exact (List.infix_append' _ _ _).filterMap _

/-- The text of a statement of a program, whatever the statement is a part of, is a program of this
one statement, but for its place; and nothing is reported of it that is not of the source. The span
of the statement has 32 bits of where its text begins and ends, and in a source that these can count
it is the place of the text. -/
theorem parse_excerpt {source file file' : String} {b : Block} {c : Cursor}
    (h : parse (tokenize source file).1 file' = .ok b c) :
    ∀ s ∈ b.nodes, ∃ start stop, s.span = ⟨.ofByte file start, .ofByte file stop⟩ ∧
      start ≤ stop ∧ stop ≤ source.utf8ByteSize ∧
      let text := excerpt source start stop
      ∃ s' span c', parse (tokenize text file).1 file' = .ok (.mk [s'] span) c' ∧
        s'.move (.shiftWrap start) = s ∧
        (tokenize text file).2.map (·.move (.shiftWrap start)) <:+: (tokenize source file).2 ∧
        (source.utf8ByteSize < 0x100000000 → text = s.excerpt source ∧
          s'.move (.shift s.span.start.offset) = s ∧
          (tokenize text file).2.map (·.move (.shift s.span.start.offset)) <:+:
            (tokenize source file).2) := by
  intro s hs
  obtain ⟨hon, -⟩ := on_ofTokens source file file'
  obtain ⟨-, -, hall⟩ := Grammar.allRead_program _ file' _ hon b c h
  obtain ⟨d, d', hd, hrun⟩ := hall s hs
  obtain ⟨us, first, last, hus, hfirst, hlast, hspan⟩ := Grammar.span_statement hd.ended hrun
  have hsplit : (tokenize source file).1 = d.passed.reverse ++ (us ++ d'.rest) := by
    rw [← hus.rest]
    exact hd.tokens.symm
  obtain ⟨start, stop, hstart, hstop, hlength, hinside, ts, e, htokens, he, hts, hmoved,
    hreports⟩ := exists_tokenize_excerpt hsplit (List.cons_ne_nil _ _) hfirst hlast
  rw [hstart, hstop] at hspan
  -- Whatever takes the tokens of the text to those of the source takes what is read along.
  have halone (m : Position → Position) (hm : ts.map (·.move m) = us) : ∃ s' span c',
      parse (tokenize (excerpt source start stop) file).1 file' = .ok (.mk [s'] span) c' ∧
        s'.move m = s := by
    subst hm
    obtain ⟨s', c', hreads, hs'⟩ := StatementsTo.alone file' he hts hd.ended hrun hus
    rw [htokens]
    exact ⟨s', _, c', parse_eq_ok_iff.mpr ⟨hreads, rfl⟩, hs'⟩
  obtain ⟨s', span, c', hparse, hs'⟩ := halone _ hmoved
  refine ⟨start, stop, hspan, by omega, hinside, s', span, c', hparse, hs', hreports,
    fun hsize => ?_⟩
  -- Where 32 bits can count the source, this is also what a shift without bounds does.
  have hagree (p : Position) (hp : p.offset ≤ (excerpt source start stop).utf8ByteSize) :
      p.shiftWrap start = p.shift start :=
    Position.shiftWrap_of_lt (by omega)
  obtain ⟨hsame, hsame'⟩ := move_tokenize_congr _ file hagree
  rw [Position.ofByte_of_lt file (show start < 0x100000000 by omega),
    Position.ofByte_of_lt file (show stop < 0x100000000 by omega)] at hspan
  rw [hsame'] at hreports
  rw [htokens, List.map_append, List.map_append] at hsame
  obtain ⟨s'', span', c'', hparse', hs''⟩ :=
    halone _ ((List.append_inj_left' hsame rfl).symm.trans hmoved)
  rw [hparse] at hparse'
  cases hparse'
  rw [Stmt.excerpt, hspan]
  exact ⟨rfl, hs'', hreports⟩

/-- The statement in a function that is an argument in the body of a loop. -/
theorem parse_excerpt_return :
    let source := "for ; a; \x7b b(function() \x7b return; \x7d); \x7d"
    ∃ b c, parse (tokenize source "f").1 "f" = .ok b c ∧
      ∃ s ∈ b.nodes, s.excerpt source = "return;" ∧ ∃ s' span c',
        parse (tokenize (s.excerpt source) "f").1 "f" = .ok (.mk [s'] span) c' ∧
        s'.move (.shift s.span.start.offset) = s ∧
        (tokenize (s.excerpt source) "f").2.map (·.move (.shift s.span.start.offset)) <:+:
          (tokenize source "f").2 := by
  intro source
  have hinside : (resultOf? (parse (tokenize source "f").1 "f")).map
      (fun program => program.nodes.any fun s => s.excerpt source = "return;") = some true := by
    decide +kernel
  obtain ⟨b, hprogram, hany⟩ := Option.map_eq_some_iff.mp hinside
  obtain ⟨c, h⟩ := exists_eq_ok_of_resultOf? hprogram
  obtain ⟨s, hs, hexcerpt⟩ := List.any_eq_true.mp hany
  obtain ⟨start, stop, -, -, -, s', span, c', hparse, -, -, hbounded⟩ := parse_excerpt h s hs
  obtain ⟨htext, hshift, hreports⟩ := hbounded (by decide)
  rw [htext] at hparse hreports
  exact ⟨b, c, h, s, hs, of_decide_eq_true hexcerpt, s', span, c', hparse, hshift, hreports⟩

/-- Behind more blanks than 32 bits can count, the text under the span of a statement is not its
own: here these are two of the blanks, and no statement. -/
theorem parse_excerpt_wraps :
    let source := String.ofList (List.replicate 0x100000000 ' ') ++ "x;"
    ∃ b c, parse (tokenize source "f").1 "f" = .ok b c ∧ ∃ s ∈ b.nodes,
      s.excerpt source = "  " ∧ ∀ s' span c',
        parse (tokenize (s.excerpt source) "f").1 "f" ≠ .ok (.mk [s'] span) c' := by
  intro source
  have hsame : tokenize source "f" = tokenize "x;" "f" :=
    tokenize_behind_layout (.replicate_space _) (Text.size_replicate_space _) "x;" "f"
  have hslice : excerpt source 0 2 = "  " := by
    have hsplit : List.replicate 0x100000000 ' ' = [' ', ' '] ++ List.replicate 0xFFFFFFFE ' ' :=
      List.replicate_add 2 0xFFFFFFFE ' '
    have htext : source.toList =
        [] ++ ([' ', ' '] ++ (List.replicate 0xFFFFFFFE ' ' ++ "x;".toList)) := by
      rw [String.toList_append, String.toList_ofList, hsplit, List.append_assoc, List.nil_append]
    have hsize : Text.size [' ', ' '] = 2 := by decide
    have htwo := Text.slice_append [] [' ', ' '] (List.replicate 0xFFFFFFFE ' ' ++ "x;".toList)
    rw [Text.size_nil, Nat.zero_add, hsize, ← htext] at htwo
    rw [excerpt, htwo]
  clear_value source
  have hstatement : (resultOf? (parse (tokenize "x;" "f").1 "f")).map
      (fun program => program.nodes.map (·.span)) = some [⟨⟨0, "f"⟩, ⟨2, "f"⟩⟩] := by
    decide +kernel
  have hnone : (resultOf? (parse (tokenize "  " "f").1 "f")).map (·.body.length) = some 0 := by
    decide +kernel
  obtain ⟨program, hprogram, hspans⟩ := Option.map_eq_some_iff.mp hstatement
  obtain ⟨last, hparse⟩ := exists_eq_ok_of_resultOf? hprogram
  obtain ⟨s, hnodes, hspan⟩ := List.map_eq_singleton_iff.mp hspans
  have hexcerpt : s.excerpt source = "  " := by rw [Stmt.excerpt, hspan, hslice]
  rw [hsame]
  refine ⟨program, last, hparse, s, by rw [hnodes]; exact List.mem_singleton_self s, hexcerpt, ?_⟩
  intro s' span c' hone
  rw [hexcerpt] at hone
  rw [hone] at hnone
  cases hnone

end Scriptlet
