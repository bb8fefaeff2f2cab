import Scriptlet.Bytecode.Compile
import Scriptlet.Proofs.Syntax.StatementPlacing
import Scriptlet.Proofs.Typing.Placement

namespace Scriptlet

open Region

namespace Bytecode

variable {M : Position → Prop} {d : Diagnostic}

/-- What has no bytecode is reported at the edge of an expression. -/
theorem position_of_ofExpr {e : Expr} (h : e.region.Marked M) (herror : ofExpr e = .error d) :
    M d.position := by
  induction e using ofExpr.induct with
  | case1 value span operand hbyte =>
    rw [ofExpr, hbyte] at herror
    cases herror
  | case2 value span hbyte =>
    rw [ofExpr, hbyte] at herror
    cases herror
    exact h.start
  | case3 operator left right span op hop ihleft ihright =>
    simp only [Expr.region, marked_node, List.forall_mem_cons] at h
    obtain ⟨-, -, hleft, -, hright, -⟩ := h
    rw [ofExpr, hop] at herror
    rcases bind_eq_error_iff.mp herror with herror | ⟨first, -, herror⟩
    · exact ihleft hleft herror
    · rcases bind_eq_error_iff.mp herror with herror | ⟨second, -, herror⟩
      · exact ihright hright herror
      · cases herror
  | case4 operator left right span hop =>
    simp only [Expr.region, marked_node, List.forall_mem_cons] at h
    obtain ⟨-, -, -, hoperator, -⟩ := h
    rw [ofExpr, hop] at herror
    cases herror
    -- An operator without an opcode is blamed itself, before its operands are compiled.
    exact hoperator.start
  | case5 e hint hbinary =>
    rw [ofExpr] at herror
    · cases herror
      exact Expr.marked_start h
    · exact hint
    · exact hbinary

mutual

theorem position_of_ofStmt (s : Stmt) (h : s.region.Marked M) (herror : ofStmt s = .error d) :
    M d.position := by
  match s with
  | .expression e _ =>
    simp only [Stmt.region, marked_node, List.forall_mem_cons] at h
    rw [ofStmt] at herror
    rcases bind_eq_error_iff.mp herror with herror | ⟨code, -, herror⟩
    · exact position_of_ofExpr h.2.2.1 herror
    · cases herror
  | .block (.mk body _) =>
    rw [Stmt.region, Block.region, marked_node] at h
    rw [ofStmt] at herror
    exact position_of_ofStmts body h.2.2 herror
  | .varDecl .. | .fnDecl .. | .classDecl .. | .branch .. | .loop .. | .ret .. | .importDecl .. =>
    cases herror
    exact Stmt.marked_start h

theorem position_of_ofStmts (ss : List Stmt) (h : ∀ r ∈ Stmt.regions ss, r.Marked M)
    (herror : ofStmts ss = .error d) : M d.position := by
  match ss with
  | [] => cases herror
  | s :: ss =>
    rw [Stmt.regions, List.forall_mem_cons] at h
    rw [ofStmts] at herror
    rcases bind_eq_error_iff.mp herror with herror | ⟨first, -, herror⟩
    · exact position_of_ofStmt s h.1 herror
    · rcases bind_eq_error_iff.mp herror with herror | ⟨code, -, herror⟩
      · exact position_of_ofStmts ss h.2 herror
      · cases herror

end

end Bytecode

section Program

variable {source file : String} {b : Block} {c : Cursor} {d : Diagnostic}

/-- The block is a program of the source that has these tokens: it goes from the beginning to the
end of a token, and its nodes from token to token, those of a node inside it and one behind the
other. -/
structure Block.Fits (source file : String) (ts : List Token) (b : Block) : Prop where
  start : b.span.start = ⟨0, file⟩
  stop : ∃ t ∈ ts, b.span.stop = t.span.stop
  within : b.span.Within source file
  encloses : b.span.Encloses (Stmt.regions b.body)
  nests : ∀ r ∈ Stmt.regions b.body, r.Nests source file ts

theorem fits_of_parse (hsize : source.utf8ByteSize < 0x100000000)
    (h : parse (tokenize source file).1 file = .ok b c) :
    b.Fits source file (tokenize source file).1 := by
  have hstream := stream_tokenize hsize file
  obtain ⟨hon, -⟩ := on_ofTokens source file file
  obtain ⟨hc, -, hamong, hspan⟩ := Grammar.places_program file _ hon b c h
  -- A program without statements ends where the end of the text begins.
  obtain ⟨j, t, hj, ht, hstop⟩ : ∃ j t, c.index ≤ j + 1 ∧ (tokenize source file).1[j]? = some t ∧
      c.lastEnd = t.span.stop := by
    cases hpassed : c.passed with
    | nil =>
      have hindex : c.index = 0 := by rw [Cursor.index, hpassed]; rfl
      have hcurrent := hc.current
      rw [hindex] at hcurrent
      have hends := hstream.ends _ (List.mem_of_getElem? hcurrent) (Grammar.kind_of_program h)
      refine ⟨0, c.current, by omega, hcurrent, ?_⟩
      rw [Cursor.lastEnd, hpassed]
      exact hends
    | cons u us =>
      have hpos : 0 < c.index := by rw [Cursor.index, hpassed]; exact Nat.succ_pos _
      obtain ⟨t, ht, hstop⟩ := hc.lastEnd hpos
      exact ⟨c.index - 1, t, by omega, ht, hstop⟩
  have hmem := List.mem_of_getElem? ht
  rw [hstop] at hspan
  refine ⟨by rw [hspan], ⟨t, hmem, by rw [hspan]⟩, ?_, ⟨fun r hr => ?_, ?_⟩, ?_⟩
  · rw [hspan]
    exact ⟨⟨rfl, (hstream.files t hmem).2⟩, Nat.zero_le _, hstream.within t hmem⟩
  · obtain ⟨i, k, first, last, -, hk, -, hlast, hbounds⟩ := hamong.bounds r hr
    rw [hspan, hbounds]
    exact ⟨Nat.zero_le _, hstream.stop_le_stop (by omega) hlast ht⟩
  · exact (hamong.nests hstream).2
  · exact (hamong.nests hstream).1

/-- In every source, the edges of a program's nodes are those of its tokens. -/
theorem marked_of_parse (h : parse (tokenize source file).1 file = .ok b c) :
    ∀ r ∈ Stmt.regions b.body, r.Marked (Edge (tokenize source file).1) := by
  obtain ⟨hon, -⟩ := on_ofTokens source file file
  obtain ⟨-, -, hamong, -⟩ := Grammar.places_program file _ hon b c h
  exact hamong.marked

/-- What the passes report about a source. A program is checked, and compiled, if it can be read. -/
inductive Reported (source file : String) : Diagnostic → Prop
  | scanning {d : Diagnostic} : d ∈ (tokenize source file).2 → Reported source file d
  | reading {d : Diagnostic} {c : Cursor} :
    parse (tokenize source file).1 file = .error d c → Reported source file d
  | checking {d : Diagnostic} {b : Block} {c : Cursor} {context : Typing.Context} :
    parse (tokenize source file).1 file = .ok b c → typecheck b = .error d context →
      Reported source file d
  | compiling {d : Diagnostic} {b : Block} {c : Cursor} :
    parse (tokenize source file).1 file = .ok b c → compile b = .error d → Reported source file d

theorem edge_of_parse_error (h : parse (tokenize source file).1 file = .error d c) :
    Edge (tokenize source file).1 d.position := by
  obtain ⟨front, last, htokens, hlast⟩ := exists_tokenize_eq_concat source file
  rw [htokens] at h ⊢
  obtain ⟨t, ht, hposition, -⟩ := (FirstWrong.of_ended hlast h).blamed
  exact ⟨t, List.mem_of_getElem? ht, .inl hposition⟩

theorem edge_or_unrecognised (h : Reported source file d) :
    Edge (tokenize source file).1 d.position ∨ Unrecognised source file d.position := by
  cases h with
  | scanning h =>
    rcases start_or_unrecognised h with ⟨t, ht, hposition⟩ | hnone
    · exact .inl ⟨t, ht, .inl hposition⟩
    · exact .inr hnone
  | reading h => exact .inl (edge_of_parse_error h)
  | checking h herror =>
    exact .inl (Typing.position_of_typecheck (marked_of_parse h) herror)
  | compiling h herror =>
    exact .inl (Bytecode.position_of_ofStmts _ (marked_of_parse h) herror)

end Program

/-- The nodes of a program nest in its source, if 32 bits can count that, and whatever is reported
about a source is inside of it, where a token begins or ends or where a character stands that begins
none. -/
theorem placed_in_source (source file : String) :
    (source.utf8ByteSize < 0x100000000 → ∀ b c, parse (tokenize source file).1 file = .ok b c →
      b.Fits source file (tokenize source file).1) ∧
    ∀ d, Reported source file d →
      d.position.file = file ∧ d.position.offset ≤ source.utf8ByteSize ∧
        (Edge (tokenize source file).1 d.position ∨ Unrecognised source file d.position) := by
  refine ⟨fun hsize b c => fits_of_parse hsize, fun d hd => ?_⟩
  have hplace := edge_or_unrecognised hd
  have hinside : d.position.Inside source file := by
    rcases hplace with hedge | hnone
    · exact hedge.inside
    · exact hnone.inside
  exact ⟨hinside.file_eq, hinside.offset_le, hplace⟩

/-- A program whose left operand stands in parentheses, with a character that begins no token, and
with a call of what is no function. -/
def callOfList : String := "let a = [(1 - 2) * 3];\n@ a(4);"

/-- It can be read, and both scanning and checking report something inside of it. -/
theorem placed_in_source_callOfList :
    callOfList.utf8ByteSize < 0x100000000 ∧ ∃ b c d d',
      parse (tokenize callOfList "f").1 "f" = .ok b c ∧
      b.Fits callOfList "f" (tokenize callOfList "f").1 ∧
      Reported callOfList "f" d ∧ d.position = ⟨23, "f"⟩ ∧ 23 ≤ callOfList.utf8ByteSize ∧
      Reported callOfList "f" d' ∧ d'.position = ⟨25, "f"⟩ ∧
      (Edge (tokenize callOfList "f").1 ⟨25, "f"⟩ ∨ Unrecognised callOfList "f" ⟨25, "f"⟩) := by
  obtain ⟨hfits, hreports⟩ := placed_in_source callOfList "f"
  have hsize : callOfList.utf8ByteSize < 0x100000000 := by decide
  have hscan : ∃ d ∈ (tokenize callOfList "f").2, d.position = ⟨23, "f"⟩ := by decide +kernel
  have hcheck : (match parse (tokenize callOfList "f").1 "f" with
      | .ok b _ => match typecheck b with
        | .ok _ _ => false
        | .error d _ => decide (d.position = ⟨25, "f"⟩)
      | .error _ _ => false) = true := by
    decide +kernel
  obtain ⟨d, hd, hposition⟩ := hscan
  have hd : Reported callOfList "f" d := .scanning hd
  split at hcheck
  · rename_i b c hparse
    split at hcheck
    · cases hcheck
    · rename_i d' context herror
      have hd' : Reported callOfList "f" d' := .checking hparse herror
      have hposition' := of_decide_eq_true hcheck
      have hinside := (hreports d hd).2.1
      have hplace' := (hreports d' hd').2.2
      rw [hposition] at hinside
      rw [hposition'] at hplace'
      exact ⟨hsize, b, c, d, d', hparse, hfits hsize b c hparse, hd, hposition, hinside, hd',
        hposition', hplace'⟩
  · cases hcheck

end Scriptlet
