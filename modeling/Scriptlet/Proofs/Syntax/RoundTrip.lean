import Scriptlet.Proofs.Syntax.StatementReading
import Scriptlet.Proofs.Syntax.WellFormed

namespace Scriptlet

open Scriptlet.Parser

theorem Grammar.readsTo_program {body : List Stmt} {ts : List Token} {last : Token} {c : Cursor}
    (h : Chained (Stmt.Spelled .strict) body ts) (hlast : last.kind = .eof)
    (hc : c.rest = ts ++ [last]) (file : String) :
    ReadsTo (Grammar.standard.program file) c [last]
      (fun b => b.body.map Stmt.unplaced = body.map Stmt.unplaced) := by
  have hfirst : Begins (Stmt.Spelled .strict)
      (fun t => decide (t.kind = .eof) = false ∧ t.kind ≠ .elseWord) := by
    intro s ts hs
    obtain ⟨t, us, rfl, heof, -, helse⟩ := hs.head
    exact ⟨t, us, rfl, decide_eq_false heof, helse⟩
  apply (readsTo_repetitions hc).next
  intro c hc
  apply (readsTo_manyUntil (Grammar.readsSpelled_statement ts.length) hfirst h (Nat.le_refl _)
    (decide_eq_true hlast) (by rw [hlast]; decide) hc (Nat.le_of_eq (by rw [hc]))).bind
  intro body' c hbody' hc
  apply (readsTo_get hc).bind
  intro _ c _ hc
  exact readsTo_pure hc hbody'

/-- Writing and then reading a program is the identity. Parentheses may stand around any expression
as long as they stand where a weaker one would be read differently, and a comma behind the last item
of any list. -/
theorem parse_written {b : Block} (h : b.WellFormed) (file : String) :
    (∃ ts, Chained (Stmt.Spelled .strict) b.body ts) ∧
      ∀ (ts : List Token) (last : Token), Chained (Stmt.Spelled .strict) b.body ts →
        last.kind = .eof →
        ∃ b' c, parse (ts ++ [last]) file = .ok b' c ∧ b'.unplaced = b.unplaced := by
  obtain ⟨hbody⟩ := h
  refine ⟨exists_chained fun s hs => (hbody s hs).exists_spelled, ?_⟩
  intro ts last hts hlast
  obtain ⟨⟨body', s'⟩, c, hread, -, hbody'⟩ :=
    Grammar.readsTo_program hts hlast (Cursor.rest_ofTokens file ts hlast) file
  refine ⟨_, c, hread, ?_⟩
  change body'.map Stmt.unplaced = _ at hbody'
  simp only [Block.respan_mk, hbody', Block.body]

/-- The program `1 - (2 - x);`, whose parentheses are needed. -/
theorem parse_written_subtraction :
    let minus : Token := ⟨.dash, "-", default⟩
    let b : Block := .mk [.expression (.binary minus (.int 1 default)
      (.binary minus (.int 2 default) (.symbol "x" default) default) default) default] default
    (∃ ts, Chained (Stmt.Spelled .strict) b.body ts) ∧
      ∀ (ts : List Token) (last : Token), Chained (Stmt.Spelled .strict) b.body ts →
        last.kind = .eof →
        ∃ b' c, parse (ts ++ [last]) "f" = .ok b' c ∧ b'.unplaced = b.unplaced := by
  refine parse_written (.mk ?_) "f"
  intro s hs
  obtain rfl := List.mem_singleton.mp hs
  exact .expression (.binary rfl (.int (by decide))
    (.binary rfl (.int (by decide)) (.symbol (.inl (by decide)))))

end Scriptlet
