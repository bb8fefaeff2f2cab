import Scriptlet.Proofs.Syntax.StatementTaking
import Scriptlet.Proofs.Token.Scanner

namespace Scriptlet

open Scriptlet.Parser

namespace Cursor

theorem proper_endToken (position : Position) : (endToken position).Proper :=
  Token.proper_of_kind (k := .eof) rfl rfl (by decide)

/-- The tokens a cursor begins with are those given and, where they lack one, an end. -/
theorem exists_rest_ofTokens (file : String) (ts : List Token) :
    ∃ us, (ofTokens file ts).rest = ts ++ us ∧ (∀ t ∈ us, t.kind = .eof ∧ t.Proper) ∧
      ∀ t ∈ (ts ++ us).getLast?, t.kind = .eof := by
  cases ts with
  | nil =>
    refine ⟨[endToken ⟨0, file⟩], rfl, ?_, ?_⟩
    · rintro t ht
      rw [List.mem_singleton.mp ht]
      exact ⟨rfl, proper_endToken _⟩
    · rintro t ⟨⟩
      rfl
  | cons t ts =>
    by_cases hlast : (ts.getLast?.getD t).kind = .eof
    · refine ⟨[], ?_, by simp, ?_⟩
      · rw [rest, ofTokens]
        simp [hlast]
      · intro u hu
        rw [List.append_nil, List.getLast?_cons] at hu
        rwa [← Option.some.inj hu]
    · refine ⟨[endToken (ts.getLast?.getD t).span.stop], ?_, ?_, ?_⟩
      · rw [rest, ofTokens]
        simp [hlast]
      · rintro u hu
        rw [List.mem_singleton.mp hu]
        exact ⟨rfl, proper_endToken _⟩
      · intro u hu
        rw [List.getLast?_concat] at hu
        rw [← Option.some.inj hu]
        rfl

theorem proper_ofTokens {ts : List Token} (h : ∀ t ∈ ts, t.Proper) (file : String) :
    (ofTokens file ts).Proper := by
  obtain ⟨us, hrest, hus, hlast⟩ := exists_rest_ofTokens file ts
  refine ⟨fun t ht => ?_, by rwa [hrest]⟩
  rw [hrest] at ht
  exact (List.mem_append.mp ht).elim (h t) fun ht => (hus t ht).2

end Cursor

namespace Parser

theorem stops_of_manyUntil {α : Type} {stops : Kind → Bool} {item : Parser α} {limit : Nat}
    {c c' : Cursor} {as : List α} (h : manyUntil stops item limit c = .ok as c') :
    stops c'.kind = true := by
  induction limit generalizing c as with
  | zero => cases h
  | succ limit ih =>
    rw [manyUntil, bind_run_ok (kind_run c)] at h
    split at h
    · rename_i hstop
      cases h
      exact hstop
    · obtain ⟨a, c₁, -, h⟩ := bind_run_eq_ok_iff.mp h
      obtain ⟨as', c₂, has, h⟩ := bind_run_eq_ok_iff.mp h
      cases h
      exact ih has

end Parser

namespace Grammar

theorem takes_statement (c : Cursor) :
    Takes Grammar.standard.statement c (Stmt.Spelled .free) :=
  fun hc s c' h => (Grammar.level_takes (2 * c.ahead.length + 4)).statement c hc s c' h

theorem takes_program (file : String) (c : Cursor) :
    Takes (Grammar.standard.program file) c
      (fun b ts => Chained (Stmt.Spelled .free) b.body ts) := by
  refine .look (repetitions_run c) ?_
  apply (takes_manyUntil _ Grammar.takes_statement _ c).bind
  intro body c ts hbody
  refine .look (get_run c) (.pure ?_)
  rwa [List.append_nil]

/-- A program goes on to the end of the text. -/
theorem kind_of_program {file : String} {c c' : Cursor} {b : Block}
    (h : Grammar.standard.program file c = .ok b c') : c'.current.kind = .eof := by
  rw [program, bind_run_ok (repetitions_run c)] at h
  obtain ⟨body, c₁, hbody, h⟩ := bind_run_eq_ok_iff.mp h
  rw [get_bind_run] at h
  cases h
  exact of_decide_eq_true (stops_of_manyUntil hbody)

end Grammar

/-- Where the items that satisfy `p` stop, seen from two ways to split a list. -/
theorem takeWhile_eq_of_append {α : Type} {p : α → Bool} {xs us ts vs : List α} {t : α}
    (h : xs ++ us = ts ++ t :: vs) (hts : ∀ a ∈ ts, p a = true) (ht : p t = false)
    (hus : ∀ a ∈ us, p a = false) : xs.takeWhile p = ts := by
  have hall : (xs ++ us).takeWhile p = ts := by
    rw [h, List.takeWhile_append_of_pos hts, List.takeWhile_cons_of_neg (by rw [ht]; decide),
      List.append_nil]
  have hnone : us.takeWhile p = [] := by
    cases us with
    | nil => rfl
    | cons u us =>
      exact List.takeWhile_cons_of_neg (by rw [hus u List.mem_cons_self]; decide)
  rw [List.takeWhile_append, hnone] at hall
  split at hall
  · rename_i hlen
    rw [(List.takeWhile_prefix p).eq_of_length hlen, ← hall, List.append_nil]
  · exact hall

/-- The tokens of a program that is accepted, up to the end of the text, spell its tree. What the
tree does not say is which parentheses stood around an expression, whether a comma followed the last
item of a list, and whether the header of a loop without first and last clause had its semicolons.
-/
theorem spelled_of_parse {source file file' : String} {b : Block} {c : Cursor}
    (h : parse (tokenize source file).1 file' = .ok b c) :
    Chained (Stmt.Spelled .free) b.body
      ((tokenize source file).1.takeWhile fun t => t.kind ≠ .eof) := by
  obtain ⟨us, hrest, hus, hlast⟩ := Cursor.exists_rest_ofTokens file' (tokenize source file).1
  have hproper : (Cursor.ofTokens file' (tokenize source file).1).Proper := by
    refine ⟨fun t ht => ?_, by rwa [hrest]⟩
    rw [hrest] at ht
    exact (List.mem_append.mp ht).elim (proper_tokenize source file t) fun ht => (hus t ht).2
  obtain ⟨ts, hts, hend, hspelled⟩ := Grammar.takes_program file' _ hproper b c h
  have htake := takeWhile_eq_of_append (p := fun t : Token => t.kind ≠ .eof) (hrest.symm.trans hts)
    (fun t ht => decide_eq_true (hend t ht))
    (decide_eq_false (Decidable.not_not.mpr (Grammar.kind_of_program h)))
    (fun t ht => decide_eq_false (Decidable.not_not.mpr (hus t ht).1))
  rwa [htake]

/-- A program whose tree keeps neither its parentheses nor its last comma. -/
theorem spelled_of_parse_loop :
    ∃ b c, parse (tokenize "for ; a; \x7b b((1), 2,); \x7d" "f").1 "f" = .ok b c ∧
      Chained (Stmt.Spelled .free) b.body
        ((tokenize "for ; a; \x7b b((1), 2,); \x7d" "f").1.takeWhile fun t => t.kind ≠ .eof) := by
  have hok : (match parse (tokenize "for ; a; \x7b b((1), 2,); \x7d" "f").1 "f" with
      | .ok _ _ => true
      | .error _ _ => false) = true := by
    decide +kernel
  split at hok
  · rename_i b c h
    exact ⟨b, c, h, spelled_of_parse h⟩
  · cases hok

end Scriptlet
