import Scriptlet.Proofs.Syntax.Soundness
import Scriptlet.Proofs.Syntax.StatementViability

namespace Scriptlet

open Scriptlet.Parser

namespace Cursor

/-- The place of the current token in its sequence. -/
def index (c : Cursor) : Nat := c.passed.length

theorem passed_ofTokens (file : String) (ts : List Token) : (ofTokens file ts).passed = [] := by
  cases ts <;> rfl

/-- A cursor on the first token comes to every token of its sequence. -/
theorem exists_passes_ofTokens (file : String) (u : List Token) (t : Token) (ts : List Token) :
    ∃ c, (ofTokens file (u ++ t :: ts)).Passes u c ∧ c.current = t := by
  obtain ⟨us, hrest, -⟩ := exists_rest_ofTokens file (u ++ t :: ts)
  refine ⟨⟨u.reverse, t, ts ++ us⟩, ⟨?_, ?_⟩, rfl⟩
  · rw [hrest, List.append_assoc]
    rfl
  · rw [passed_ofTokens, List.append_nil]

theorem Passes.index_ofTokens {file : String} {ts u : List Token} {c : Cursor}
    (h : (ofTokens file ts).Passes u c) : c.index = u.length := by
  rw [index, h.passed, passed_ofTokens, List.append_nil, List.length_reverse]

end Cursor

namespace Grammar

/-- At every cursor there are levels enough for a statement. -/
theorem phrase_statement :
    Phrase () (fun _ _ => True) 1 (· ≠ .elseWord) [.openCurly, .closeCurly]
      fun _ => Grammar.standard.statement := by
  have hlevel (j : Unit) (c : Cursor) (_ : True) :
      Cursor.Room 2 (2 * c.ahead.length + 4) c ∧ Grammar.standard.statement c =
        (Grammar.standard.level (2 * c.ahead.length + 4)).statement c :=
    ⟨by rw [Cursor.Room, Cursor.length_rest]; omega, rfl⟩
  exact ⟨.reindex (fun c _ => (parts_level _).statement.viable) hlevel,
    (parts_level 0).statement.completes.reindex hlevel⟩

/-- The statements of a program. -/
def statements (g : Grammar) : Parser (List Stmt) :=
  repetitions >>= manyUntil (· = .eof) g.statement

theorem program_run (file : String) (c : Cursor) :
    Grammar.standard.program file c = (do
      let body ← Grammar.standard.statements
      return .mk body ⟨⟨0, file⟩, (← get).lastEnd⟩ : Parser Block) c := by
  rw [program, statements, bind_assoc]

theorem phrase_statements :
    Phrase () (fun _ _ => True) 0 (fun k => decide (k = .eof) = true) []
      fun _ => Grammar.standard.statements := by
  refine phrase_manyUntil (fun _ _ _ _ _ _ _ => trivial) phrase_statement ?_
  rintro k hk rfl
  revert hk
  decide

end Grammar

theorem parse_eq_error_iff {ts : List Token} {file : String} {d : Diagnostic} {c : Cursor} :
    parse ts file = .error d c ↔
      Grammar.standard.statements (Cursor.ofTokens file ts) = .error d c := by
  change Grammar.standard.program file (Cursor.ofTokens file ts) = _ ↔ _
  rw [Grammar.program_run]
  cases h : Grammar.standard.statements (Cursor.ofTokens file ts) with
  | error d' c' => rw [bind_run_error h]; exact ⟨fun h => by cases h; rfl, fun h => by cases h; rfl⟩
  | ok body c' => rw [bind_run_ok h]; exact ⟨nofun, nofun⟩

theorem exists_parse_eq_ok {ts : List Token} {file : String} {body : List Stmt} {c : Cursor}
    (h : Grammar.standard.statements (Cursor.ofTokens file ts) = .ok body c) :
    ∃ b, parse ts file = .ok b c := by
  change ∃ b, Grammar.standard.program file (Cursor.ofTokens file ts) = _
  rw [Grammar.program_run, bind_run_ok h]
  exact ⟨_, rfl⟩

/-- Tokens that some kinds of tokens complete are the beginning of a program. -/
theorem exists_completion {u : List Token} {w : List Kind}
    (h : ∀ v, v.map Token.kind = w → Yields (fun _ _ => True)
      (fun _ : Unit => Grammar.standard.statements) [] (u ++ v)
      (fun t => decide (t.kind = .eof) = true) (Succeeds fun _ => True)) :
    ∃ vs, ∀ file, ∃ b c, parse (u ++ vs) file = .ok b c := by
  refine ⟨w.map Kind.token ++ [Kind.eof.token], fun file => ?_⟩
  rw [← List.append_assoc]
  obtain ⟨c, hc, hcurrent⟩ :=
    Cursor.exists_passes_ofTokens file (u ++ w.map Kind.token) Kind.eof.token []
  obtain ⟨body, -, hbody⟩ := h _ (Kind.map_token w) () _ c (Cursor.passed_ofTokens _ _) hc
    (by rw [hcurrent]; rfl) trivial
  obtain ⟨b, hb⟩ := exists_parse_eq_ok hbody
  exact ⟨b, c, hb⟩

/-- The tokens are no program because of the one at place `i`, as the diagnostic says. -/
structure FirstWrong (ts : List Token) (i : Nat) (d : Diagnostic) : Prop where
  /-- The diagnostic stands at the token and names it. -/
  blamed : ∃ t, ts[i]? = some t ∧ d.position = t.span.start ∧ d.fault.token? = some t.value
  /-- Whatever stands behind the token, there is the same diagnostic at the same place. -/
  rejected : ∀ us file, ts.take (i + 1) <+: us → ∃ c, parse us file = .error d c ∧ c.index = i
  /-- The tokens before it are the beginning of a program. -/
  accepted : ∃ us, ∀ file, ∃ b c, parse (ts.take i ++ us) file = .ok b c

theorem FirstWrong.of_ended {front : List Token} {last : Token} (hlast : last.kind = .eof)
    {file : String} {d : Diagnostic} {c : Cursor}
    (h : parse (front ++ [last]) file = .error d c) :
    FirstWrong (front ++ [last]) c.index d := by
  have hrest := Cursor.rest_ofTokens file front hlast
  have hended : (Cursor.ofTokens file (front ++ [last])).Ended := by
    intro t ht
    rw [hrest, List.getLast?_concat] at ht
    rwa [← Option.some.inj ht]
  have hstatements := Grammar.phrase_statements
  obtain ⟨u, hu, hd, herror, hw⟩ := hstatements.viable.error hended trivial trivial
    (parse_eq_error_iff.mp h)
  rw [Cursor.passed_ofTokens] at herror hw
  have hsplit : front ++ [last] = u ++ c.current :: c.ahead := hrest.symm.trans hu.rest
  rw [hsplit, hu.index_ofTokens]
  refine ⟨⟨c.current, by simp, hd.position, hd.token⟩, ?_, ?_⟩
  · rintro us file' ⟨vs, rfl⟩
    rw [List.take_length_add_append, List.take_succ_cons, List.take_zero, List.append_assoc,
      List.singleton_append]
    obtain ⟨c', hc', hcurrent⟩ := Cursor.exists_passes_ofTokens file' u c.current vs
    have hrun := herror () _ c' (Cursor.passed_ofTokens _ _) hc' hcurrent trivial
    exact ⟨c', parse_eq_error_iff.mpr hrun, hc'.index_ofTokens⟩
  · rw [List.take_left]
    -- No statement has begun, or the one that has can be completed.
    cases u with
    | nil => exact exists_completion (hstatements.completes [])
    | cons t ts =>
      obtain ⟨w, hw⟩ := hw (List.cons_ne_nil _ _)
      exact exists_completion hw

/-- A source is rejected at the first of its tokens that cannot stand where it does. -/
theorem firstWrong_of_parse_error {source file file' : String} {d : Diagnostic} {c : Cursor}
    (h : parse (tokenize source file).1 file' = .error d c) :
    FirstWrong (tokenize source file).1 c.index d := by
  obtain ⟨front, last, htokens, hlast⟩ := exists_tokenize_eq_concat source file
  rw [htokens] at h ⊢
  exact .of_ended hlast h

/-- The type behind the empty brackets is not followed by the items. -/
theorem firstWrong_of_parse_error_list :
    ∃ d c, parse (tokenize "f(function(a: int) \x7b let b = []int \x7d);" "f").1 "f" = .error d c ∧
      c.index = 15 ∧
      FirstWrong (tokenize "f(function(a: int) \x7b let b = []int \x7d);" "f").1 c.index d := by
  have hindex : (match parse
      (tokenize "f(function(a: int) \x7b let b = []int \x7d);" "f").1 "f" with
      | .ok _ _ => false
      | .error _ c => decide (c.index = 15)) = true := by
    decide +kernel
  split at hindex
  · cases hindex
  · rename_i d c h
    exact ⟨d, c, h, of_decide_eq_true hindex, firstWrong_of_parse_error h⟩

end Scriptlet
