import Scriptlet.Proofs.Syntax.ExpressionTaking

namespace Scriptlet

open Scriptlet.Parser

/-- The kind of a statement's first token, where a rule has only one. -/
theorem Grammar.kind_of_statementRule {k : Kind} {rule : StatementRule}
    (h : Grammar.standard.statementRule k = some rule) :
    (rule = .importDecl → k = .importWord) ∧ (rule = .branch → k = .ifWord) ∧
      (rule = .loop → k = .forWord) ∧ (rule = .fnDecl → k = .functionWord) ∧
      (rule = .classDecl → k = .classWord) ∧ (rule = .ret → k = .returnWord) := by
  revert h
  cases k <;> cases rule <;> decide

namespace Level.Takes

variable {below : Level} {c : Cursor}

theorem readExpressionStatement (hb : below.Takes) (c : Cursor) :
    Parser.Takes (StatementRule.readExpression below) c (Stmt.Spelled .free) := by
  refine .look (get_run c) ?_
  apply (hb.whole c).bind
  intro e c ts he
  apply (takes_expect_is (by decide)).next
  intro semicolon c hsemicolon
  exact .look (spanFrom_run _ c) (.pure (.expression he hsemicolon))

theorem readInitializer (hb : below.Takes) (typed : Bool) (c : Cursor) :
    Parser.Takes (StatementRule.readInitializer below typed) c (fun value ts =>
      Introduced .assign (Expr.Spelled .free Power.default.rank) value ts ∧
        (typed = true ∨ value.isSome)) := by
  refine .look (kind_run c) ?_
  split
  · apply (takes_expect_is (by decide)).next
    intro t c ht
    apply (hb.whole c).map
    intro e ts he
    exact ⟨.some ht he, .inr rfl⟩
  · split
    · rename_i htyped
      exact .pure ⟨.none, .inl htyped⟩
    · exact .of_error (unexpectedFor_run _ c)

theorem takes_require {condition : Bool} {reason : String} (c : Cursor) :
    Parser.Takes (require condition reason) c (fun _ ts => ts = [] ∧ condition = true) := by
  rintro - u c' h
  obtain ⟨hcondition, rfl⟩ := require_eq_ok h
  exact ⟨[], rfl, by simp, rfl, hcondition⟩

theorem readVarDecl (hb : below.Takes)
    (hrule : Grammar.standard.statementRule c.kind = some .varDecl) :
    Parser.Takes (StatementRule.readVarDecl below) c (fun s ts => Stmt.Spelled .free s ts ∧
      ∃ name constant type value span, s = .varDecl name constant type value span) := by
  have hk : c.kind = (if decide (c.kind = .constWord) then .constWord else .letWord) := by
    revert hrule
    cases c.kind <;> decide
  apply (takes_advance_is hk (by split <;> decide)).next
  intro word c' hword
  have hconstant : decide (c.kind = .constWord) = decide (word.kind = .constWord) := by
    rw [hword.kind, ← hk]
  rw [hconstant] at hword
  refine .look (get_run c') ?_
  apply (takes_expectOr_name _).next
  intro name c hname
  apply (hb.annotation? c).bind
  intro type c ts htype
  apply (hb.readInitializer type.isSome c).bind
  rintro value c us ⟨hvalue, hgiven⟩
  apply (takes_require c).bind
  rintro _ c _ ⟨rfl, hrequired⟩
  apply (takes_expect_is (by decide)).next
  intro semicolon c hsemicolon
  refine .look (spanFrom_run _ c) (.pure ⟨?_, _, _, _, _, _, rfl⟩)
  refine .varDecl hword hname htype hvalue hgiven ?_ hsemicolon
  intro hc
  rw [hc] at hrequired
  exact hrequired

theorem takes_readSource (c : Cursor) :
    Parser.Takes StatementRule.readSource c (Introduced .fromWord SourceSpelled) := by
  refine .look (kind_run c) ?_
  split
  · rename_i hk
    apply (takes_advance_is hk (by decide)).next
    intro word c hword
    refine .look (kind_run c) ?_
    split
    · rename_i hk
      apply (takes_advance (by rw [hk]; decide)).next
      rintro t c' ⟨rfl, -⟩
      exact .pure (.some hword (.mk (.inl hk)))
    · apply takes_expect_name.next
      intro t c ht
      exact .pure (.some hword (.mk (.inr ht)))
  · exact .pure .none

theorem takes_readImport (hk : c.kind = .importWord) :
    Parser.Takes StatementRule.readImport c (Stmt.Spelled .free) := by
  apply (takes_advance_is hk (by decide)).next
  intro word c hword
  apply takes_expect_name.next
  intro name c hname
  apply (takes_readSource c).bind
  intro source c ts hsource
  apply (takes_expect_is (by decide)).next
  intro semicolon c hsemicolon
  exact .look (spanFrom_run _ c) (.pure (.importDecl hword hname hsource hsemicolon))

theorem readOtherwise (hb : below.Takes) (c : Cursor) :
    Parser.Takes (StatementRule.readOtherwise below) c
      (Introduced .elseWord (Otherwise.Spelled .free)) := by
  refine .look (kind_run c) ?_
  split
  · rename_i hk
    apply (takes_advance_is hk (by decide)).next
    intro word c hword
    refine .look (kind_run c) ?_
    split
    · rename_i hk
      apply (hb.branch c hk).map
      intro s ts hs
      exact .some hword hs
    · apply (hb.block c).map
      intro b ts hblock
      exact .some hword (.block hblock)
  · exact .pure .none

theorem readBranch (hb : below.Takes) (hk : c.kind = .ifWord) :
    Parser.Takes (StatementRule.readBranch below) c (Otherwise.Spelled .free) := by
  apply (takes_advance_is hk (by decide)).next
  intro word c hword
  apply (hb.whole c).bind
  intro condition c ts hcondition
  apply (hb.block c).bind
  intro body c us hbody
  apply (hb.readOtherwise c).bind
  intro otherwise c vs hotherwise
  refine .look (spanFrom_run _ c) (.pure ?_)
  rw [List.append_nil]
  exact .branch (.branch hword hcondition hbody hotherwise)

theorem expression? (hb : below.Takes) (absent : Kind) (c : Cursor) :
    Parser.Takes (below.expression? absent) c
      (Optional (Expr.Spelled .free Power.default.rank)) := by
  refine .look (kind_run c) ?_
  split
  · exact .pure .none
  · apply (hb.whole c).map
    intro e ts he
    exact .some he

theorem readClauses (hb : below.Takes) (start : Position) {word : Token} {init : Option Stmt}
    {ts : List Token} (hword : word.Is .forWord) (hinit : Init.Spelled .free init ts)
    (c : Cursor) :
    Parser.Takes (StatementRule.readClauses below start init) c
      (fun s us => Stmt.Spelled .free s (word :: (ts ++ us))) := by
  apply (hb.expression? .semicolon c).bind
  intro condition c us hcondition
  apply (takes_expect_is (by decide)).next
  intro semicolon c hsemicolon
  apply (hb.expression? .openCurly c).bind
  intro post c vs hpost
  apply (hb.statement c).bind
  intro body c ws hbody
  refine .look (spanFrom_run _ c) (.pure ?_)
  rw [List.append_nil]
  exact .loop hword hinit hcondition hsemicolon hpost trivial hbody

theorem readLoop (hb : below.Takes) (hk : c.kind = .forWord) :
    Parser.Takes (StatementRule.readLoop below) c (Stmt.Spelled .free) := by
  apply (takes_advance_is hk (by decide)).next
  intro word c hword
  refine .look (kind_run c) ?_
  have hvar (hrule : Grammar.standard.statementRule c.kind = some .varDecl) :
      Parser.Takes (do
        let init ← StatementRule.readVarDecl below
        StatementRule.readClauses below word.span.start (some init)) c
        (fun s ts => Stmt.Spelled .free s ([word] ++ ts)) := by
    apply (hb.readVarDecl hrule).bind
    rintro init c ts ⟨hinit, name, constant, type, value, span, rfl⟩
    exact hb.readClauses _ hword (.varDecl hinit) c
  -- The token behind the word decides for the kind of loop: a body, a semicolon, a declaration, or
  -- else an expression, which is the condition if a body follows and the first clause if not.
  split
  · apply (hb.statement c).bind
    intro body c ts hbody
    refine .look (spanFrom_run _ c) (.pure ?_)
    rw [List.append_nil]
    exact .forever hword trivial hbody
  · rename_i hk
    apply (takes_advance_is hk (by decide)).next
    intro semicolon c hsemicolon
    exact hb.readClauses _ hword (.none hsemicolon) c
  · rename_i hk
    exact hvar (by rw [hk]; rfl)
  · rename_i hk
    exact hvar (by rw [hk]; rfl)
  · refine .look (get_run c) ?_
    apply (hb.whole c).bind
    intro e c ts he
    refine .look (kind_run c) ?_
    split
    · apply (hb.statement c).bind
      intro body c us hbody
      refine .look (spanFrom_run _ c) (.pure ?_)
      rw [List.append_nil]
      exact .while hword he trivial hbody
    · rename_i hk
      apply (takes_advance_is (Decidable.not_not.mp hk) (by decide)).next
      intro semicolon c hsemicolon
      refine .look (spanFrom_run _ c) ?_
      refine (hb.readClauses _ hword (.expression (.expression he hsemicolon)) c).mono ?_
      intro s us hs
      simpa using hs

theorem readFnDecl (hb : below.Takes) (hk : c.kind = .functionWord) :
    Parser.Takes (StatementRule.readFnDecl below) c (Stmt.Spelled .free) := by
  refine .look (get_run c) ?_
  -- Without a name the function is an expression.
  split
  · exact hb.readExpressionStatement c
  · apply (takes_advance_is hk (by decide)).next
    intro word c hword
    apply takes_expect_name.next
    intro name c hname
    apply (hb.parameters c).bind
    rintro parameters c _ ⟨o, ts, close, rfl, ho, hparameters, hclose⟩
    apply (hb.annotation? c).bind
    intro result c us hresult
    apply (hb.block c).bind
    intro body c vs hbody
    refine .look (spanFrom_run _ c) (.pure ?_)
    simp only [List.append_nil, List.cons_append, List.append_assoc, List.nil_append]
    exact .fnDecl hword hname ho hparameters hclose hresult hbody

theorem readClass (hb : below.Takes) (hk : c.kind = .classWord) :
    Parser.Takes (StatementRule.readClass below) c (Stmt.Spelled .free) := by
  apply (takes_advance_is hk (by decide)).next
  intro word c hword
  refine .look (get_run c) ?_
  apply (takes_expectOr_name _).next
  intro name c hname
  apply (hb.block c).bind
  intro body c ts hbody
  refine .look (spanFrom_run _ c) (.pure ?_)
  rw [List.append_nil]
  exact .classDecl hword hname hbody

theorem readReturn (hb : below.Takes) (hk : c.kind = .returnWord) :
    Parser.Takes (StatementRule.readReturn below) c (Stmt.Spelled .free) := by
  apply (takes_advance_is hk (by decide)).next
  intro word c hword
  apply (hb.expression? .semicolon c).bind
  intro value c ts hvalue
  apply (takes_expect_is (by decide)).next
  intro semicolon c hsemicolon
  exact .look (spanFrom_run _ c) (.pure (.ret hword hvalue hsemicolon))

theorem readStatement (hb : below.Takes) (c : Cursor) :
    Parser.Takes (Grammar.standard.readStatement below) c (Stmt.Spelled .free) := by
  refine .look (kind_run c) ?_
  split
  · rename_i rule hrule
    obtain ⟨himport, hif, hfor, hfunction, hclass, hreturn⟩ := Grammar.kind_of_statementRule hrule
    cases rule with
    | varDecl => exact (hb.readVarDecl hrule).mono fun _ _ h => h.1
    | importDecl => exact takes_readImport (himport rfl)
    | branch =>
      refine (hb.readBranch (hif rfl)).mono ?_
      rintro _ _ (hblock | hbranch)
      · exact .block hblock
      · exact hbranch
    | loop => exact hb.readLoop (hfor rfl)
    | block =>
      apply (hb.block c).map
      intro b ts hblock
      exact .block hblock
    | fnDecl => exact hb.readFnDecl (hfunction rfl)
    | classDecl => exact hb.readClass (hclass rfl)
    | ret => exact hb.readReturn (hreturn rfl)
  · exact hb.readExpressionStatement c

end Level.Takes

theorem Grammar.level_takes (n : Nat) : (Grammar.standard.level n).Takes := by
  -- The lowest level only fails; every other one reads with the level below it.
  induction n with
  | zero =>
    exact ⟨fun c => .of_error (noProgress_run c), fun _ c => .of_error (noProgress_run c),
      fun c => .of_error (noProgress_run c), fun c _ => .of_error (noProgress_run c)⟩
  | succ n ih =>
    exact ⟨ih.readType, ih.readExpression, ih.readStatement, fun _ hk => ih.readBranch hk⟩

end Scriptlet
