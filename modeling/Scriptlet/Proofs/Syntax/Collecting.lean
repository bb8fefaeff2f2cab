import Scriptlet.Proofs.Syntax.Inner

namespace Scriptlet

open Scriptlet.Parser

namespace Level.Collects

variable {ts : List Token} {n : Nat} {c : Cursor}

section Lists

variable (h : Level.Collects ts n)

include h

theorem arguments {closing : Kind} (hk : closing ≠ .eof) (hn : 2 * ts.length ≤ n + 2 * c.index) :
    Parser.Places ts ((Grammar.standard.level n).arguments closing) c
      fun es _ => AllRead ts (Expr.innerAll es) := by
  have hitem (c' : Cursor) (hle : c.index ≤ c'.index) :=
    h.expression .default c' (by omega)
  exact (forall_listUntil hk hitem c (Nat.le_refl _)).mono
    fun _ _ _ hes => Expr.forall_innerAll.mpr hes

theorem fields (hn : 2 * ts.length ≤ n + 2 * c.index) :
    Parser.Places ts (listUntil .closeCurly (Grammar.standard.level n).field) c
      fun fields _ => AllRead ts (Expr.innerFields fields) := by
  have hitem (c' : Cursor) (hle : c.index ≤ c'.index) :
      Parser.Places ts (Grammar.standard.level n).field c'
        fun field _ => AllRead ts field.2.inner := by
    apply (places_expect (by decide)).next
    intro name c₁ _ hname
    apply (places_expect (by decide)).next
    intro colon c₂ _ hcolon
    exact (h.expression .default c₂ (by omega)).map fun _ _ _ he => he
  exact (forall_listUntil (by decide) hitem c (Nat.le_refl _)).mono
    fun _ _ _ hfields => Expr.forall_innerFields.mpr hfields

theorem block (hn : 2 * ts.length ≤ n + 2 * c.index) :
    Parser.Places ts (Grammar.standard.level n).block c fun b _ => AllRead ts b.nodes := by
  apply (places_expect (by decide)).next
  intro o c₁ _ hindex
  refine .look (repetitions_run c₁) ?_
  have hitem (c' : Cursor) (hle : c₁.index ≤ c'.index) := h.statement c' (by omega)
  apply (forall_manyUntil _ hitem _ c₁ (Nat.le_refl _)).bind
  intro body c₂ _ hbody
  apply (places_expect (by decide)).next
  intro close c₃ _ _
  exact .look (spanFrom_run _ c₃) (.pure fun _ => Stmt.forall_nodes.mpr hbody)

end Lists

section Operands

theorem inner_of_primary? {t : Token} {e : Expr} (h : t.primary? = .ok e) : e.inner = [] := by
  rw [Token.primary?] at h
  split at h <;> try split at h
  all_goals cases h
  all_goals rfl

theorem readOperand (h : Level.Collects ts n) {rule : OperandRule}
    (hrule : Grammar.standard.operandRule c.kind = some rule)
    (hn : 2 * ts.length ≤ n + 1 + 2 * c.index) :
    Parser.Places ts (rule.read Grammar.standard (Grammar.standard.level n)) c
      fun e _ => AllRead ts e.inner := by
  have hplaces := Grammar.level_places ts n
  have hk : c.kind ≠ .eof := Kind.ne_eof_of_rule Grammar.standard.operandRule rfl hrule
  -- For every rule, with the fuel that is left once its first token has been taken.
  cases rule with
  | primary =>
    refine .look (current_run c) ?_
    split
    · rename_i e he
      apply (places_advance hk).next
      intro t c₁ _ _
      refine .pure fun _ => ?_
      rw [inner_of_primary? he]
      exact .nil
    · exact .of_error (throw_run _ c)
  | unary =>
    apply (places_advance hk).next
    intro operator c₁ _ hindex
    exact (h.expression .unary c₁ (by omega)).map fun _ _ _ he => he
  | group =>
    apply (places_advance hk).next
    intro o c₁ _ hindex
    apply (h.expression .default c₁ (by omega)).bind
    intro e c₂ _ he
    apply (places_expect (by decide)).next
    intro close c₃ _ _
    exact .pure fun _ => he
  | array =>
    apply (places_advance hk).next
    intro o c₁ _ hindex
    refine .look (kind_run c₁) (.look (get_run c₁) ?_)
    split
    · rename_i hempty
      apply (places_advance (by rw [hempty.1]; decide)).next
      intro close c₂ _ hclose
      apply (hplaces.type c₂).bind
      intro item c₃ hitem _
      apply (places_expect (by decide)).next
      intro curly c₄ _ hcurly
      apply (h.arguments (by decide) (by omega)).bind
      intro items c₅ _ hitems
      exact .look (spanFrom_run _ c₅) (.pure fun _ => hitems)
    · apply (h.arguments (by decide) (by omega)).bind
      intro items c₂ _ hitems
      exact .look (spanFrom_run _ c₂) (.pure fun _ => hitems)
  | construct =>
    apply (places_advance hk).next
    intro word c₁ _ hindex
    apply (places_expect (by decide)).next
    intro name c₂ _ hname
    refine .look (kind_run c₂) ?_
    split
    · rename_i hk
      apply (places_advance (by rw [hk]; decide)).next
      intro o c₃ _ ho
      apply (h.arguments (by decide) (by omega)).bind
      intro arguments c₄ _ harguments
      exact .look (spanFrom_run _ c₄) (.pure fun _ => harguments)
    · rename_i hk
      apply (places_advance (by rw [hk]; decide)).next
      intro o c₃ _ ho
      apply (h.fields (by omega)).bind
      intro fields c₄ _ hfields
      exact .look (spanFrom_run _ c₄) (.pure fun _ => hfields)
    · exact .of_error (unexpectedFor_run _ c₂)
  | function =>
    apply (places_advance hk).next
    intro word c₁ _ hindex
    apply (hplaces.parameters c₁).bind
    intro parameters c₂ hparameters _
    apply (hplaces.annotation? c₂).bind
    intro result c₃ hresult _
    apply (h.block (by omega)).bind
    intro body c₄ _ hbody
    rw [Block.nodes_eq] at hbody
    exact .look (spanFrom_run _ c₄) (.pure fun _ => hbody)

end Operands

section Operators

variable (h : Level.Collects ts n) {left : Expr}

include h

theorem readOperator {rule : OperatorRule}
    (hrule : Grammar.standard.operatorRule c.kind = some rule) (power : Power)
    (hleft : AllRead ts left.inner) (hn : 2 * ts.length ≤ n + 1 + 2 * c.index) :
    Parser.Places ts (rule.read (Grammar.standard.level n) left power) c
      fun e _ => AllRead ts e.inner := by
  obtain ⟨hk, -⟩ := Grammar.kind_of_operatorRule hrule
  cases rule with
  | binary | range =>
    apply (places_advance hk).next
    intro operator c₁ _ hindex
    exact (h.expression power c₁ (by omega)).map fun _ _ _ hright => hleft.append hright
  | assign =>
    apply (places_advance hk).next
    intro operator c₁ _ hindex
    exact (h.expression .comma c₁ (by omega)).map fun _ _ _ hvalue => hleft.append hvalue
  | call =>
    apply (places_advance hk).next
    intro o c₁ _ hindex
    apply (h.arguments (by decide) (by omega)).bind
    intro arguments c₂ _ harguments
    exact .look (spanFrom_run _ c₂) (.pure fun _ => hleft.append harguments)
  | member =>
    apply (places_advance hk).next
    intro dot c₁ _ _
    apply (places_expect (by decide)).next
    intro property c₂ _ _
    exact .pure fun _ => hleft
  | index =>
    apply (places_advance hk).next
    intro o c₁ _ hindex
    apply (h.expression .default c₁ (by omega)).bind
    intro position c₂ _ hposition
    apply (places_expect (by decide)).next
    intro close c₃ _ _
    exact .look (spanFrom_run _ c₃) (.pure fun _ => hleft.append hposition)

theorem extend (power : Power) (limit : Nat) (hleft : AllRead ts left.inner)
    (hn : 2 * ts.length ≤ n + 1 + 2 * c.index) :
    Parser.Places ts (Grammar.standard.extend (Grammar.standard.level n) power limit left) c
      fun e _ => AllRead ts e.inner := by
  induction limit generalizing left c with
  | zero => exact .of_error (noProgress_run c)
  | succ limit ih =>
    refine .look (current_run c) ?_
    split
    · exact .pure fun _ => hleft
    · split
      · exact .of_error (throw_run _ c)
      · rename_i rule hrule
        apply (h.readOperator hrule _ hleft hn).bind
        intro e c₁ hle he
        exact ih he (by omega)

theorem readExpression (power : Power) (hn : 2 * ts.length ≤ n + 1 + 2 * c.index) :
    Parser.Places ts (Grammar.standard.readExpression (Grammar.standard.level n) power) c
      fun e _ => AllRead ts e.inner := by
  refine .look (current_run c) ?_
  split
  · exact .of_error (throw_run _ c)
  · rename_i rule hrule
    apply (h.readOperand hrule hn).bind
    intro left c₁ hle hleft
    exact .look (repetitions_run c₁) (h.extend power _ hleft (by omega))

end Operators

end Level.Collects

namespace Grammar

variable {ts : List Token} {n : Nat} {c c' : Cursor} {below : Level} {e : Expr} {b : Block}

theorem readStatement_of_rule {rule : StatementRule}
    (hrule : Grammar.standard.statementRule c.kind = some rule) :
    Grammar.standard.readStatement below c = rule.read below c := by
  rw [readStatement, bind_run_ok (kind_run c), hrule]

/-- A token that begins an expression begins no other statement, or it is the word of a function. -/
theorem statementRule_of_operandRule {k : Kind} {rule : OperandRule}
    (h : Grammar.standard.operandRule k = some rule) :
    Grammar.standard.statementRule k = none ∨ k = .functionWord ∧ rule = .function := by
  revert h
  cases k <;> cases rule <;> decide

/-- What is read as an expression is so too at the beginning of a statement: where the word of a
function begins it, no name follows. -/
theorem readStatement_of_expression (hc : c.Ended)
    (h : (Grammar.standard.level n).expression .default c = .ok e c') :
    Grammar.standard.readStatement (Grammar.standard.level n) c =
      StatementRule.readExpression (Grammar.standard.level n) c := by
  cases n with
  | zero => cases h
  | succ n =>
    change Grammar.standard.readExpression (Grammar.standard.level n) .default c = _ at h
    rw [readExpression, bind_run_ok (current_run c)] at h
    -- An expression begins with an operand. Of the kinds that do, only one begins a statement too.
    cases hrule : Grammar.standard.operandRule c.kind with
    | none =>
      rw [show Grammar.standard.operandRule c.current.kind = none from hrule] at h
      cases h
    | some rule =>
      rw [show Grammar.standard.operandRule c.current.kind = some rule from hrule] at h
      obtain ⟨left, c₁, hleft, -⟩ := bind_run_eq_ok_iff.mp h
      -- A declaration of a function has its name where the function has its parentheses.
      rcases statementRule_of_operandRule hrule with hnone | ⟨hk, rfl⟩
      · rw [readStatement, bind_run_ok (kind_run c), hnone]
      · have hpeek : c.peek = .openParen := by
          rw [(hc.passes_advance (by rw [hk]; decide)).peek]
          change OperandRule.readFunction _ c = _ at hleft
          rw [OperandRule.readFunction, bind_run_ok (advance_run c)] at hleft
          obtain ⟨parameters, c₂, hparameters, -⟩ := bind_run_eq_ok_iff.mp hleft
          obtain ⟨o, c₃, ho, -⟩ := bind_run_eq_ok_iff.mp hparameters
          exact kind_of_expect ho
        have hrule : Grammar.standard.statementRule c.kind = some .fnDecl := by
          rw [hk]
          rfl
        rw [readStatement_of_rule hrule]
        change StatementRule.readFnDecl _ c = _
        rw [StatementRule.readFnDecl, get_bind_run, hpeek]
        rfl

theorem readOn_block (hc : c.On ts) (hn : 2 * ts.length ≤ n + 2 * c.index)
    (h : (Grammar.standard.level n).block c = .ok b c') : (Stmt.block b).ReadOn ts := by
  have hk : c.kind = .openCurly := by
    obtain ⟨o, c₁, ho, -⟩ := bind_run_eq_ok_iff.mp h
    exact kind_of_expect ho
  have hrule : Grammar.standard.statementRule c.kind = some .block := by
    rw [hk]
    rfl
  have hrun : Grammar.standard.readStatement (Grammar.standard.level n) c =
      .ok (.block b) c' := by
    rw [readStatement_of_rule hrule, StatementRule.read, bind_run_ok h]
    rfl
  exact readOn_of_readStatement hc hn hrun

/-- An expression and a semicolon are a statement. -/
theorem readOn_expression (hc : c.On ts) (hn : 2 * ts.length ≤ n + 2 * c.index)
    (h : (Grammar.standard.level n).expression .default c = .ok e c') (hk : c'.kind = .semicolon) :
    (Stmt.expression e (c'.advance.spanFrom c.position)).ReadOn ts := by
  have hrun : Grammar.standard.readStatement (Grammar.standard.level n) c =
      .ok (.expression e (c'.advance.spanFrom c.position)) c'.advance := by
    rw [readStatement_of_expression hc.ended h, StatementRule.readExpression, get_bind_run,
      bind_run_ok h, bind_run_ok (expect_of_kind hk)]
    rfl
  exact readOn_of_readStatement hc hn hrun

end Grammar

namespace Level.Collects

variable {ts : List Token} {n : Nat} {c : Cursor} (h : Level.Collects ts n)

include h

theorem expressionStatement (hn : 2 * ts.length ≤ n + 2 * c.index) :
    Parser.Places ts (StatementRule.readExpression (Grammar.standard.level n)) c
      fun s _ => AllRead ts s.inner := by
  refine .look (get_run c) ?_
  apply (h.expression .default c hn).bind
  intro e c₁ _ he
  apply (places_expect (by decide)).next
  intro semicolon c₂ _ _
  exact .look (spanFrom_run _ c₂) (.pure fun _ => he)

theorem expression? (absent : Kind) (hn : 2 * ts.length ≤ n + 2 * c.index) :
    Parser.Places ts ((Grammar.standard.level n).expression? absent) c
      fun e _ => AllRead ts (Expr.inner? e) := by
  refine .look (kind_run c) ?_
  split
  · exact .pure fun _ => .nil
  · exact (h.expression .default c hn).map fun _ _ _ he => he

theorem varDecl (hk : c.kind ≠ .eof) (hn : 2 * ts.length ≤ n + 2 * c.index) :
    Parser.Places ts (StatementRule.readVarDecl (Grammar.standard.level n)) c
      fun s _ => AllRead ts s.inner := by
  have hplaces := Grammar.level_places ts n
  apply (places_advance hk).next
  intro word c₁ _ hindex
  refine .look (get_run c₁) ?_
  apply (places_expectOr _ (by decide)).next
  intro name c₂ _ hname
  apply (hplaces.annotation? c₂).bind
  intro type c₃ htype _
  have hinitializer : Parser.Places ts
      (StatementRule.readInitializer (Grammar.standard.level n) type.isSome) c₃
      fun e _ => AllRead ts (Expr.inner? e) := by
    refine .look (kind_run c₃) ?_
    split
    · apply (places_expect (by decide)).next
      intro assign c₄ _ hassign
      exact (h.expression .default c₄ (by omega)).map fun _ _ _ he => he
    · split
      · exact .pure fun _ => .nil
      · exact .of_error (unexpectedFor_run _ c₃)
  apply hinitializer.bind
  intro value c₄ _ hvalue
  apply (Level.Places.places_require c₄).bind
  intro _ c₅ _ _
  apply (places_expect (by decide)).next
  intro semicolon c₆ _ _
  exact .look (spanFrom_run _ c₆) (.pure fun _ => hvalue)

/-- A block or another branch behind `else` is a statement of its own. -/
theorem otherwise (hn : 2 * ts.length ≤ n + 2 * c.index) :
    Parser.Places ts (StatementRule.readOtherwise (Grammar.standard.level n)) c
      fun s _ => AllRead ts (Stmt.nodes? s) := by
  refine .look (kind_run c) ?_
  split
  · rename_i hk
    apply (places_advance (by rw [hk]; decide)).next
    intro word c₁ _ hindex
    refine .look (kind_run c₁) ?_
    split
    · rename_i hk
      exact (h.branch c₁ hk (by omega)).map fun _ _ _ hs => hs
    · intro hc₁
      refine (h.block (by omega)).run.map ?_ hc₁
      rintro b c₂ _ ⟨hb, hrun⟩
      exact .cons (Grammar.readOn_block hc₁ (by omega) hrun) hb
  · exact .pure fun _ => .nil

theorem branch_rule (hk : c.kind ≠ .eof) (hn : 2 * ts.length ≤ n + 2 * c.index) :
    Parser.Places ts (StatementRule.readBranch (Grammar.standard.level n)) c
      fun s _ => AllRead ts s.inner := by
  apply (places_advance hk).next
  intro word c₁ _ hindex
  apply (h.expression .default c₁ (by omega)).bind
  intro condition c₂ _ hcondition
  apply (h.block (by omega)).bind
  intro body c₃ _ hbody
  apply (h.otherwise (by omega)).bind
  intro otherwise c₄ _ hotherwise
  exact .look (spanFrom_run _ c₄) (.pure fun _ => hcondition.append (hbody.append hotherwise))

theorem clauses {start : Position} {init : Option Stmt} (hinit : AllRead ts (Stmt.nodes? init))
    (hn : 2 * ts.length ≤ n + 2 * c.index) :
    Parser.Places ts (StatementRule.readClauses (Grammar.standard.level n) start init) c
      fun s _ => AllRead ts s.inner := by
  apply (h.expression? .semicolon hn).bind
  intro condition c₁ _ hcondition
  apply (places_expect (by decide)).next
  intro semicolon c₂ _ hsemicolon
  apply (h.expression? .openCurly (by omega)).bind
  intro post c₃ _ hpost
  apply (h.statement c₃ (by omega)).bind
  intro body c₄ _ hbody
  have hparts := hinit.append (hcondition.append (hpost.append hbody))
  exact .look (spanFrom_run _ c₄) (.pure fun _ => hparts)

theorem loop (hk : c.kind ≠ .eof) (hn : 2 * ts.length ≤ n + 2 * c.index) :
    Parser.Places ts (StatementRule.readLoop (Grammar.standard.level n)) c
      fun s _ => AllRead ts s.inner := by
  apply (places_advance hk).next
  intro word c₁ _ hindex
  -- The first clause is a declaration with its semicolon, and so it is read as a statement here.
  have hvar (hrule : Grammar.standard.statementRule c₁.kind = some .varDecl) :
      Parser.Places ts (do
        let init ← StatementRule.readVarDecl (Grammar.standard.level n)
        StatementRule.readClauses (Grammar.standard.level n) word.span.start (some init)) c₁
        fun s _ => AllRead ts s.inner := by
    have hk : c₁.kind ≠ .eof := Kind.ne_eof_of_rule Grammar.standard.statementRule rfl hrule
    intro hc₁
    refine (h.varDecl hk (by omega)).run.bind ?_ hc₁
    rintro init c₂ hle ⟨hinit, hrun⟩
    have hread : Grammar.standard.readStatement (Grammar.standard.level n) c₁ = .ok init c₂ :=
      (Grammar.readStatement_of_rule hrule).trans hrun
    have hinit' := Grammar.readOn_of_readStatement hc₁ (by omega) hread
    exact h.clauses (.cons hinit' hinit) (by omega)
  refine .look (kind_run c₁) ?_
  split
  · apply (h.statement c₁ (by omega)).bind
    intro body c₂ _ hbody
    exact .look (spanFrom_run _ c₂) (.pure fun _ => hbody)
  · rename_i hk
    apply (places_advance (by rw [hk]; decide)).next
    intro semicolon c₂ _ hsemicolon
    exact h.clauses .nil (by omega)
  · rename_i hk
    exact hvar (by rw [hk]; rfl)
  · rename_i hk
    exact hvar (by rw [hk]; rfl)
  · intro hc₁
    refine Parser.Places.look (get_run c₁) ?_ hc₁
    apply (h.expression .default c₁ (by omega)).run.bind
    rintro e c₂ hle ⟨he, hrun⟩
    refine .look (kind_run c₂) ?_
    split
    · apply (h.statement c₂ (by omega)).bind
      intro body c₃ _ hbody
      exact .look (spanFrom_run _ c₃) (.pure fun _ => he.append hbody)
    · rename_i hk
      have hk := Decidable.not_not.mp hk
      apply (places_advance (by rw [hk]; decide)).run.bind
      rintro _ c₃ hle' ⟨-, ⟨⟩⟩
      refine .look (spanFrom_run _ c₂.advance) (h.clauses (.cons ?_ he) (by omega))
      exact Grammar.readOn_expression hc₁ (by omega) hrun hk

theorem fnDecl (hk : c.kind ≠ .eof) (hn : 2 * ts.length ≤ n + 2 * c.index) :
    Parser.Places ts (StatementRule.readFnDecl (Grammar.standard.level n)) c
      fun s _ => AllRead ts s.inner := by
  have hplaces := Grammar.level_places ts n
  refine .look (get_run c) ?_
  split
  · exact h.expressionStatement hn
  · apply (places_advance hk).next
    intro word c₁ _ hindex
    apply (places_expect (by decide)).next
    intro name c₂ _ hname
    apply (hplaces.parameters c₂).bind
    intro parameters c₃ hparameters _
    apply (hplaces.annotation? c₃).bind
    intro result c₄ hresult _
    apply (h.block (by omega)).bind
    intro body c₅ _ hbody
    exact .look (spanFrom_run _ c₅) (.pure fun _ => hbody)

theorem readStatement (hn : 2 * ts.length ≤ n + 2 * c.index) :
    Parser.Places ts (Grammar.standard.readStatement (Grammar.standard.level n)) c
      fun s _ => AllRead ts s.inner := by
  refine .look (kind_run c) ?_
  split
  · rename_i rule hrule
    have hk : c.kind ≠ .eof := Kind.ne_eof_of_rule Grammar.standard.statementRule rfl hrule
    cases rule with
    | varDecl => exact h.varDecl hk hn
    | importDecl =>
      apply (places_advance hk).next
      intro word c₁ _ _
      apply (places_expect (by decide)).next
      intro name c₂ _ _
      apply (Level.Places.places_readSource c₂).bind
      intro source c₃ _ _
      apply (places_expect (by decide)).next
      intro semicolon c₄ _ _
      exact .look (spanFrom_run _ c₄) (.pure fun _ => .nil)
    | branch => exact h.branch_rule hk hn
    | loop => exact h.loop hk hn
    | block => exact (h.block hn).map fun _ _ _ hb => hb
    | fnDecl => exact h.fnDecl hk hn
    | classDecl =>
      apply (places_advance hk).next
      intro word c₁ _ hindex
      refine .look (get_run c₁) ?_
      apply (places_expectOr _ (by decide)).next
      intro name c₂ _ hname
      apply (h.block (by omega)).bind
      intro body c₃ _ hbody
      exact .look (spanFrom_run _ c₃) (.pure fun _ => hbody)
    | ret =>
      apply (places_advance hk).next
      intro word c₁ _ hindex
      apply (h.expression? .semicolon (by omega)).bind
      intro value c₂ _ hvalue
      apply (places_expect (by decide)).next
      intro semicolon c₃ _ _
      exact .look (spanFrom_run _ c₃) (.pure fun _ => hvalue)
  · exact h.expressionStatement hn

/-- The statement itself is read where it stands, as those inside of it are. -/
theorem nodes (hn : 2 * ts.length ≤ n + 2 * c.index) :
    Parser.Places ts (Grammar.standard.readStatement (Grammar.standard.level n)) c
      fun s _ => AllRead ts (s :: s.inner) := by
  intro hc
  refine (h.readStatement hn).run.mono ?_ hc
  rintro s c' _ ⟨hs, hrun⟩
  exact .cons (Grammar.readOn_of_readStatement hc hn hrun) hs

end Level.Collects

namespace Grammar

theorem level_collects (ts : List Token) (n : Nat) : Level.Collects ts n := by
  -- On the levels. A statement and the expression that begins it use up one each, and behind their
  -- first token two fewer are needed.
  induction n with
  | zero =>
    exact ⟨fun _ c _ => .of_error (noProgress_run c), fun c _ => .of_error (noProgress_run c),
      fun c _ _ => .of_error (noProgress_run c)⟩
  | succ n ih =>
    refine ⟨fun power c hn => ih.readExpression power (by omega), fun c hn => ih.nodes (by omega),
      fun c hk hn => ?_⟩
    intro hc s c' hrun
    have hrule : Grammar.standard.statementRule c.kind = some .branch := by
      rw [hk]
      rfl
    exact ih.nodes (by omega) hc s c' ((readStatement_of_rule hrule).trans hrun)

/-- Every statement of a program, at whatever depth, is read where it stands. -/
theorem allRead_program (ts : List Token) (file : String) (c : Cursor) :
    Places ts (Grammar.standard.program file) c fun b _ => AllRead ts b.nodes := by
  have hstatement (c' : Cursor) (_ : c.index ≤ c'.index) : Places ts Grammar.standard.statement c'
      fun s _ => AllRead ts (s :: s.inner) := by
    intro hc'
    refine (level_collects ts (2 * c'.ahead.length + 4)).statement c' ?_ hc'
    have hlength := hc'.length
    rw [Cursor.length_rest] at hlength
    omega
  refine .look (repetitions_run c) ?_
  apply (forall_manyUntil _ hstatement _ c (Nat.le_refl _)).bind
  intro body c₁ _ hbody
  exact .look (get_run c₁) (.pure fun _ => Stmt.forall_nodes.mpr hbody)

end Grammar

end Scriptlet
