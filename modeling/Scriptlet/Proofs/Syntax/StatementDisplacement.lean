import Scriptlet.Proofs.Syntax.ExpressionDisplacement

namespace Scriptlet

open Scriptlet.Parser

namespace Level.Displaces

variable {m : Position → Position} {placed : Prop} {below : Level} {c : Cursor}

theorem readExpressionStatement (hb : below.Displaces m) (c : Cursor) :
    Tracks m placed (StatementRule.readExpression below) (StatementRule.readExpression below)
      (Stmt.move m) c := by
  apply Tracks.get
  intro e he
  rw [he.position]
  apply (hb.expression .default c).bind
  intro e c₁
  apply (tracks_expect (by decide)).bind
  intro semicolon c₂
  exact .spanned fun s => rfl

theorem expression? (hb : below.Displaces m) (absent : Kind) (c : Cursor) :
    Tracks m True (below.expression? absent) (below.expression? absent)
      (Option.map (Expr.move m)) c := by
  apply Tracks.kind
  split
  · exact .pure rfl
  · exact (hb.expression .default c).map fun _ => rfl

theorem readInitializer (hb : below.Displaces m) (typed : Bool) (c : Cursor) :
    Tracks m True (StatementRule.readInitializer below typed)
      (StatementRule.readInitializer below typed) (Option.map (Expr.move m)) c := by
  apply Tracks.kind
  split
  · apply (tracks_expect (by decide)).bind
    intro assign c₁
    exact (hb.expression .default c₁).map fun _ => rfl
  · split
    · exact .pure rfl
    · exact .unexpectedFor _

theorem readVarDecl (hb : below.Displaces m) (hk : c.kind ≠ .eof) :
    Tracks m placed (StatementRule.readVarDecl below) (StatementRule.readVarDecl below)
      (Stmt.move m) c := by
  apply (tracks_advance hk).bind
  intro word c₁
  apply Tracks.get
  intro e he
  apply (tracks_expectOr _ _ (by decide)).bind
  intro name c₂
  apply (hb.annotation? c₂).bind
  intro type c₃
  apply (hb.readInitializer type.isSome c₃).bind
  intro value c₄
  rw [Option.isSome_map]
  apply (tracks_require _ _).bind
  intro _ c₅
  apply (tracks_expect (by decide)).bind
  intro semicolon c₆
  exact .spanned fun s => (Stmt.respan_varDecl s name.value _ type value).symm

theorem tracks_readSource (c : Cursor) :
    Tracks m True StatementRule.readSource StatementRule.readSource id c := by
  apply Tracks.kind
  split
  · rename_i hk
    apply (tracks_advance (by rw [hk]; decide)).bind
    intro word c₁
    apply Tracks.kind
    split
    · rename_i hk
      exact (tracks_advance (by rw [hk]; decide)).map fun _ => rfl
    · exact (tracks_expect (by decide)).map fun _ => rfl
  · exact .pure rfl

theorem tracks_readImport (hk : c.kind ≠ .eof) :
    Tracks m placed StatementRule.readImport StatementRule.readImport (Stmt.move m) c := by
  apply (tracks_advance hk).bind
  intro word c₁
  apply (tracks_expect (by decide)).bind
  intro name c₂
  apply (tracks_readSource c₂).bind
  intro source c₃
  apply (tracks_expect (by decide)).bind
  intro semicolon c₄
  exact .spanned fun s => rfl

theorem readOtherwise (hb : below.Displaces m) (c : Cursor) :
    Tracks m True (StatementRule.readOtherwise below) (StatementRule.readOtherwise below)
      (Option.map (Stmt.move m)) c := by
  apply Tracks.kind
  split
  · rename_i hk
    apply (tracks_advance (by rw [hk]; decide)).bind
    intro word c₁
    apply Tracks.kind
    split
    · rename_i hk
      exact (hb.branch c₁ hk).map fun _ => rfl
    · exact (hb.block c₁).map fun _ => rfl
  · exact .pure rfl

theorem readBranch (hb : below.Displaces m) (hk : c.kind ≠ .eof) :
    Tracks m placed (StatementRule.readBranch below) (StatementRule.readBranch below)
      (Stmt.move m) c := by
  apply (tracks_advance hk).bind
  intro word c₁
  apply (hb.expression .default c₁).bind
  intro condition c₂
  apply (hb.block c₂).bind
  intro body c₃
  apply (hb.readOtherwise c₃).bind
  intro otherwise c₄
  exact .spanned fun s => (Stmt.respan_branch s condition body otherwise).symm

theorem readClauses (hb : below.Displaces m) (start : Position) (init : Option Stmt) (c : Cursor) :
    Tracks m True (StatementRule.readClauses below start init)
      (StatementRule.readClauses below (m start) (init.map (Stmt.move m))) (Stmt.move m)
      c := by
  apply (hb.expression? .semicolon c).bind
  intro condition c₁
  apply (tracks_expect (by decide)).bind
  intro semicolon c₂
  apply (hb.expression? .openCurly c₂).bind
  intro post c₃
  apply (hb.statement c₃).bind
  intro body c₄
  exact .spanned fun s => (Stmt.respan_loop s init condition post body).symm

theorem readLoop (hb : below.Displaces m) (hk : c.kind ≠ .eof) :
    Tracks m placed (StatementRule.readLoop below) (StatementRule.readLoop below) (Stmt.move m)
      c := by
  apply (tracks_advance hk).bind
  intro word c₁
  have hvar (hk : c₁.kind ≠ .eof) : Tracks m True
      (StatementRule.readVarDecl below >>= fun init =>
        StatementRule.readClauses below word.span.start (some init))
      (StatementRule.readVarDecl below >>= fun init =>
        StatementRule.readClauses below (word.move m).span.start (some init)) (Stmt.move m)
      c₁ := by
    apply (hb.readVarDecl hk).bind
    intro init c₂
    exact hb.readClauses _ (some init) c₂
  apply Tracks.kind
  split
  · apply (hb.statement c₁).bind
    intro body c₂
    exact .spanned fun s => rfl
  · rename_i hk
    apply (tracks_advance (by rw [hk]; decide)).bind
    intro semicolon c₂
    exact hb.readClauses _ Option.none c₂
  · rename_i hk
    exact hvar (by rw [hk]; decide)
  · rename_i hk
    exact hvar (by rw [hk]; decide)
  · apply Tracks.get
    intro e he
    rw [he.position]
    apply (hb.expression .default c₁).bind
    intro e c₂
    apply Tracks.kind
    split
    · apply (hb.statement c₂).bind
      intro body c₃
      exact .spanned fun s => rfl
    · rename_i hk
      apply (tracks_advance (by rw [Decidable.not_not.mp hk]; decide)).bind
      intro semicolon c₃
      apply (tracks_spanFrom _ c₃).bind
      intro s c₄
      exact hb.readClauses _ (some (.expression e s)) c₄

theorem readFnDecl (hb : below.Displaces m) (hk : c.kind ≠ .eof) :
    Tracks m placed (StatementRule.readFnDecl below) (StatementRule.readFnDecl below)
      (Stmt.move m) c := by
  apply Tracks.get
  intro e he
  rw [he.peek]
  split
  · exact hb.readExpressionStatement c
  · apply (tracks_advance hk).bind
    intro word c₁
    apply (tracks_expect (by decide)).bind
    intro name c₂
    apply (hb.parameters c₂).bind
    intro parameters c₃
    apply (hb.annotation? c₃).bind
    intro result c₄
    apply (hb.block c₄).bind
    intro body c₅
    exact .spanned fun s => rfl

theorem readClass (hb : below.Displaces m) (hk : c.kind ≠ .eof) :
    Tracks m placed (StatementRule.readClass below) (StatementRule.readClass below) (Stmt.move m)
      c := by
  apply (tracks_advance hk).bind
  intro word c₁
  apply Tracks.get
  intro e he
  apply (tracks_expectOr _ _ (by decide)).bind
  intro name c₂
  apply (hb.block c₂).bind
  intro body c₃
  exact .spanned fun s => rfl

theorem readReturn (hb : below.Displaces m) (hk : c.kind ≠ .eof) :
    Tracks m placed (StatementRule.readReturn below) (StatementRule.readReturn below)
      (Stmt.move m) c := by
  apply (tracks_advance hk).bind
  intro word c₁
  apply (hb.expression? .semicolon c₁).bind
  intro value c₂
  apply (tracks_expect (by decide)).bind
  intro semicolon c₃
  exact .spanned fun s => (Stmt.respan_ret s value).symm

theorem readStatement (hb : below.Displaces m) (c : Cursor) :
    Tracks m placed (Grammar.standard.readStatement below) (Grammar.standard.readStatement below)
      (Stmt.move m) c := by
  apply Tracks.kind
  split
  · rename_i rule hrule
    have hk : c.kind ≠ .eof := Kind.ne_eof_of_rule Grammar.standard.statementRule rfl hrule
    cases rule with
    | varDecl => exact hb.readVarDecl hk
    | importDecl => exact tracks_readImport hk
    | branch => exact hb.readBranch hk
    | loop => exact hb.readLoop hk
    | block => exact (hb.block c).map fun _ => rfl
    | fnDecl => exact hb.readFnDecl hk
    | classDecl => exact hb.readClass hk
    | ret => exact hb.readReturn hk
  · exact hb.readExpressionStatement c

end Level.Displaces

namespace Grammar

theorem level_displaces (m : Position → Position) (k : Nat) :
    (Grammar.standard.level k).Displaces m := by
  induction k with
  | zero =>
    exact ⟨fun _ => .noProgress, fun _ _ => .noProgress, fun _ => .noProgress,
      fun _ _ => .noProgress⟩
  | succ k ih =>
    exact ⟨ih.readType, ih.readExpression, ih.readStatement,
      fun _ hk => ih.readBranch (by rw [hk]; decide)⟩

/-- A statement is the same one in other places. -/
theorem tracks_statement (m : Position → Position) (c : Cursor) :
    Tracks m False Grammar.standard.statement Grammar.standard.statement (Stmt.move m) c := by
  intro e he
  -- The number of levels is counted by the tokens that are left, and there are as many.
  have hlength : e.ahead.length = c.ahead.length := by
    have hrest := he.length
    rw [Cursor.length_rest, Cursor.length_rest] at hrest
    exact Nat.succ.inj hrest
  have htracks := (Grammar.level_displaces m (2 * c.ahead.length + 4)).statement c e he
  rw [Grammar.statement, Grammar.statement, Grammar.levelAt, Grammar.levelAt, hlength]
  exact htracks

end Grammar

end Scriptlet
