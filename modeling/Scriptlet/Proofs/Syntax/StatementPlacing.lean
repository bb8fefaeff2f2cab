import Scriptlet.Proofs.Syntax.ExpressionPlacing

namespace Scriptlet

open Scriptlet.Parser Region

namespace Level.Places

variable {ts : List Token} {below : Level} {c : Cursor}

theorem readExpressionStatement (hb : below.Places ts) (c : Cursor) :
    Parser.Places ts (StatementRule.readExpression below) c
      fun s c' => Among ts c.index c'.index [s.region] := by
  intro hc
  refine Parser.Places.look (get_run c) ?_ hc
  apply (hb.expression .default c).bind
  intro e c₁ hle he
  apply (places_expect (by decide)).next
  intro semicolon c' _ hindex
  -- Parentheses may stand before the expression, so its statement begins at the current token.
  exact .spanned hc.current (by omega) (he.mono (Nat.le_refl _) (by omega)) fun _ => rfl

/-- An expression that may be left out has no region if it is. -/
theorem expression? (hb : below.Places ts) (absent : Kind) (c : Cursor) :
    Parser.Places ts (below.expression? absent) c
      fun e c' => Among ts c.index c'.index (Expr.regions? e) := by
  refine .look (kind_run c) ?_
  split
  · exact .pure fun _ => .nil (Nat.le_refl _)
  · exact (hb.expression .default c).map fun e c' _ he => he

theorem readInitializer (hb : below.Places ts) (typed : Bool) (c : Cursor) :
    Parser.Places ts (StatementRule.readInitializer below typed) c
      fun e c' => Among ts c.index c'.index (Expr.regions? e) := by
  refine .look (kind_run c) ?_
  split
  · apply (places_expect (by decide)).next
    intro assign c₁ _ hindex
    apply (hb.expression .default c₁).map
    intro e c' _ he
    exact he.mono (by omega) (Nat.le_refl _)
  · split
    · exact .pure fun _ => .nil (Nat.le_refl _)
    · exact .of_error (unexpectedFor_run _ c)

theorem places_require {condition : Bool} {reason : String} (c : Cursor) :
    Parser.Places ts (require condition reason) c fun _ c' => c' = c := by
  intro hc u c' h
  obtain ⟨-, rfl⟩ := require_eq_ok h
  exact ⟨hc, Nat.le_refl _, rfl⟩

theorem readVarDecl (hb : below.Places ts) (hk : c.kind ≠ .eof) :
    Parser.Places ts (StatementRule.readVarDecl below) c
      fun s c' => Among ts c.index c'.index [s.region] := by
  apply (places_advance hk).next
  intro word c₁ hword hindex
  refine .look (get_run c₁) ?_
  apply (places_expectOr _ (by decide)).next
  intro name c₂ _ hname
  apply (hb.annotation? c₂).bind
  intro type c₃ htype _
  apply (hb.readInitializer type.isSome c₃).bind
  intro value c₄ hle hvalue
  apply (places_require c₄).bind
  rintro _ _ - rfl
  apply (places_expect (by decide)).next
  intro semicolon c' _ hsemicolon
  exact .spanned hword (by omega) (hvalue.mono (by omega) (by omega)) fun _ => rfl

theorem places_readSource (c : Cursor) :
    Parser.Places ts StatementRule.readSource c fun _ _ => True := by
  refine .look (kind_run c) ?_
  split
  · rename_i hk
    apply (places_advance (by rw [hk]; decide)).next
    intro word c₁ _ _
    refine .look (kind_run c₁) ?_
    split
    · rename_i hk
      apply (places_advance (by rw [hk]; decide)).next
      intro t c₂ _ _
      exact .pure fun _ => trivial
    · apply (places_expect (by decide)).next
      intro t c₂ _ _
      exact .pure fun _ => trivial
  · exact .pure fun _ => trivial

theorem places_readImport (hk : c.kind ≠ .eof) :
    Parser.Places ts StatementRule.readImport c
      fun s c' => Among ts c.index c'.index [s.region] := by
  apply (places_advance hk).next
  intro word c₁ hword hindex
  apply (places_expect (by decide)).next
  intro name c₂ _ hname
  apply (places_readSource c₂).bind
  intro source c₃ hsource _
  apply (places_expect (by decide)).next
  intro semicolon c' _ hsemicolon
  exact .spanned hword (by omega) (.nil (by omega)) fun _ => rfl

theorem readOtherwise (hb : below.Places ts) (c : Cursor) :
    Parser.Places ts (StatementRule.readOtherwise below) c
      fun s c' => Among ts c.index c'.index (Stmt.regions? s) := by
  refine .look (kind_run c) ?_
  split
  · rename_i hk
    apply (places_advance (by rw [hk]; decide)).next
    intro word c₁ _ hindex
    refine .look (kind_run c₁) ?_
    split
    · rename_i hk
      apply (hb.branch c₁ hk).map
      intro s c' _ hs
      exact hs.mono (by omega) (Nat.le_refl _)
    · apply (hb.block c₁).map
      intro b c' _ hblock
      exact hblock.mono (by omega) (Nat.le_refl _)
  · exact .pure fun _ => .nil (Nat.le_refl _)

theorem readBranch (hb : below.Places ts) (hk : c.kind ≠ .eof) :
    Parser.Places ts (StatementRule.readBranch below) c
      fun s c' => Among ts c.index c'.index [s.region] := by
  apply (places_advance hk).next
  intro word c₁ hword hindex
  apply (hb.expression .default c₁).bind
  intro condition c₂ _ hcondition
  apply (hb.block c₂).bind
  intro body c₃ _ hbody
  apply (hb.readOtherwise c₃).bind
  intro otherwise c' _ hotherwise
  have hparts := (hcondition.append hbody).append hotherwise
  exact .spanned hword (by omega) (hparts.mono (by omega) (Nat.le_refl _)) fun _ => rfl

/-- The last clauses of a loop stand behind its first one. -/
theorem readClauses (hb : below.Places ts) {word : Token} {init : Option Stmt} {i : Nat}
    (hword : ts[i]? = some word) (hi : i < c.index)
    (hinit : Among ts i c.index (Stmt.regions? init)) :
    Parser.Places ts (StatementRule.readClauses below word.span.start init) c
      fun s c' => Among ts i c'.index [s.region] := by
  apply (hb.expression? .semicolon c).bind
  intro condition c₁ _ hcondition
  apply (places_expect (by decide)).next
  intro semicolon c₂ _ hsemicolon
  apply (hb.expression? .openCurly c₂).bind
  intro post c₃ _ hpost
  apply (hb.statement c₃).bind
  intro body c' _ hbody
  have hpost' : Among ts c₁.index c₃.index (Expr.regions? post) :=
    hpost.mono (by omega) (Nat.le_refl _)
  have hparts := ((hinit.append hcondition).append hpost').append hbody
  exact .spanned hword (by omega) hparts fun _ => rfl

theorem readLoop (hb : below.Places ts) (hk : c.kind ≠ .eof) :
    Parser.Places ts (StatementRule.readLoop below) c
      fun s c' => Among ts c.index c'.index [s.region] := by
  apply (places_advance hk).next
  intro word c₁ hword hindex
  have hvar (hk : c₁.kind ≠ .eof) : Parser.Places ts (do
      let init ← StatementRule.readVarDecl below
      StatementRule.readClauses below word.span.start (some init)) c₁
      (fun s c' => Among ts c.index c'.index [s.region]) := by
    apply (hb.readVarDecl hk).bind
    intro init c₂ _ hinit
    exact hb.readClauses hword (by omega) (hinit.mono (by omega) (Nat.le_refl _))
  refine .look (kind_run c₁) ?_
  split
  · apply (hb.statement c₁).bind
    intro body c' _ hbody
    exact .spanned hword (by omega) (hbody.mono (by omega) (Nat.le_refl _)) fun _ => rfl
  · rename_i hk
    apply (places_advance (by rw [hk]; decide)).next
    intro semicolon c₂ _ hsemicolon
    exact hb.readClauses hword (by omega) (.nil (by omega))
  · rename_i hk
    exact hvar (by rw [hk]; decide)
  · rename_i hk
    exact hvar (by rw [hk]; decide)
  · intro hc₁
    refine Parser.Places.look (get_run c₁) ?_ hc₁
    apply (hb.expression .default c₁).bind
    intro e c₂ _ he
    refine .look (kind_run c₂) ?_
    split
    · apply (hb.statement c₂).bind
      intro body c' _ hbody
      have hparts := he.append hbody
      exact .spanned hword (by omega) (hparts.mono (by omega) (Nat.le_refl _)) fun _ => rfl
    · rename_i hk
      apply (places_advance (by rw [Decidable.not_not.mp hk]; decide)).next
      intro semicolon c₃ _ hsemicolon hc₃
      refine Parser.Places.look (spanFrom_run _ c₃) ?_ hc₃
      have he' : Among ts c₁.index c₃.index [e.region] := he.mono (Nat.le_refl _) (by omega)
      have hinit := he'.spanFrom hc₃ hc₁.current (by omega)
      exact hb.readClauses hword (by omega) (hinit.mono (by omega) (Nat.le_refl _))

theorem readFnDecl (hb : below.Places ts) (hk : c.kind ≠ .eof) :
    Parser.Places ts (StatementRule.readFnDecl below) c
      fun s c' => Among ts c.index c'.index [s.region] := by
  refine .look (get_run c) ?_
  split
  · exact hb.readExpressionStatement c
  · apply (places_advance hk).next
    intro word c₁ hword hindex
    apply (places_expect (by decide)).next
    intro name c₂ _ hname
    apply (hb.parameters c₂).bind
    intro parameters c₃ hparameters _
    apply (hb.annotation? c₃).bind
    intro result c₄ hresult _
    apply (hb.block c₄).bind
    intro body c' hle hbody
    exact .spanned hword (by omega) (hbody.mono (by omega) (Nat.le_refl _)) fun _ => rfl

theorem readClass (hb : below.Places ts) (hk : c.kind ≠ .eof) :
    Parser.Places ts (StatementRule.readClass below) c
      fun s c' => Among ts c.index c'.index [s.region] := by
  apply (places_advance hk).next
  intro word c₁ hword hindex
  refine .look (get_run c₁) ?_
  apply (places_expectOr _ (by decide)).next
  intro name c₂ _ hname
  apply (hb.block c₂).bind
  intro body c' hle hbody
  exact .spanned hword (by omega) (hbody.mono (by omega) (Nat.le_refl _)) fun _ => rfl

theorem readReturn (hb : below.Places ts) (hk : c.kind ≠ .eof) :
    Parser.Places ts (StatementRule.readReturn below) c
      fun s c' => Among ts c.index c'.index [s.region] := by
  apply (places_advance hk).next
  intro word c₁ hword hindex
  apply (hb.expression? .semicolon c₁).bind
  intro value c₂ hle hvalue
  apply (places_expect (by decide)).next
  intro semicolon c' _ hsemicolon
  exact .spanned hword (by omega) (hvalue.mono (by omega) (by omega)) fun _ => rfl

theorem readStatement (hb : below.Places ts) (c : Cursor) :
    Parser.Places ts (Grammar.standard.readStatement below) c
      fun s c' => Among ts c.index c'.index [s.region] := by
  refine .look (kind_run c) ?_
  split
  · rename_i rule hrule
    have hk : c.kind ≠ .eof := Kind.ne_eof_of_rule Grammar.standard.statementRule rfl hrule
    cases rule with
    | varDecl => exact hb.readVarDecl hk
    | importDecl => exact places_readImport hk
    | branch => exact hb.readBranch hk
    | loop => exact hb.readLoop hk
    | block => exact (hb.block c).map fun _ _ _ hblock => hblock
    | fnDecl => exact hb.readFnDecl hk
    | classDecl => exact hb.readClass hk
    | ret => exact hb.readReturn hk
  · exact hb.readExpressionStatement c

end Level.Places

namespace Grammar

variable {ts : List Token}

theorem level_places (ts : List Token) (n : Nat) : (Grammar.standard.level n).Places ts := by
  -- The lowest level only fails; every other one reads with the level below it.
  induction n with
  | zero =>
    exact ⟨fun c => .of_error (noProgress_run c), fun _ c => .of_error (noProgress_run c),
      fun c => .of_error (noProgress_run c), fun c _ => .of_error (noProgress_run c)⟩
  | succ n ih =>
    exact ⟨ih.readType, ih.readExpression, ih.readStatement,
      fun _ hk => ih.readBranch (by rw [hk]; decide)⟩

/-- The statements of a program stand among its tokens, and it goes on to the last that it has
passed. -/
theorem places_program (file : String) (c : Cursor) :
    Places ts (Grammar.standard.program file) c fun b c' =>
      Among ts c.index c'.index (Stmt.regions b.body) ∧ b.span = ⟨⟨0, file⟩, c'.lastEnd⟩ := by
  have hstatement (c : Cursor) : Places ts Grammar.standard.statement c
      fun s c' => Among ts c.index c'.index [s.region] :=
    fun hc s c' h => (Grammar.level_places ts (2 * c.ahead.length + 4)).statement c hc s c' h
  refine .look (repetitions_run c) ?_
  apply (places_manyUntil _ hstatement _ c).bind
  intro body c' _ hbody
  refine .look (get_run c') (.pure fun _ => ⟨?_, rfl⟩)
  rwa [← Stmt.regions_eq_flatMap] at hbody

end Grammar

end Scriptlet
