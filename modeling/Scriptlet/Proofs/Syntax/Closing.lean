import Scriptlet.Proofs.Syntax.StatementPlacing

namespace Scriptlet

open Scriptlet.Parser

/-- The kinds of the last tokens of statements. -/
def Kind.Closing (k : Kind) : Prop := k = .semicolon ∨ k = .closeCurly

/-- What was passed last closes a statement. -/
def Cursor.Closed (c : Cursor) : Prop := ∃ t ts, c.passed = t :: ts ∧ t.kind.Closing

/-- The statement is all that lies between the two cursors. -/
structure Stmt.Fills (c : Cursor) (s : Stmt) (c' : Cursor) : Prop where
  span : s.span = c'.spanFrom c.position
  closed : c'.Closed

namespace Parser

variable {ts : List Token} {c c' : Cursor}

theorem places_first (hk : c.kind ≠ .eof) : Places ts advance c fun t _ => t = c.current := by
  rintro hc _ _ ⟨⟩
  obtain ⟨hc', hindex⟩ := hc.advance hk
  have hle : c.index ≤ c.advance.index := by omega
  exact ⟨hc', hle, rfl⟩

theorem places_closing {k : Kind} (hk : k.Closing) :
    Places ts (expect k) c fun _ c' => c'.Closed := by
  have hne : k ≠ .eof := by
    rintro rfl
    rcases hk with hk | hk <;> cases hk
  intro hc t c' h
  obtain ⟨hc', hle, -⟩ := places_expect hne hc t c' h
  rw [expect_run] at h
  split at h
  · rename_i hkind
    cases h
    have hpasses := hc.ended.passes_advance (hkind ▸ hne)
    refine ⟨hc', hle, c.current, c.passed, hpasses.passed, ?_⟩
    change c.kind.Closing
    rwa [hkind]
  · cases h

/-- The last step gives a statement its span. -/
theorem Places.filled {g : Span → Stmt} (hclosed : c'.Closed) (hg : ∀ s, (g s).span = s) :
    Places ts (do return g (← spanFrom c.position)) c' fun s c'' => s.Fills c c'' :=
  .look (spanFrom_run _ c') (.pure fun _ => ⟨hg _, hclosed⟩)

end Parser

/-- The statements that the level reads are all that is passed. -/
structure Level.Fills (ts : List Token) (below : Level) : Prop where
  statement : ∀ c, Parser.Places ts below.statement c fun s c' => s.Fills c c'
  branch : ∀ c, c.kind = .ifWord → Parser.Places ts below.branch c fun s c' => s.Fills c c'

namespace Level.Places

variable {ts : List Token} {below : Level} {c : Cursor}

theorem fills_expressionStatement (hb : below.Places ts) (c : Cursor) :
    Parser.Places ts (StatementRule.readExpression below) c fun s c' => s.Fills c c' := by
  refine .look (get_run c) ?_
  apply (hb.expression .default c).bind
  intro e c₁ _ _
  apply (places_closing (.inl rfl)).bind
  intro semicolon c₂ _ hclosed
  exact .filled hclosed fun _ => rfl

theorem fills_varDecl (hb : below.Places ts) (hk : c.kind ≠ .eof) :
    Parser.Places ts (StatementRule.readVarDecl below) c fun s c' => s.Fills c c' := by
  apply (places_first hk).bind
  rintro _ c₁ _ rfl
  refine .look (get_run c₁) ?_
  apply (places_expectOr _ (by decide)).bind
  intro name c₂ _ _
  apply (hb.annotation? c₂).bind
  intro type c₃ _ _
  apply (hb.readInitializer type.isSome c₃).bind
  intro value c₄ _ _
  apply (places_require c₄).bind
  intro _ c₅ _ _
  apply (places_closing (.inl rfl)).bind
  intro semicolon c₆ _ hclosed
  exact .filled hclosed fun _ => rfl

theorem fills_import (hk : c.kind ≠ .eof) :
    Parser.Places ts StatementRule.readImport c fun s c' => s.Fills c c' := by
  apply (places_first hk).bind
  rintro _ c₁ _ rfl
  apply (places_expect (by decide)).bind
  intro name c₂ _ _
  apply (places_readSource c₂).bind
  intro source c₃ _ _
  apply (places_closing (.inl rfl)).bind
  intro semicolon c₄ _ hclosed
  exact .filled hclosed fun _ => rfl

theorem fills_return (hb : below.Places ts) (hk : c.kind ≠ .eof) :
    Parser.Places ts (StatementRule.readReturn below) c fun s c' => s.Fills c c' := by
  apply (places_first hk).bind
  rintro _ c₁ _ rfl
  apply (hb.expression? .semicolon c₁).bind
  intro value c₂ _ _
  apply (places_closing (.inl rfl)).bind
  intro semicolon c₃ _ hclosed
  exact .filled hclosed fun _ => rfl

theorem fills_block (hb : below.Places ts) (c : Cursor) :
    Parser.Places ts below.block c fun b c' => (Stmt.block b).Fills c c' := by
  intro hc
  have hfirst : Parser.Places ts (expect .openCurly) c fun t _ => t = c.current := by
    intro hc t c' h
    obtain ⟨hc', hle, ht, -⟩ := places_expect (by decide) hc t c' h
    rw [hc.current] at ht
    exact ⟨hc', hle, (Option.some.inj ht).symm⟩
  refine hfirst.bind ?_ hc
  rintro _ c₁ _ rfl
  refine .look (repetitions_run c₁) ?_
  apply (places_manyUntil _ hb.statement _ c₁).bind
  intro body c₂ _ _
  apply (places_closing (.inr rfl)).bind
  intro close c₃ _ hclosed
  exact .look (spanFrom_run _ c₃) (.pure fun _ => ⟨rfl, hclosed⟩)

theorem fills_fnDecl (hb : below.Places ts) (hk : c.kind ≠ .eof) :
    Parser.Places ts (StatementRule.readFnDecl below) c fun s c' => s.Fills c c' := by
  refine .look (get_run c) ?_
  split
  · exact hb.fills_expressionStatement c
  · apply (places_first hk).bind
    rintro _ c₁ _ rfl
    apply (places_expect (by decide)).bind
    intro name c₂ _ _
    apply (hb.parameters c₂).bind
    intro parameters c₃ _ _
    apply (hb.annotation? c₃).bind
    intro result c₄ _ _
    apply (hb.fills_block c₄).bind
    intro body c₅ _ hbody
    exact .filled hbody.closed fun _ => rfl

theorem fills_class (hb : below.Places ts) (hk : c.kind ≠ .eof) :
    Parser.Places ts (StatementRule.readClass below) c fun s c' => s.Fills c c' := by
  apply (places_first hk).bind
  rintro _ c₁ _ rfl
  refine .look (get_run c₁) ?_
  apply (places_expectOr _ (by decide)).bind
  intro name c₂ _ _
  apply (hb.fills_block c₂).bind
  intro body c₃ _ hbody
  exact .filled hbody.closed fun _ => rfl

variable (hf : below.Fills ts)

include hf

/-- Without `else` the branch ends where its block does. -/
theorem fills_branch (hb : below.Places ts) (hk : c.kind ≠ .eof) :
    Parser.Places ts (StatementRule.readBranch below) c fun s c' => s.Fills c c' := by
  apply (places_first hk).bind
  rintro _ c₁ _ rfl
  apply (hb.expression .default c₁).bind
  intro condition c₂ _ _
  apply (hb.fills_block c₂).bind
  intro body c₃ _ hbody
  -- The parts behind `else` have spans of their own; all that matters is how they end.
  have hotherwise : Parser.Places ts (StatementRule.readOtherwise below) c₃
      fun _ c' => c'.Closed := by
    refine .look (kind_run c₃) ?_
    split
    · rename_i hk
      apply (places_first (by rw [hk]; decide)).bind
      intro word c₄ _ _
      refine .look (kind_run c₄) ?_
      split
      · rename_i hk
        exact (hf.branch c₄ hk).map fun _ _ _ h => h.closed
      · exact (hb.fills_block c₄).map fun _ _ _ h => h.closed
    · exact .pure fun _ => hbody.closed
  apply hotherwise.bind
  intro otherwise c₄ _ hclosed
  exact .filled hclosed fun _ => rfl

theorem fills_clauses (hb : below.Places ts) (c₀ : Cursor) (init : Option Stmt) (c : Cursor) :
    Parser.Places ts (StatementRule.readClauses below c₀.position init) c
      fun s c' => s.Fills c₀ c' := by
  apply (hb.expression? .semicolon c).bind
  intro condition c₁ _ _
  apply (places_expect (by decide)).bind
  intro semicolon c₂ _ _
  apply (hb.expression? .openCurly c₂).bind
  intro post c₃ _ _
  apply (hf.statement c₃).bind
  intro body c₄ _ hbody
  exact .filled hbody.closed fun _ => rfl

theorem fills_loop (hb : below.Places ts) (hk : c.kind ≠ .eof) :
    Parser.Places ts (StatementRule.readLoop below) c fun s c' => s.Fills c c' := by
  apply (places_first hk).bind
  rintro _ c₁ _ rfl
  have hvar (hk : c₁.kind ≠ .eof) : Parser.Places ts (do
      let init ← StatementRule.readVarDecl below
      StatementRule.readClauses below c.position (some init)) c₁ fun s c' => s.Fills c c' := by
    apply (hb.readVarDecl hk).bind
    intro init c₂ _ _
    exact fills_clauses hf hb c _ c₂
  refine .look (kind_run c₁) ?_
  split
  · apply (hf.statement c₁).bind
    intro body c₂ _ hbody
    exact .filled hbody.closed fun _ => rfl
  · rename_i hk
    apply (places_advance (by rw [hk]; decide)).bind
    intro semicolon c₂ _ _
    exact fills_clauses hf hb c _ c₂
  · rename_i hk
    exact hvar (by rw [hk]; decide)
  · rename_i hk
    exact hvar (by rw [hk]; decide)
  · refine .look (get_run c₁) ?_
    apply (hb.expression .default c₁).bind
    intro e c₂ _ _
    refine .look (kind_run c₂) ?_
    split
    · apply (hf.statement c₂).bind
      intro body c₃ _ hbody
      exact .filled hbody.closed fun _ => rfl
    · rename_i hk
      apply (places_advance (by rw [Decidable.not_not.mp hk]; decide)).bind
      intro semicolon c₃ _ _
      refine .look (spanFrom_run _ c₃) ?_
      exact fills_clauses hf hb c _ c₃

theorem fills_statement (hb : below.Places ts) (c : Cursor) :
    Parser.Places ts (Grammar.standard.readStatement below) c fun s c' => s.Fills c c' := by
  refine .look (kind_run c) ?_
  split
  · rename_i rule hrule
    have hk : c.kind ≠ .eof := Kind.ne_eof_of_rule Grammar.standard.statementRule rfl hrule
    cases rule with
    | varDecl => exact hb.fills_varDecl hk
    | importDecl => exact fills_import hk
    | branch => exact fills_branch hf hb hk
    | loop => exact fills_loop hf hb hk
    | block => exact (hb.fills_block c).map fun _ _ _ h => h
    | fnDecl => exact hb.fills_fnDecl hk
    | classDecl => exact hb.fills_class hk
    | ret => exact hb.fills_return hk
  · exact hb.fills_expressionStatement c

end Level.Places

namespace Grammar

theorem level_fills (ts : List Token) (n : Nat) : (Grammar.standard.level n).Fills ts := by
  induction n with
  | zero => exact ⟨fun c => .of_error (noProgress_run c), fun c _ => .of_error (noProgress_run c)⟩
  | succ n ih =>
    have hplaces := level_places ts n
    exact ⟨hplaces.fills_statement ih, fun _ hk => hplaces.fills_branch ih (by rw [hk]; decide)⟩

theorem fills_statement {c c' : Cursor} {s : Stmt} (hc : c.Ended)
    (h : Grammar.standard.statement c = .ok s c') : s.Fills c c' :=
  ((level_fills c.tokens _).statement c ⟨rfl, hc⟩ s c' h).2.2

end Grammar

end Scriptlet
