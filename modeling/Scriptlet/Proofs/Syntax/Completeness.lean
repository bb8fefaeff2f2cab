import Scriptlet.Proofs.Syntax.Collecting
import Scriptlet.Proofs.Syntax.WellFormed

namespace Scriptlet

open Scriptlet.Parser

/-- The statement has all that it needs. A loop without a third clause has a block as its body, since
the bracket of the block is what the clause is missing in front of. Where a loop has a condition
only, no clauses are read, and any statement can be its body. -/
def Stmt.Complete : Stmt → Prop
  | .varDecl _ constant type value _ =>
    (type.isSome ∨ value.isSome) ∧ (constant = true → value.isSome)
  | .branch _ _ otherwise _ => ∀ s ∈ otherwise, s.IsOtherwise
  | .loop init condition post body _ =>
    (∀ s ∈ init, s.IsInit) ∧
      (post = none → init.isSome ∨ condition = none → ∃ b, body = .block b)
  | _ => True

namespace Parser

variable {α β : Type} {c : Cursor} {p : Parser α} {f : α → Parser β} {P : α → Cursor → Prop}
  {Q : β → Cursor → Prop}

/-- If the parser succeeds, then with a result as `Q` says, whatever it has passed. -/
def Brings (p : Parser α) (c : Cursor) (Q : α → Cursor → Prop) : Prop :=
  ∀ a c', p c = .ok a c' → Q a c'

namespace Brings

theorem pure {a : α} (h : P a c) : Brings (pure a) c P := by
  rintro _ _ ⟨⟩
  exact h

theorem of_error {d : Diagnostic} {c' : Cursor} (h : p c = .error d c') : Brings p c P := by
  intro a c'' hp
  rw [h] at hp
  cases hp

theorem bind (hp : Brings p c P) (hf : ∀ a c', P a c' → Brings (f a) c' Q) :
    Brings (p >>= f) c Q := by
  intro b c'' h
  obtain ⟨a, c', ha, hb⟩ := bind_run_eq_ok_iff.mp h
  exact hf a c' (hp a c' ha) b c'' hb

/-- Nothing need be known of what is read first. -/
theorem skip (hf : ∀ a c', Brings (f a) c' Q) : Brings (p >>= f) c Q :=
  bind (P := fun _ _ => True) (fun _ _ _ => trivial) fun a c' _ => hf a c'

/-- A step that only looks leaves the cursor where it is. -/
theorem look {a : α} (hp : p c = .ok a c) (hf : Brings (f a) c Q) : Brings (p >>= f) c Q := by
  intro b c' h
  rw [bind_run_ok hp] at h
  exact hf b c' h

end Brings

end Parser

/-- What a level reads after `else`, and where a block begins. -/
structure Level.Shapes (below : Level) : Prop where
  branch : ∀ c, Brings below.branch c fun s _ => s.IsOtherwise
  block : ∀ c, c.kind = .openCurly → Brings below.statement c fun s _ => ∃ b, s = .block b

namespace StatementRule

variable {below : Level}

theorem brings_readBranch (c : Cursor) :
    Brings (readBranch below) c fun s _ => s.IsOtherwise := by
  refine .skip fun word c₁ => .skip fun condition c₂ => .skip fun body c₃ => ?_
  exact .skip fun otherwise c₄ => .skip fun span c₅ => .pure .branch

theorem brings_readOtherwise (hb : below.Shapes) (c : Cursor) :
    Brings (readOtherwise below) c fun otherwise _ => ∀ s ∈ otherwise, s.IsOtherwise := by
  refine .look (kind_run c) ?_
  split
  · refine .skip fun word c₁ => .look (kind_run c₁) ?_
    split
    · refine .bind (hb.branch c₁) ?_
      intro s c₂ hs
      refine .pure ?_
      rintro _ ⟨⟩
      exact hs
    · refine .skip fun b c₂ => .pure ?_
      rintro _ ⟨⟩
      exact .block
  · exact .pure fun _ hs => nomatch hs

theorem complete_readBranch (hb : below.Shapes) (c : Cursor) :
    Brings (readBranch below) c fun s _ => s.Complete := by
  refine .skip fun word c₁ => .skip fun condition c₂ => .skip fun body c₃ => ?_
  refine .bind (brings_readOtherwise hb c₃) ?_
  intro otherwise c₄ hotherwise
  exact .skip fun span c₅ => .pure hotherwise

theorem brings_readInitializer (typed : Bool) (c : Cursor) :
    Brings (readInitializer below typed) c fun value _ => typed = true ∨ value.isSome := by
  refine .look (kind_run c) ?_
  split
  · exact .skip fun assign c₁ => .skip fun e c₂ => .pure (.inr rfl)
  · split
    · rename_i htyped
      exact .pure (.inl htyped)
    · exact .of_error (unexpectedFor_run _ c)

/-- What is read as a declaration is complete, and can be the first clause of a loop. -/
theorem complete_readVarDecl (c : Cursor) :
    Brings (readVarDecl below) c fun s _ => s.Complete ∧ s.IsInit := by
  refine .skip fun word c₁ => .skip fun _ c₂ => .skip fun name c₃ => .skip fun type c₄ => ?_
  refine .bind (brings_readInitializer type.isSome c₄) ?_
  intro value c₅ hvalue
  refine .bind (fun _ _ h => (require_eq_ok h).1) ?_
  intro _ c₆ hrequired
  refine .skip fun semicolon c₇ => .skip fun span c₈ => .pure ⟨⟨hvalue, ?_⟩, .varDecl⟩
  intro hconstant
  rwa [hconstant] at hrequired

theorem brings_expression? (absent : Kind) (c : Cursor) :
    Brings (below.expression? absent) c fun e c' => e = none → c'.kind = absent := by
  refine .look (kind_run c) ?_
  split
  · rename_i hk
    exact .pure fun _ => hk
  · exact .skip fun e c₁ => .pure fun he => nomatch he

theorem complete_readClauses (hb : below.Shapes) (start : Position) {init : Option Stmt}
    (hinit : ∀ s ∈ init, s.IsInit) (c : Cursor) :
    Brings (readClauses below start init) c fun s _ => s.Complete := by
  refine .skip fun condition c₁ => .skip fun semicolon c₂ => ?_
  refine .bind (brings_expression? .openCurly c₂) ?_
  intro post c₃ hpost
  have hblock : Brings below.statement c₃ fun body _ => post = none → ∃ b, body = .block b :=
    fun body c₄ hbody hnone => hb.block c₃ (hpost hnone) body c₄ hbody
  refine .bind hblock ?_
  intro body c₄ hbody
  exact .skip fun span c₅ => .pure ⟨hinit, fun hnone _ => hbody hnone⟩

theorem complete_readLoop (hb : below.Shapes) (c : Cursor) :
    Brings (readLoop below) c fun s _ => s.Complete := by
  refine .skip fun word c₁ => .look (kind_run c₁) ?_
  split
  · rename_i hk
    refine .bind (hb.block c₁ hk) ?_
    intro body c₂ hbody
    exact .skip fun span c₃ => .pure ⟨fun _ hs => (nomatch hs), fun _ _ => hbody⟩
  · exact .skip fun semicolon c₂ => complete_readClauses hb _ (fun _ hs => by cases hs) c₂
  iterate 2
    refine .bind (complete_readVarDecl c₁) ?_
    rintro init c₂ ⟨-, hinit⟩
    refine complete_readClauses hb _ ?_ c₂
    rintro _ ⟨⟩
    exact hinit
  · refine .look (get_run c₁) (.skip fun e c₂ => .look (kind_run c₂) ?_)
    split
    · refine .skip fun body c₃ => .skip fun span c₄ => .pure ⟨fun _ hs => (nomatch hs), ?_⟩
      -- Such a loop has no first clause, but it has a condition.
      rintro - (hinit | hcondition)
      · cases hinit
      · cases hcondition
    · refine .skip fun semicolon c₃ => .skip fun span c₄ => complete_readClauses hb _ ?_ c₄
      rintro _ ⟨⟩
      exact .expression

theorem complete_readExpression (c : Cursor) :
    Brings (readExpression below) c fun s _ => s.Complete := by
  refine .skip fun start c₁ => .skip fun e c₂ => ?_
  exact .skip fun semicolon c₃ => .skip fun span c₄ => .pure trivial

theorem complete_read (hb : below.Shapes) (rule : StatementRule) (c : Cursor) :
    Brings (rule.read below) c fun s _ => s.Complete := by
  cases rule with
  | varDecl =>
    intro s c' h
    exact (complete_readVarDecl c s c' h).1
  | branch => exact complete_readBranch hb c
  | loop => exact complete_readLoop hb c
  | block => exact .skip fun b c₁ => .pure trivial
  | fnDecl =>
    refine .skip fun peeked c₁ => ?_
    split
    · exact complete_readExpression c₁
    · refine .skip fun word c₂ => .skip fun name c₃ => .skip fun parameters c₄ => ?_
      exact .skip fun result c₅ => .skip fun body c₆ => .skip fun span c₇ => .pure trivial
  | importDecl =>
    refine .skip fun word c₁ => .skip fun name c₂ => .skip fun source c₃ => ?_
    exact .skip fun semicolon c₄ => .skip fun span c₅ => .pure trivial
  | classDecl =>
    refine .skip fun word c₁ => .skip fun _ c₂ => .skip fun name c₃ => ?_
    exact .skip fun body c₄ => .skip fun span c₅ => .pure trivial
  | ret =>
    refine .skip fun word c₁ => .skip fun value c₂ => ?_
    exact .skip fun semicolon c₃ => .skip fun span c₄ => .pure trivial

end StatementRule

namespace Grammar

theorem complete_readStatement {below : Level} (hb : below.Shapes) (c : Cursor) :
    Brings (Grammar.standard.readStatement below) c fun s _ => s.Complete := by
  refine .look (kind_run c) ?_
  split
  · exact StatementRule.complete_read hb _ c
  · exact StatementRule.complete_readExpression c

theorem shapes_level (n : Nat) : (Grammar.standard.level n).Shapes := by
  cases n with
  | zero => exact ⟨fun c => .of_error (noProgress_run c), fun c _ => .of_error (noProgress_run c)⟩
  | succ n =>
    refine ⟨StatementRule.brings_readBranch, fun c hk => .look (kind_run c) ?_⟩
    rw [hk]
    exact .skip fun b c₁ => .pure ⟨b, rfl⟩

end Grammar

/-- Every statement of a program is complete, at every depth. -/
theorem forall_complete {tokens : List Token} {file : String} {b : Block} {c : Cursor}
    (h : parse tokens file = .ok b c) : ∀ s ∈ b.nodes, s.Complete := by
  have hon : (Cursor.ofTokens file tokens).On (Cursor.ofTokens file tokens).tokens :=
    ⟨rfl, Cursor.ended_ofTokens file tokens⟩
  obtain ⟨-, -, hall⟩ := Grammar.allRead_program _ file _ hon b c h
  intro s hs
  obtain ⟨c₁, c₂, -, hrun⟩ := hall s hs
  exact Grammar.complete_readStatement (Grammar.shapes_level _) c₁ s c₂ hrun

end Scriptlet
