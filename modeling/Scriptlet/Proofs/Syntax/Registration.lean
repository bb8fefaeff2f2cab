import Scriptlet.Proofs.Syntax.Cursor
import Scriptlet.Grammar.Program

namespace Scriptlet

theorem Power.default_lt_of_not_le {p q : Power} (h : ¬p ≤ q) : .default < p :=
  Nat.lt_of_le_of_lt (Nat.zero_le q.rank) (Nat.lt_of_not_le h)

namespace Grammar

/-- What registrations make of the empty grammar and of the standard one. -/
inductive Registered : Grammar → Prop
  | empty : Registered .empty
  | standard : Registered .standard
  | operand {g} (kind : Kind) (rule : OperandRule) :
    Registered g → Registered (g.addOperand kind rule)
  | operator {g} (kind : Kind) (power : Power) (rule : OperatorRule) :
    Registered g → Registered (g.addOperator kind power rule)
  | statement {g} (kind : Kind) (rule : StatementRule) :
    Registered g → Registered (g.addStatement kind rule)
  | typeOperand {g} (kind : Kind) (rule : TypeRule) :
    Registered g → Registered (g.addTypeOperand kind rule)
  | typeOperator {g} (kind : Kind) (power : Power) (rule : TypeOperatorRule) :
    Registered g → Registered (g.addTypeOperator kind power rule)

/-- Each kind that binds has a rule. -/
def Covered {rule : Type} (power : Kind → Power) (table : Kind → Option rule) : Prop :=
  ∀ k, .default < power k → (table k).isSome = true

/-- Every token that binds can be continued, among expressions and among types. -/
structure Complete (g : Grammar) : Prop where
  operators : Covered g.power g.operatorRule
  typeOperators : Covered g.typePower g.typeOperatorRule

theorem covered_default {rule : Type} (table : Kind → Option rule) :
    Covered (fun _ => .default) table :=
  fun _ h => absurd h (Nat.lt_irrefl _)

/-- A power that is registered comes with a rule, also where there were others before. -/
theorem Covered.override {rule : Type} {power : Kind → Power} {table : Kind → Option rule}
    (h : Covered power table) (kind : Kind) (p : Power) (r : rule) :
    Covered (override power kind p) (override table kind (some r)) := by
  intro k hk
  rw [Grammar.override] at hk ⊢
  by_cases hkind : k = kind
  · rw [if_pos hkind]
    rfl
  · rw [if_neg hkind] at hk ⊢
    exact h k hk

theorem covered_standard : Covered standard.power standard.operatorRule := by
  intro k
  cases k <;> decide

/-- What is complete stays so, whatever is registered. -/
theorem Registered.complete {g : Grammar} (h : g.Registered) : g.Complete := by
  induction h with
  | empty => exact ⟨covered_default _, covered_default _⟩
  | standard => exact ⟨covered_standard, covered_default _⟩
  | operand kind rule _ ih => exact ⟨ih.operators, ih.typeOperators⟩
  | operator kind power rule _ ih =>
    exact ⟨ih.operators.override kind power rule, ih.typeOperators⟩
  | statement kind rule _ ih => exact ⟨ih.operators, ih.typeOperators⟩
  | typeOperand kind rule _ ih => exact ⟨ih.operators, ih.typeOperators⟩
  | typeOperator kind power rule _ ih =>
    exact ⟨ih.operators, ih.typeOperators.override kind power rule⟩

end Grammar

namespace Parser

variable {α β : Type}

/-- The parser reports no token that binds without a rule. -/
def Continues (p : Parser α) : Prop :=
  ∀ c d c', p c = .error d c' → ∀ token, d.fault ≠ .cannotContinue token

namespace Continues

theorem bind {p : Parser α} {f : α → Parser β} (hp : p.Continues) (hf : ∀ a, (f a).Continues) :
    (p >>= f).Continues := by
  intro c d c' h
  cases hrun : p c with
  | ok a c₁ =>
    rw [bind_run_ok hrun] at h
    exact hf a c₁ d c' h
  | error d₁ c₁ =>
    rw [bind_run_error hrun] at h
    cases h
    exact hp c d c' hrun

theorem of_ok {p : Parser α} (h : ∀ c, ∃ a c', p c = .ok a c') : p.Continues := by
  intro c d c' herror
  obtain ⟨a, c₁, hok⟩ := h c
  rw [hok] at herror
  cases herror

theorem ite {condition : Prop} [Decidable condition] {p q : Parser α} (hp : p.Continues)
    (hq : q.Continues) : (if condition then p else q).Continues := by
  split
  · exact hp
  · exact hq

end Continues

theorem continues_pure (a : α) : (pure a : Parser α).Continues :=
  .of_ok fun c => ⟨a, c, rfl⟩

theorem continues_get : (get : Parser Cursor).Continues :=
  .of_ok fun c => ⟨_, _, get_run c⟩

theorem continues_current : current.Continues :=
  .of_ok fun c => ⟨_, _, current_run c⟩

theorem continues_kind : kind.Continues :=
  .of_ok fun c => ⟨_, _, kind_run c⟩

theorem continues_spanFrom (start : Position) : (spanFrom start).Continues :=
  .of_ok fun c => ⟨_, _, spanFrom_run start c⟩

theorem continues_repetitions : repetitions.Continues :=
  .of_ok fun c => ⟨_, _, repetitions_run c⟩

theorem continues_advance : advance.Continues :=
  .of_ok fun c => ⟨_, _, advance_run c⟩

theorem continues_throw {d : Diagnostic} (h : ∀ token, d.fault ≠ .cannotContinue token) :
    (throw d : Parser α).Continues := by
  rintro c _ _ ⟨⟩
  exact h

theorem continues_noProgress : (noProgress : Parser α).Continues := by
  rintro c _ _ ⟨⟩
  exact nofun

theorem fault_unexpectedFor (c : Cursor) (reason token : String) :
    (c.unexpectedFor reason).fault ≠ .cannotContinue token := nofun

theorem continues_unexpectedFor (reason : String) :
    (unexpectedFor reason : Parser α).Continues :=
  continues_get.bind fun c => continues_throw (fault_unexpectedFor c reason)

theorem continues_expectOr (kind : Kind) {d : Diagnostic}
    (h : ∀ token, d.fault ≠ .cannotContinue token) : (expectOr kind d).Continues :=
  continues_current.bind fun _ => continues_advance.ite (continues_throw h)

theorem continues_expect (kind : Kind) : (expect kind).Continues :=
  continues_current.bind fun _ => continues_expectOr kind nofun

theorem continues_require (condition : Bool) (reason : String) :
    (require condition reason).Continues :=
  (continues_pure ()).ite (continues_unexpectedFor reason)

section Lists

variable {item : Parser α}

theorem continues_manyUntil (stops : Kind → Bool) (h : item.Continues) (limit : Nat) :
    (manyUntil stops item limit).Continues := by
  induction limit with
  | zero => exact continues_noProgress
  | succ limit ih =>
    refine continues_kind.bind fun k => (continues_pure []).ite ?_
    exact h.bind fun first => ih.bind fun rest => continues_pure _

theorem continues_separated (closing : Kind) (h : item.Continues) (limit : Nat) :
    (separated closing item limit).Continues := by
  induction limit with
  | zero => exact continues_noProgress
  | succ limit ih =>
    refine continues_kind.bind fun _ => continues_kind.bind fun _ => (continues_pure []).ite ?_
    refine h.bind fun first => continues_kind.bind fun _ => .ite ?_ (continues_pure _)
    exact continues_advance.bind fun _ => ih.bind fun rest => continues_pure _

theorem continues_listUntil (closing : Kind) (h : item.Continues) :
    (listUntil closing item).Continues :=
  continues_repetitions.bind fun limit => (continues_separated closing h limit).bind fun _ =>
    (continues_expect closing).bind fun _ => continues_pure _

end Lists

end Parser

open Scriptlet.Parser

/-- No parser of the level reports a token that binds without a rule. -/
structure Level.Continues (below : Level) : Prop where
  expression : ∀ power, (below.expression power).Continues
  statement : below.statement.Continues
  branch : below.branch.Continues
  type : ∀ power, (below.type power).Continues

namespace Level.Continues

variable {below : Level} {g : Grammar}

section Types

theorem annotation? (h : below.Continues) : below.annotation?.Continues := by
  refine continues_kind.bind fun _ => .ite ?_ (continues_pure _)
  exact continues_advance.bind fun _ => (h.type _).bind fun _ => continues_pure _

theorem parameter (h : below.Continues) : below.parameter.Continues :=
  (continues_expect _).bind fun _ => (continues_expect _).bind fun _ =>
    (h.type _).bind fun _ => continues_pure _

theorem parameters (h : below.Continues) : below.parameters.Continues :=
  (continues_expect _).bind fun _ => continues_listUntil _ h.parameter

theorem typeRule (h : below.Continues) (rule : TypeRule) : (rule.read below).Continues := by
  cases rule with
  | named => exact continues_advance.bind fun _ => continues_pure _
  | list =>
    exact (continues_expect _).bind fun _ => (continues_expect _).bind fun _ =>
      (h.type _).bind fun _ => continues_pure _

theorem typeOperatorRule (h : below.Continues) (left : Ty) (power : Power)
    (rule : TypeOperatorRule) : (rule.read below left power).Continues := by
  cases rule with
  | listSuffix => exact continues_advance.bind fun _ => continues_pure _
  | arrow => exact continues_advance.bind fun _ => (h.type _).bind fun _ => continues_pure _

theorem extendType (h : below.Continues) (hg : g.Complete) (power : Power) (limit : Nat)
    (left : Ty) : (g.extendType below power limit left).Continues := by
  induction limit generalizing left with
  | zero => exact continues_noProgress
  | succ limit ih =>
    refine continues_current.bind fun token => ?_
    split
    · exact continues_pure left
    · rename_i hpower
      split
      · rename_i hnone
        have hsome := hg.typeOperators token.kind (Power.default_lt_of_not_le hpower)
        rw [hnone] at hsome
        cases hsome
      · rename_i rule _
        exact (h.typeOperatorRule left _ rule).bind fun _ => ih _

end Types

theorem readType (h : below.Continues) (hg : g.Complete) (power : Power) :
    (g.readType below power).Continues := by
  refine continues_current.bind fun token => ?_
  split
  · exact continues_throw nofun
  · rename_i rule _
    exact (h.typeRule rule).bind fun left => continues_repetitions.bind fun limit =>
      h.extendType hg power limit left

section Expressions

theorem arguments (h : below.Continues) (closing : Kind) : (below.arguments closing).Continues :=
  continues_listUntil closing (h.expression _)

theorem field (h : below.Continues) : below.field.Continues :=
  (continues_expect _).bind fun _ => (continues_expect _).bind fun _ =>
    (h.expression _).bind fun _ => continues_pure _

theorem block (h : below.Continues) : below.block.Continues := by
  refine (continues_expect _).bind fun _ => continues_repetitions.bind fun limit => ?_
  refine (continues_manyUntil _ h.statement limit).bind fun _ => ?_
  exact (continues_expect _).bind fun _ => (continues_spanFrom _).bind fun _ => continues_pure _

/-- A token that stands for no operand is a number out of range or unexpected. -/
theorem fault_of_primary? {t : Token} {d : Diagnostic} (h : t.primary? = .error d)
    (token : String) : d.fault ≠ .cannotContinue token := by
  rw [Token.primary?] at h
  split at h <;> try split at h
  all_goals cases h
  all_goals exact nofun

theorem readPrimary : OperandRule.readPrimary.Continues := by
  refine continues_current.bind fun token => ?_
  split
  · exact continues_advance.bind fun _ => continues_pure _
  · rename_i d hd
    exact continues_throw (fault_of_primary? hd)

theorem readUnary (h : below.Continues) : (OperandRule.readUnary below).Continues :=
  continues_advance.bind fun _ => (h.expression _).bind fun _ => continues_pure _

theorem readGroup (h : below.Continues) : (OperandRule.readGroup below).Continues :=
  continues_advance.bind fun _ => (h.expression _).bind fun _ =>
    (continues_expect _).bind fun _ => continues_pure _

theorem readArray (h : below.Continues) : (OperandRule.readArray g below).Continues := by
  refine continues_advance.bind fun _ => continues_kind.bind fun _ => ?_
  refine continues_get.bind fun _ => ?_
  apply Parser.Continues.ite
  · refine continues_advance.bind fun _ => (h.type _).bind fun _ => ?_
    exact (continues_expect _).bind fun _ => (h.arguments _).bind fun _ =>
      (continues_spanFrom _).bind fun _ => continues_pure _
  · exact (h.arguments _).bind fun _ => (continues_spanFrom _).bind fun _ => continues_pure _

theorem readConstruct (h : below.Continues) : (OperandRule.readConstruct below).Continues := by
  refine continues_advance.bind fun _ => (continues_expect _).bind fun _ => ?_
  refine continues_kind.bind fun _ => ?_
  split
  · exact continues_advance.bind fun _ => (h.arguments _).bind fun _ =>
      (continues_spanFrom _).bind fun _ => continues_pure _
  · exact continues_advance.bind fun _ => (continues_listUntil _ h.field).bind fun _ =>
      (continues_spanFrom _).bind fun _ => continues_pure _
  · exact continues_unexpectedFor _

theorem readFunction (h : below.Continues) : (OperandRule.readFunction below).Continues :=
  continues_advance.bind fun _ => h.parameters.bind fun _ => h.annotation?.bind fun _ =>
    h.block.bind fun _ => (continues_spanFrom _).bind fun _ => continues_pure _

theorem operandRule (h : below.Continues) (rule : OperandRule) :
    (rule.read g below).Continues := by
  cases rule with
  | primary => exact readPrimary
  | unary => exact h.readUnary
  | group => exact h.readGroup
  | array => exact h.readArray
  | construct => exact h.readConstruct
  | function => exact h.readFunction

theorem operatorRule (h : below.Continues) (left : Expr) (power : Power) (rule : OperatorRule) :
    (rule.read below left power).Continues := by
  cases rule with
  | binary => exact continues_advance.bind fun _ => (h.expression _).bind fun _ => continues_pure _
  | assign => exact continues_advance.bind fun _ => (h.expression _).bind fun _ => continues_pure _
  | range => exact continues_advance.bind fun _ => (h.expression _).bind fun _ => continues_pure _
  | call =>
    exact continues_advance.bind fun _ => (h.arguments _).bind fun _ =>
      (continues_spanFrom _).bind fun _ => continues_pure _
  | member =>
    exact continues_advance.bind fun _ => (continues_expect _).bind fun _ => continues_pure _
  | index =>
    exact continues_advance.bind fun _ => (h.expression _).bind fun _ =>
      (continues_expect _).bind fun _ => (continues_spanFrom _).bind fun _ => continues_pure _

/-- The loop goes on only behind a token that binds more strongly than some power, and for such a
token there is a rule. -/
theorem extend (h : below.Continues) (hg : g.Complete) (power : Power) (limit : Nat)
    (left : Expr) : (g.extend below power limit left).Continues := by
  induction limit generalizing left with
  | zero => exact continues_noProgress
  | succ limit ih =>
    refine continues_current.bind fun token => ?_
    split
    · exact continues_pure left
    · rename_i hpower
      split
      · rename_i hnone
        have hsome := hg.operators token.kind (Power.default_lt_of_not_le hpower)
        rw [hnone] at hsome
        cases hsome
      · rename_i rule _
        exact (h.operatorRule left _ rule).bind fun _ => ih _

theorem readExpression (h : below.Continues) (hg : g.Complete) (power : Power) :
    (g.readExpression below power).Continues := by
  refine continues_current.bind fun token => ?_
  split
  · exact continues_throw nofun
  · rename_i rule _
    exact (h.operandRule rule).bind fun left => continues_repetitions.bind fun limit =>
      h.extend hg power limit left

end Expressions

section Statements

theorem readExpressionStatement (h : below.Continues) :
    (StatementRule.readExpression below).Continues :=
  continues_get.bind fun _ => (h.expression _).bind fun _ => (continues_expect _).bind fun _ =>
    (continues_spanFrom _).bind fun _ => continues_pure _

theorem expression? (h : below.Continues) (absent : Kind) :
    (below.expression? absent).Continues := by
  refine continues_kind.bind fun _ => (continues_pure _).ite ?_
  exact (h.expression _).bind fun _ => continues_pure _

theorem readInitializer (h : below.Continues) (typed : Bool) :
    (StatementRule.readInitializer below typed).Continues := by
  refine continues_kind.bind fun _ => .ite ?_ ((continues_pure _).ite (continues_unexpectedFor _))
  exact (continues_expect _).bind fun _ => (h.expression _).bind fun _ => continues_pure _

theorem readVarDecl (h : below.Continues) : (StatementRule.readVarDecl below).Continues := by
  refine continues_advance.bind fun word => continues_get.bind fun _ => ?_
  refine (continues_expectOr _ (fault_unexpectedFor _ _)).bind fun name => ?_
  refine h.annotation?.bind fun type => ?_
  refine (h.readInitializer _).bind fun value => (continues_require _ _).bind fun _ => ?_
  exact (continues_expect _).bind fun _ => (continues_spanFrom _).bind fun _ => continues_pure _

theorem readSource : StatementRule.readSource.Continues := by
  refine continues_kind.bind fun _ => .ite ?_ (continues_pure _)
  refine continues_advance.bind fun _ => continues_kind.bind fun _ => .ite ?_ ?_
  · exact continues_advance.bind fun _ => continues_pure _
  · exact (continues_expect _).bind fun _ => continues_pure _

theorem readImport : StatementRule.readImport.Continues :=
  continues_advance.bind fun _ => (continues_expect _).bind fun _ => readSource.bind fun _ =>
    (continues_expect _).bind fun _ => (continues_spanFrom _).bind fun _ => continues_pure _

theorem readOtherwise (h : below.Continues) :
    (StatementRule.readOtherwise below).Continues := by
  refine continues_kind.bind fun _ => .ite ?_ (continues_pure _)
  refine continues_advance.bind fun _ => continues_kind.bind fun _ => .ite ?_ ?_
  · exact h.branch.bind fun _ => continues_pure _
  · exact h.block.bind fun _ => continues_pure _

theorem readBranch (h : below.Continues) : (StatementRule.readBranch below).Continues :=
  continues_advance.bind fun _ => (h.expression _).bind fun _ => h.block.bind fun _ =>
    h.readOtherwise.bind fun _ => (continues_spanFrom _).bind fun _ => continues_pure _

theorem readClauses (h : below.Continues) (start : Position) (init : Option Stmt) :
    (StatementRule.readClauses below start init).Continues :=
  (h.expression? _).bind fun _ => (continues_expect _).bind fun _ =>
    (h.expression? _).bind fun _ => h.statement.bind fun _ =>
      (continues_spanFrom _).bind fun _ => continues_pure _

theorem readLoop (h : below.Continues) : (StatementRule.readLoop below).Continues := by
  refine continues_advance.bind fun word => continues_kind.bind fun _ => ?_
  split
  · exact h.statement.bind fun _ => (continues_spanFrom _).bind fun _ => continues_pure _
  · exact continues_advance.bind fun _ => h.readClauses _ _
  · exact h.readVarDecl.bind fun _ => h.readClauses _ _
  · exact h.readVarDecl.bind fun _ => h.readClauses _ _
  · refine continues_get.bind fun _ => (h.expression _).bind fun _ => ?_
    refine continues_kind.bind fun _ => ?_
    apply Parser.Continues.ite
    · exact h.statement.bind fun _ => (continues_spanFrom _).bind fun _ => continues_pure _
    · exact continues_advance.bind fun _ => (continues_spanFrom _).bind fun _ => h.readClauses _ _

theorem readFnDecl (h : below.Continues) : (StatementRule.readFnDecl below).Continues := by
  refine continues_get.bind fun _ => h.readExpressionStatement.ite ?_
  refine continues_advance.bind fun _ => (continues_expect _).bind fun _ => ?_
  exact h.parameters.bind fun _ => h.annotation?.bind fun _ => h.block.bind fun _ =>
    (continues_spanFrom _).bind fun _ => continues_pure _

theorem readClass (h : below.Continues) : (StatementRule.readClass below).Continues :=
  continues_advance.bind fun _ => continues_get.bind fun _ =>
    (continues_expectOr _ (fault_unexpectedFor _ _)).bind fun _ => h.block.bind fun _ =>
      (continues_spanFrom _).bind fun _ => continues_pure _

theorem readReturn (h : below.Continues) : (StatementRule.readReturn below).Continues :=
  continues_advance.bind fun _ => (h.expression? _).bind fun _ =>
    (continues_expect _).bind fun _ => (continues_spanFrom _).bind fun _ => continues_pure _

theorem statementRule (h : below.Continues) (rule : StatementRule) :
    (rule.read below).Continues := by
  cases rule with
  | varDecl => exact h.readVarDecl
  | importDecl => exact readImport
  | branch => exact h.readBranch
  | loop => exact h.readLoop
  | block => exact h.block.bind fun _ => continues_pure _
  | fnDecl => exact h.readFnDecl
  | classDecl => exact h.readClass
  | ret => exact h.readReturn

theorem readStatement (h : below.Continues) : (g.readStatement below).Continues := by
  refine continues_kind.bind fun k => ?_
  split
  · rename_i rule _
    exact h.statementRule rule
  · exact h.readExpressionStatement

end Statements

end Level.Continues

namespace Grammar

variable {g : Grammar}

/-- Every level reads with the one below it. -/
theorem Complete.level (hg : g.Complete) (n : Nat) : (g.level n).Continues := by
  induction n with
  | zero =>
    exact ⟨fun _ => continues_noProgress, continues_noProgress, continues_noProgress,
      fun _ => continues_noProgress⟩
  | succ n ih =>
    exact ⟨fun power c => ih.readExpression hg power c, fun c => ih.readStatement c,
      fun c => ih.readBranch c, fun power c => ih.readType hg power c⟩

theorem Complete.program (hg : g.Complete) (file : String) : (g.program file).Continues := by
  have hstatement : g.statement.Continues := fun c => (hg.level _).statement c
  refine continues_repetitions.bind fun limit => ?_
  exact (continues_manyUntil _ hstatement limit).bind fun _ => continues_get.bind fun _ =>
    continues_pure _

/-- Whatever has been registered, a token that binds has a rule, so no parser through the grammar
reports one that has none: not for a whole program, nor for an expression or a type at any power,
nor for a statement, a block or parameters, wherever it begins. -/
theorem registered_continues (h : g.Registered) :
    g.Complete ∧ (∀ tokens file d c, g.parse tokens file = .error d c →
        ∀ token, d.fault ≠ .cannotContinue token) ∧
      (∀ power, (g.expression power).Continues) ∧ (∀ power, (g.type power).Continues) ∧
      g.statement.Continues ∧ g.block.Continues ∧ g.parameters.Continues := by
  have hg := h.complete
  refine ⟨hg, fun tokens file d c => hg.program file _ d c, fun power c => ?_, fun power c => ?_,
    fun c => ?_, fun c => ?_, fun c => ?_⟩
  · exact (hg.level _).expression power c
  · exact (hg.level _).type power c
  · exact (hg.level _).statement c
  · exact (hg.level _).block c
  · exact (hg.level _).parameters c

/-- The sum is registered twice, and its sign also begins statements. -/
theorem registered_continues_sums :
    let g := (((Grammar.empty.addOperand .int .primary).addOperator .plus .additive .binary)
      |>.addStatement .plus .ret).addOperator .plus .multiplicative .binary
    g.Registered ∧ g.Complete ∧ ∀ tokens file d c, g.parse tokens file = .error d c →
      ∀ token, d.fault ≠ .cannotContinue token := by
  intro g
  have h : g.Registered :=
    .operator _ _ _ (.statement _ _ (.operator _ _ _ (.operand _ _ .empty)))
  obtain ⟨hcomplete, hparse, -⟩ := registered_continues h
  exact ⟨h, hcomplete, hparse⟩

/-- A table of powers alone would not do. -/
example :
    let g : Grammar := { Grammar.empty.addOperand .trueWord .primary with power _ := .additive }
    ∃ c, g.expression .default (.ofTokens "f" [⟨.trueWord, "true", default⟩]) =
      .error ⟨.cannotContinue "EOF", default⟩ c :=
  ⟨_, rfl⟩

end Grammar

end Scriptlet
