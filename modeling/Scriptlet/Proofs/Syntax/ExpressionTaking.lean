import Scriptlet.Proofs.Syntax.Taking

namespace Scriptlet

open Scriptlet.Parser

/-- The tokens spell the expression, with or without parentheses. -/
def Expr.Free (e : Expr) (ts : List Token) : Prop := ∀ n, Expr.Spelled .free n e ts

theorem Expr.Bare.free {e : Expr} {ts : List Token} (h : Expr.Bare .free e ts) : e.Free ts :=
  fun _ => .bare trivial h

/-- Whatever the level reads is spelled by what it takes. -/
structure Level.Takes (below : Level) : Prop where
  type : ∀ c, Parser.Takes (below.type .default) c Ty.Spelled
  expression : ∀ power c, Parser.Takes (below.expression power) c Expr.Free
  statement : ∀ c, Parser.Takes below.statement c (Stmt.Spelled .free)
  branch : ∀ c, c.kind = .ifWord → Parser.Takes below.branch c (Otherwise.Spelled .free)

namespace Level.Takes

variable {below : Level} {c : Cursor}

theorem whole (hb : below.Takes) (c : Cursor) :
    Parser.Takes (below.expression .default) c (Expr.Spelled .free Power.default.rank) :=
  (hb.expression .default c).mono fun _ _ h => h _

theorem annotation? (hb : below.Takes) (c : Cursor) :
    Parser.Takes below.annotation? c (Introduced .colon Ty.Spelled) := by
  refine .look (kind_run c) ?_
  split
  · rename_i hk
    apply (takes_advance_is hk (by decide)).next
    intro colon c hcolon
    apply (hb.type c).map
    intro type ts htype
    exact .some hcolon htype
  · exact .pure .none

theorem parameter (hb : below.Takes) (c : Cursor) :
    Parser.Takes below.parameter c Parameter.Spelled := by
  apply takes_expect_name.next
  intro name c hname
  apply (takes_expect_is (by decide)).next
  intro colon c hcolon
  apply (hb.type c).map
  intro type ts htype
  exact .mk hname hcolon htype

theorem parameters (hb : below.Takes) (c : Cursor) :
    Parser.Takes below.parameters c (fun ps us => ∃ o ts close, us = o :: (ts ++ [close]) ∧
      o.Is .openParen ∧ Listed Parameter.Spelled ps ts ∧ close.Is .closeParen) := by
  apply (takes_expect_is (by decide)).next
  intro o c ho
  refine (takes_listUntil (by decide) hb.parameter c).mono ?_
  rintro ps _ ⟨ts, close, rfl, hps, hclose⟩
  exact ⟨o, ts, close, rfl, ho, hps, hclose⟩

theorem arguments (hb : below.Takes) {closing : Kind} (hs : closing.spelling?.isSome)
    (c : Cursor) :
    Parser.Takes (below.arguments closing) c (fun es us => ∃ ts close, us = ts ++ [close] ∧
      Listed (Expr.Spelled .free Power.default.rank) es ts ∧ close.Is closing) :=
  takes_listUntil hs hb.whole c

theorem field (hb : below.Takes) (c : Cursor) :
    Parser.Takes below.field c (Field.Spelled .free) := by
  apply takes_expect_name.next
  intro name c hname
  apply (takes_expect_is (by decide)).next
  intro colon c hcolon
  apply (hb.whole c).map
  intro e ts he
  exact .mk hname hcolon he

theorem block (hb : below.Takes) (c : Cursor) :
    Parser.Takes below.block c (fun b ts => Block.Spelled .free b ts) := by
  apply (takes_expect_is (by decide)).next
  intro o c ho
  refine .look (repetitions_run c) ?_
  apply (takes_manyUntil _ hb.statement _ c).bind
  intro body c ts hbody
  apply (takes_expect_is (by decide)).next
  intro close c hclose
  exact .look (spanFrom_run _ c) (.pure (.mk ho hbody hclose))

end Level.Takes

/-- The kind of an operand's first token, where a rule has only one. -/
theorem Grammar.kind_of_operandRule {k : Kind} {rule : OperandRule}
    (h : Grammar.standard.operandRule k = some rule) :
    (rule = .group → k = .openParen) ∧ (rule = .array → k = .openBracket) ∧
      (rule = .construct → k = .newWord) ∧ (rule = .function → k = .functionWord) := by
  revert h
  cases k <;> cases rule <;> decide

section Operands

variable {below : Level} {c : Cursor}

/-- A token that stands for an expression spells it. -/
theorem Token.bare_of_primary? {t : Token} (ht : t.Proper) {e : Expr} (h : t.primary? = .ok e) :
    Expr.Bare .free e [t] := by
  rw [Token.primary?] at h
  -- The kinds of literals, in the order of the rule: numbers may be too large to be read.
  split at h <;> rename_i hk
  · split at h
    · rename_i hv
      cases h
      exact .int hk hv
    · cases h
  · split at h
    · rename_i hv
      cases h
      exact .float hk hv
    · cases h
  · cases h
    exact .string hk
  · cases h
    exact .bool (ht.is hk (by decide))
  · cases h
    exact .bool (ht.is hk (by decide))
  · cases h
    exact .symbol (.inl (ht.isName hk))
  · cases h
    exact .symbol (.inr (ht.is hk (by decide)))
  · cases h

theorem takes_readPrimary (hk : c.kind ≠ .eof) :
    Takes OperandRule.readPrimary c Expr.Free := by
  refine .look (current_run c) ?_
  split
  · rename_i e he
    apply (takes_advance hk).next
    rintro t c' ⟨rfl, hproper⟩
    exact .pure (Token.bare_of_primary? hproper he).free
  · rename_i d _
    exact .of_error (throw_run d c)

theorem Level.Takes.readUnary (hb : below.Takes)
    (hrule : Grammar.standard.operandRule c.kind = some .unary) :
    Parser.Takes (OperandRule.readUnary below) c Expr.Free := by
  have hne : c.kind ≠ .eof := by
    rintro heq
    rw [heq] at hrule
    cases hrule
  apply (takes_advance hne).next
  rintro operator c' ⟨rfl, -⟩
  apply (hb.expression .unary c').map
  intro operand ts he
  exact Expr.Bare.free (.unary hrule rfl rfl (he _))

theorem Level.Takes.readGroup (hb : below.Takes) (hk : c.kind = .openParen) :
    Parser.Takes (OperandRule.readGroup below) c Expr.Free := by
  apply (takes_advance_is hk (by decide)).next
  intro o c ho
  apply (hb.whole c).bind
  intro e c ts he
  apply (takes_expect_is (by decide)).next
  intro close c hclose
  exact .pure fun n => .group ho he hclose

theorem Level.Takes.readArray (hb : below.Takes) (hk : c.kind = .openBracket) :
    Parser.Takes (OperandRule.readArray Grammar.standard below) c Expr.Free := by
  apply (takes_advance_is hk (by decide)).next
  intro o c ho
  -- Empty brackets before the beginning of a type are its own, and none of a list.
  refine .look (kind_run c) (.look (get_run c) ?_)
  split
  · rename_i hempty
    apply (takes_advance_is hempty.1 (by decide)).next
    intro cb c hcb
    apply (hb.type c).bind
    intro item c ts hitem
    apply (takes_expect_is (by decide)).next
    intro curly c hcurly
    apply (hb.arguments (by decide) c).bind
    rintro items c _ ⟨us, close, rfl, hitems, hclose⟩
    refine .look (spanFrom_run _ c) (.pure ?_)
    rw [List.append_nil]
    exact Expr.Bare.free (.arrayOf ho hcb hitem hcurly hitems hclose)
  · apply (hb.arguments (by decide) c).bind
    rintro items c _ ⟨us, close, rfl, hitems, hclose⟩
    refine .look (spanFrom_run _ c) (.pure ?_)
    rw [List.append_nil]
    exact Expr.Bare.free (.array ho hitems hclose)

theorem Level.Takes.readConstruct (hb : below.Takes) (hk : c.kind = .newWord) :
    Parser.Takes (OperandRule.readConstruct below) c Expr.Free := by
  apply (takes_advance_is hk (by decide)).next
  intro word c hword
  apply takes_expect_name.next
  intro name c hname
  refine .look (kind_run c) ?_
  split
  · rename_i hk
    apply (takes_advance_is hk (by decide)).next
    intro o c ho
    apply (hb.arguments (by decide) c).bind
    rintro arguments c _ ⟨us, close, rfl, harguments, hclose⟩
    refine .look (spanFrom_run _ c) (.pure ?_)
    rw [List.append_nil]
    exact Expr.Bare.free (.construct hword hname ho harguments hclose)
  · rename_i hk
    apply (takes_advance_is hk (by decide)).next
    intro o c ho
    apply (takes_listUntil (by decide) hb.field c).bind
    rintro fields c _ ⟨us, close, rfl, hfields, hclose⟩
    refine .look (spanFrom_run _ c) (.pure ?_)
    rw [List.append_nil]
    exact Expr.Bare.free (.structOf hword hname ho hfields hclose)
  · exact .of_error (unexpectedFor_run _ c)

theorem Level.Takes.readFunction (hb : below.Takes) (hk : c.kind = .functionWord) :
    Parser.Takes (OperandRule.readFunction below) c Expr.Free := by
  apply (takes_advance_is hk (by decide)).next
  intro word c hword
  apply (hb.parameters c).bind
  rintro parameters c _ ⟨o, ts, close, rfl, ho, hparameters, hclose⟩
  apply (hb.annotation? c).bind
  intro result c us hresult
  apply (hb.block c).bind
  rintro ⟨body, bs⟩ c vs hbody
  refine .look (spanFrom_run _ c) (.pure ?_)
  simp only [List.append_nil, List.cons_append, List.append_assoc, List.nil_append]
  exact Expr.Bare.free (.function hword ho hparameters hclose hresult hbody)

end Operands

/-- The kind of an operator, where a rule has only one. -/
theorem Grammar.kind_of_operatorRule {k : Kind} {rule : OperatorRule}
    (h : Grammar.standard.operatorRule k = some rule) :
    k ≠ .eof ∧ (rule = .range → k = .dotDot) ∧ (rule = .call → k = .openParen) ∧
      (rule = .member → k = .dot) ∧ (rule = .index → k = .openBracket) := by
  revert h
  cases k <;> cases rule <;> decide

/-- Behind the tokens of a left side these tokens spell the expression. -/
def Expr.Extends (left e : Expr) (ts : List Token) : Prop :=
  ∀ a, left.Free a → e.Free (a ++ ts)

section Operators

variable {below : Level} {c : Cursor}

theorem Level.Takes.readBinary (hb : below.Takes) (left : Expr) (power : Power)
    (hrule : Grammar.standard.operatorRule c.kind = some .binary) :
    Parser.Takes (OperatorRule.readBinary below left power) c left.Extends := by
  apply (takes_advance (Grammar.kind_of_operatorRule hrule).1).next
  rintro operator c' ⟨rfl, -⟩
  apply (hb.expression power c').map
  intro right ts hright a ha
  exact Expr.Bare.free (.binary hrule rfl rfl (ha _) (hright _))

theorem Level.Takes.readAssign (hb : below.Takes) (left : Expr)
    (hrule : Grammar.standard.operatorRule c.kind = some .assign) :
    Parser.Takes (OperatorRule.readAssign below left) c left.Extends := by
  apply (takes_advance (Grammar.kind_of_operatorRule hrule).1).next
  rintro operator c' ⟨rfl, -⟩
  apply (hb.expression .comma c').map
  intro value ts hvalue a ha
  exact Expr.Bare.free (.assign hrule rfl rfl (ha _) (hvalue _))

theorem Level.Takes.readRange (hb : below.Takes) (left : Expr) (power : Power)
    (hk : c.kind = .dotDot) :
    Parser.Takes (OperatorRule.readRange below left power) c left.Extends := by
  apply (takes_advance_is hk (by decide)).next
  intro t c ht
  apply (hb.expression power c).map
  intro upper ts hupper a ha
  exact Expr.Bare.free (.range ht (ha _) (hupper _))

theorem Level.Takes.readCall (hb : below.Takes) (left : Expr) (hk : c.kind = .openParen) :
    Parser.Takes (OperatorRule.readCall below left) c left.Extends := by
  apply (takes_advance_is hk (by decide)).next
  intro o c ho
  apply (hb.arguments (by decide) c).bind
  rintro arguments c _ ⟨ts, close, rfl, harguments, hclose⟩
  refine .look (spanFrom_run _ c) (.pure fun a ha => ?_)
  rw [List.append_nil]
  exact Expr.Bare.free (.call (ha _) ho harguments hclose)

theorem takes_readMember (left : Expr) (hk : c.kind = .dot) :
    Takes (OperatorRule.readMember left) c left.Extends := by
  apply (takes_advance_is hk (by decide)).next
  intro dot c hdot
  apply takes_expect_name.next
  intro property c hproperty
  exact .pure fun a ha => Expr.Bare.free (.member (ha _) hdot hproperty)

theorem Level.Takes.readIndex (hb : below.Takes) (left : Expr) (hk : c.kind = .openBracket) :
    Parser.Takes (OperatorRule.readIndex below left) c left.Extends := by
  apply (takes_advance_is hk (by decide)).next
  intro o c ho
  apply (hb.whole c).bind
  intro position c ts hposition
  apply (takes_expect_is (by decide)).next
  intro close c hclose
  exact .look (spanFrom_run _ c)
    (.pure fun a ha => Expr.Bare.free (.index (ha _) ho hposition hclose))

theorem Level.Takes.readOperand (hb : below.Takes) {rule : OperandRule}
    (hrule : Grammar.standard.operandRule c.kind = some rule) :
    Parser.Takes (rule.read Grammar.standard below) c Expr.Free := by
  obtain ⟨hgroup, harray, hconstruct, hfunction⟩ := Grammar.kind_of_operandRule hrule
  cases rule with
  | primary =>
    refine takes_readPrimary ?_
    rintro heq
    rw [heq] at hrule
    cases hrule
  | unary => exact hb.readUnary hrule
  | group => exact hb.readGroup (hgroup rfl)
  | array => exact hb.readArray (harray rfl)
  | construct => exact hb.readConstruct (hconstruct rfl)
  | function => exact hb.readFunction (hfunction rfl)

theorem Level.Takes.readOperator (hb : below.Takes) {rule : OperatorRule}
    (hrule : Grammar.standard.operatorRule c.kind = some rule) (left : Expr) (power : Power) :
    Parser.Takes (rule.read below left power) c left.Extends := by
  obtain ⟨-, hrange, hcall, hmember, hindex⟩ := Grammar.kind_of_operatorRule hrule
  cases rule with
  | binary => exact hb.readBinary left power hrule
  | assign => exact hb.readAssign left hrule
  | range => exact hb.readRange left power (hrange rfl)
  | call => exact hb.readCall left (hcall rfl)
  | member => exact takes_readMember left (hmember rfl)
  | index => exact hb.readIndex left (hindex rfl)

/-- Every operator and its right side are put behind what has been taken. -/
theorem Level.Takes.extend (hb : below.Takes) (power : Power) (limit : Nat) (left : Expr)
    (c : Cursor) :
    Parser.Takes (Grammar.standard.extend below power limit left) c left.Extends := by
  -- Each round goes on with a larger left side, and with the tokens that spell it.
  induction limit generalizing left c with
  | zero => exact .of_error (noProgress_run c)
  | succ limit ih =>
    refine .look (current_run c) ?_
    split
    · refine .pure fun a ha => ?_
      rwa [List.append_nil]
    · split
      · exact .of_error (throw_run _ c)
      · rename_i rule hrule
        apply (hb.readOperator hrule left _).bind
        intro e c' ts he
        refine (ih e c').mono ?_
        intro e' us he' a ha
        rw [← List.append_assoc]
        exact he' _ (he a ha)

theorem Level.Takes.readExpression (hb : below.Takes) (power : Power) (c : Cursor) :
    Parser.Takes (Grammar.standard.readExpression below power) c Expr.Free := by
  refine .look (current_run c) ?_
  split
  · exact .of_error (throw_run _ c)
  · rename_i rule hrule
    apply (hb.readOperand hrule).bind
    intro left c' ts hleft
    exact .look (repetitions_run c') ((hb.extend power _ left c').mono fun e us he => he ts hleft)

end Operators

/-- A token that stands for a type spells it. -/
theorem Token.Proper.spells_type {t : Token} (ht : t.Proper)
    (hrule : Grammar.standard.typeRule t.kind = some .named) :
    Ty.Spelled (.named t.value) [t] := by
  by_cases hk : t.kind = .identifier
  · exact .named (ht.isName hk)
  · refine .primitive (ht.is rfl ?_) hrule
    revert hk hrule
    cases t.kind <;> decide

theorem Level.Takes.readTypeRule {below : Level} (hb : below.Takes) {rule : TypeRule} {c : Cursor}
    (hrule : Grammar.standard.typeRule c.kind = some rule) :
    Parser.Takes (rule.read below) c Ty.Spelled := by
  cases rule with
  | named =>
    have hne : c.kind ≠ .eof := by
      rintro heq
      rw [heq] at hrule
      cases hrule
    apply (takes_advance hne).next
    rintro t c' ⟨rfl, hproper⟩
    exact .pure (hproper.spells_type hrule)
  | list =>
    apply (takes_expect_is (by decide)).next
    intro o c ho
    apply (takes_expect_is (by decide)).next
    intro close c hclose
    apply (hb.type c).map
    intro item ts hitem
    exact .list ho hclose hitem

theorem Level.Takes.readType {below : Level} (hb : below.Takes) (c : Cursor) :
    Parser.Takes (Grammar.standard.readType below .default) c Ty.Spelled := by
  refine .look (current_run c) ?_
  split
  · exact .of_error (throw_run _ c)
  · rename_i rule hrule
    apply (hb.readTypeRule hrule).bind
    intro type c ts htype
    -- No operator extends a type.
    refine .look (repetitions_run c) (.pure ?_)
    rwa [List.append_nil]

end Scriptlet
