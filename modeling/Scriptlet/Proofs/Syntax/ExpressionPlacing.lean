import Scriptlet.Proofs.Syntax.Placing

namespace Scriptlet

open Scriptlet.Parser Region

/-- Whatever the level reads stands among the tokens that it passes. -/
structure Level.Places (ts : List Token) (below : Level) : Prop where
  type : ∀ c, Parser.Places ts (below.type .default) c fun _ _ => True
  expression : ∀ power c, Parser.Places ts (below.expression power) c
    fun e c' => Among ts c.index c'.index [e.region]
  statement : ∀ c, Parser.Places ts below.statement c
    fun s c' => Among ts c.index c'.index [s.region]
  branch : ∀ c, c.kind = .ifWord → Parser.Places ts below.branch c
    fun s c' => Among ts c.index c'.index [s.region]

namespace Level.Places

variable {ts : List Token} {below : Level} {c : Cursor}

theorem annotation? (hb : below.Places ts) (c : Cursor) :
    Parser.Places ts below.annotation? c fun _ _ => True := by
  refine .look (kind_run c) ?_
  split
  · rename_i hk
    apply (places_advance (by rw [hk]; decide)).next
    intro colon c₁ _ _
    exact (hb.type c₁).map fun _ _ _ _ => trivial
  · exact .pure fun _ => trivial

theorem parameters (hb : below.Places ts) (c : Cursor) :
    Parser.Places ts below.parameters c fun _ _ => True := by
  have hparameter (c : Cursor) : Parser.Places ts below.parameter c
      fun _ c' => Among ts c.index c'.index [] := by
    apply (places_expect (by decide)).next
    intro name c₁ _ hname
    apply (places_expect (by decide)).next
    intro colon c₂ _ hcolon
    apply (hb.type c₂).map
    intro type c' hle _
    exact .nil (by omega)
  apply (places_expect (by decide)).next
  intro o c₁ _ _
  exact (places_listUntil (by decide) hparameter c₁).mono fun _ _ _ _ => trivial

theorem arguments (hb : below.Places ts) {closing : Kind} (hk : closing ≠ .eof) (c : Cursor) :
    Parser.Places ts (below.arguments closing) c
      fun es c' => Among ts c.index c'.index (Expr.regions es) := by
  refine (places_listUntil hk (hb.expression .default) c).mono fun es c' _ hes => ?_
  rwa [Expr.regions_eq_flatMap]

theorem fields (hb : below.Places ts) (c : Cursor) :
    Parser.Places ts (listUntil .closeCurly below.field) c
      fun fields c' => Among ts c.index c'.index (Expr.regionsOfFields fields) := by
  have hfield (c : Cursor) : Parser.Places ts below.field c
      fun field c' => Among ts c.index c'.index [field.2.region] := by
    apply (places_expect (by decide)).next
    intro name c₁ _ hname
    apply (places_expect (by decide)).next
    intro colon c₂ _ hcolon
    apply (hb.expression .default c₂).map
    intro e c' _ he
    exact he.mono (by omega) (Nat.le_refl _)
  refine (places_listUntil (by decide) hfield c).mono fun fields c' _ hfields => ?_
  rwa [Expr.regionsOfFields_eq_flatMap]

theorem block (hb : below.Places ts) (c : Cursor) :
    Parser.Places ts below.block c fun b c' => Among ts c.index c'.index [b.region] := by
  apply (places_expect (by decide)).next
  intro o c₁ ho hindex
  refine .look (repetitions_run c₁) ?_
  apply (places_manyUntil _ hb.statement _ c₁).bind
  intro body c₂ hle hbody
  apply (places_expect (by decide)).next
  intro close c₃ _ hclose
  rw [← Stmt.regions_eq_flatMap] at hbody
  exact .spanned ho (by omega) (hbody.mono (by omega) (by omega)) fun _ => rfl

end Level.Places

section Operands

variable {ts : List Token} {below : Level} {c : Cursor}

theorem Token.region_of_primary? {t : Token} {e : Expr} (h : t.primary? = .ok e) :
    e.region = t.region := by
  rw [Token.primary?] at h
  split at h <;> try split at h
  all_goals cases h
  all_goals rfl

theorem places_readPrimary (hk : c.kind ≠ .eof) :
    Places ts OperandRule.readPrimary c fun e c' => Among ts c.index c'.index [e.region] := by
  refine .look (current_run c) ?_
  split
  · rename_i e he
    intro hc
    refine (places_advance hk).next (fun t c' _ hindex => .pure fun _ => ?_) hc
    rw [Token.region_of_primary? he, hindex]
    exact .token hc.current
  · exact .of_error (throw_run _ c)

theorem Level.Places.readUnary (hb : below.Places ts) (hk : c.kind ≠ .eof) :
    Parser.Places ts (OperandRule.readUnary below) c
      fun e c' => Among ts c.index c'.index [e.region] := by
  apply (places_advance hk).next
  intro operator c₁ hoperator hindex
  apply (hb.expression .unary c₁).map
  intro operand c' _ hoperand
  rw [hindex] at hoperand
  have hparts := (Among.token hoperator).append hoperand
  rw [Expr.region, ← operand.span_region]
  exact hparts.cover

theorem Level.Places.readGroup (hb : below.Places ts) (hk : c.kind ≠ .eof) :
    Parser.Places ts (OperandRule.readGroup below) c
      fun e c' => Among ts c.index c'.index [e.region] := by
  apply (places_advance hk).next
  intro o c₁ _ ho
  apply (hb.expression .default c₁).bind
  intro e c₂ hle he
  apply (places_expect (by decide)).next
  intro close c₃ _ hclose
  exact .pure fun _ => he.mono (by omega) (by omega)

theorem Level.Places.readArray (hb : below.Places ts) (hk : c.kind ≠ .eof) :
    Parser.Places ts (OperandRule.readArray Grammar.standard below) c
      fun e c' => Among ts c.index c'.index [e.region] := by
  apply (places_advance hk).next
  intro o c₁ ho hindex
  refine .look (kind_run c₁) (.look (get_run c₁) ?_)
  split
  · rename_i hempty
    apply (places_advance (by rw [hempty.1]; decide)).next
    intro close c₂ _ hclose
    apply (hb.type c₂).bind
    intro item c₃ hitem _
    apply (places_expect (by decide)).next
    intro curly c₄ _ hcurly
    apply (hb.arguments (by decide) c₄).bind
    intro items c' hle hitems
    exact .spanned ho (by omega) (hitems.mono (by omega) (Nat.le_refl _)) fun _ => rfl
  · apply (hb.arguments (by decide) c₁).bind
    intro items c' hle hitems
    exact .spanned ho (by omega) (hitems.mono (by omega) (Nat.le_refl _)) fun _ => rfl

theorem Level.Places.readConstruct (hb : below.Places ts) (hk : c.kind ≠ .eof) :
    Parser.Places ts (OperandRule.readConstruct below) c
      fun e c' => Among ts c.index c'.index [e.region] := by
  apply (places_advance hk).next
  intro word c₁ hword hindex
  apply (places_expect (by decide)).next
  intro name c₂ _ hname
  refine .look (kind_run c₂) ?_
  split
  · rename_i hk
    apply (places_advance (by rw [hk]; decide)).next
    intro o c₃ _ ho
    apply (hb.arguments (by decide) c₃).bind
    intro arguments c' hle harguments
    exact .spanned hword (by omega) (harguments.mono (by omega) (Nat.le_refl _)) fun _ => rfl
  · rename_i hk
    apply (places_advance (by rw [hk]; decide)).next
    intro o c₃ _ ho
    apply (hb.fields c₃).bind
    intro fields c' hle hfields
    exact .spanned hword (by omega) (hfields.mono (by omega) (Nat.le_refl _)) fun _ => rfl
  · exact .of_error (unexpectedFor_run _ c₂)

theorem Level.Places.readFunction (hb : below.Places ts) (hk : c.kind ≠ .eof) :
    Parser.Places ts (OperandRule.readFunction below) c
      fun e c' => Among ts c.index c'.index [e.region] := by
  apply (places_advance hk).next
  intro word c₁ hword hindex
  apply (hb.parameters c₁).bind
  intro parameters c₂ hparameters _
  apply (hb.annotation? c₂).bind
  intro result c₃ hresult _
  apply (hb.block c₃).bind
  intro body c' hle hbody
  -- The statements of the body are parts of the function itself.
  rw [Block.region_eq] at hbody
  exact .spanned hword (by omega) (hbody.parts.mono (by omega) (Nat.le_refl _)) fun _ => rfl

theorem Level.Places.readOperand (hb : below.Places ts) {rule : OperandRule}
    (hrule : Grammar.standard.operandRule c.kind = some rule) :
    Parser.Places ts (rule.read Grammar.standard below) c
      fun e c' => Among ts c.index c'.index [e.region] := by
  have hk : c.kind ≠ .eof := Kind.ne_eof_of_rule Grammar.standard.operandRule rfl hrule
  cases rule with
  | primary => exact places_readPrimary hk
  | unary => exact hb.readUnary hk
  | group => exact hb.readGroup hk
  | array => exact hb.readArray hk
  | construct => exact hb.readConstruct hk
  | function => exact hb.readFunction hk

end Operands

section Operators

variable {ts : List Token} {below : Level} {c : Cursor} {lo : Nat} {left : Expr}

theorem Level.Places.readBinary (hb : below.Places ts) (power : Power) (hk : c.kind ≠ .eof)
    (hleft : Among ts lo c.index [left.region]) :
    Parser.Places ts (OperatorRule.readBinary below left power) c
      fun e c' => Among ts lo c'.index [e.region] := by
  apply (places_advance hk).next
  intro operator c₁ hoperator hindex
  apply (hb.expression power c₁).map
  intro right c' _ hright
  rw [hindex] at hright
  have hparts := (hleft.append (.token hoperator)).append hright
  rw [Expr.region, ← left.span_region, ← right.span_region]
  exact hparts.cover

theorem Level.Places.readAssign (hb : below.Places ts) (hk : c.kind ≠ .eof)
    (hleft : Among ts lo c.index [left.region]) :
    Parser.Places ts (OperatorRule.readAssign below left) c
      fun e c' => Among ts lo c'.index [e.region] := by
  apply (places_advance hk).next
  intro operator c₁ hoperator hindex
  apply (hb.expression .comma c₁).map
  intro value c' _ hvalue
  rw [hindex] at hvalue
  have hparts := (hleft.append (.token hoperator)).append hvalue
  rw [Expr.region, ← left.span_region, ← value.span_region]
  exact hparts.cover

theorem Level.Places.readRange (hb : below.Places ts) (power : Power) (hk : c.kind ≠ .eof)
    (hleft : Among ts lo c.index [left.region]) :
    Parser.Places ts (OperatorRule.readRange below left power) c
      fun e c' => Among ts lo c'.index [e.region] := by
  apply (places_advance hk).next
  intro operator c₁ _ hindex
  apply (hb.expression power c₁).map
  intro upper c' _ hupper
  have hparts := hleft.append (hupper.mono (by omega) (Nat.le_refl _))
  rw [Expr.region, ← left.span_region, ← upper.span_region]
  exact hparts.cover

theorem Level.Places.readCall (hb : below.Places ts) (hk : c.kind ≠ .eof)
    (hleft : Among ts lo c.index [left.region]) :
    Parser.Places ts (OperatorRule.readCall below left) c
      fun e c' => Among ts lo c'.index [e.region] := by
  apply (places_advance hk).next
  intro o c₁ _ hindex
  apply (hb.arguments (by decide) c₁).bind
  intro arguments c' _ harguments
  have hparts := hleft.append (harguments.mono (by omega) (Nat.le_refl _))
  rw [Expr.start, ← left.span_region]
  exact .spanned_part hparts (Nat.le_refl _) fun _ => rfl

theorem places_readMember (hk : c.kind ≠ .eof) (hleft : Among ts lo c.index [left.region]) :
    Places ts (OperatorRule.readMember left) c
      fun e c' => Among ts lo c'.index [e.region] := by
  apply (places_advance hk).next
  intro dot c₁ _ hindex
  apply (places_expect (by decide)).next
  intro property c' hproperty hindex'
  refine .pure fun _ => ?_
  rw [Expr.region, ← left.span_region, hindex']
  exact hleft.upto (by omega) hproperty

theorem Level.Places.readIndex (hb : below.Places ts) (hk : c.kind ≠ .eof)
    (hleft : Among ts lo c.index [left.region]) :
    Parser.Places ts (OperatorRule.readIndex below left) c
      fun e c' => Among ts lo c'.index [e.region] := by
  apply (places_advance hk).next
  intro o c₁ _ hindex
  apply (hb.expression .default c₁).bind
  intro position c₂ _ hposition
  apply (places_expect (by decide)).next
  intro close c' _ hclose
  have hparts := hleft.append (hposition.mono (by omega) (Nat.le_refl _))
  rw [Expr.start, ← left.span_region]
  exact .spanned_part hparts (by omega) fun _ => rfl

theorem Level.Places.readOperator (hb : below.Places ts) {rule : OperatorRule}
    (hrule : Grammar.standard.operatorRule c.kind = some rule) (power : Power)
    (hleft : Among ts lo c.index [left.region]) :
    Parser.Places ts (rule.read below left power) c
      fun e c' => Among ts lo c'.index [e.region] := by
  obtain ⟨hk, -⟩ := Grammar.kind_of_operatorRule hrule
  cases rule with
  | binary => exact hb.readBinary power hk hleft
  | assign => exact hb.readAssign hk hleft
  | range => exact hb.readRange power hk hleft
  | call => exact hb.readCall hk hleft
  | member => exact places_readMember hk hleft
  | index => exact hb.readIndex hk hleft

/-- Every round ends behind its operator, with a left side that begins where the first one did. -/
theorem Level.Places.extend (hb : below.Places ts) (power : Power) (limit : Nat)
    (hleft : Among ts lo c.index [left.region]) :
    Parser.Places ts (Grammar.standard.extend below power limit left) c
      fun e c' => Among ts lo c'.index [e.region] := by
  -- On the rounds that are left: the left side of the next one is all that was read so far.
  induction limit generalizing left c with
  | zero => exact .of_error (noProgress_run c)
  | succ limit ih =>
    refine .look (current_run c) ?_
    split
    · exact .pure fun _ => hleft
    · split
      · exact .of_error (throw_run _ c)
      · rename_i rule hrule
        apply (hb.readOperator hrule _ hleft).bind
        intro e c' _ he
        exact ih he

theorem Level.Places.readExpression (hb : below.Places ts) (power : Power) (c : Cursor) :
    Parser.Places ts (Grammar.standard.readExpression below power) c
      fun e c' => Among ts c.index c'.index [e.region] := by
  refine .look (current_run c) ?_
  split
  · exact .of_error (throw_run _ c)
  · rename_i rule hrule
    apply (hb.readOperand hrule).bind
    intro left c' _ hleft
    exact .look (repetitions_run c') (hb.extend power _ hleft)

end Operators

theorem Level.Places.readType {ts : List Token} {below : Level} (hb : below.Places ts)
    (c : Cursor) :
    Parser.Places ts (Grammar.standard.readType below .default) c fun _ _ => True := by
  refine .look (current_run c) ?_
  split
  · exact .of_error (throw_run _ c)
  · rename_i rule hrule
    have hrule' : Parser.Places ts (rule.read below) c fun _ _ => True := by
      cases rule with
      | named =>
        have hk : c.kind ≠ .eof := Kind.ne_eof_of_rule Grammar.standard.typeRule rfl hrule
        apply (places_advance hk).next
        intro t c₁ _ _
        exact .pure fun _ => trivial
      | list =>
        apply (places_expect (by decide)).next
        intro o c₁ _ _
        apply (places_expect (by decide)).next
        intro close c₂ _ _
        exact (hb.type c₂).map fun _ _ _ _ => trivial
    apply hrule'.bind
    intro left c' _ _
    -- No operator extends a type.
    exact .look (repetitions_run c') (.pure fun _ => trivial)

end Scriptlet
