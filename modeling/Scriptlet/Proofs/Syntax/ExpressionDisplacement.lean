import Scriptlet.Proofs.Syntax.Displacement

namespace Scriptlet

open Scriptlet.Parser

/-- Whatever the level reads, it reads in the other places too. Nothing matters that is passed
before. -/
structure Level.Displaces (m : Position → Position) (below : Level) : Prop where
  type : ∀ {placed} c, Tracks m placed (below.type .default) (below.type .default) id c
  expression : ∀ {placed} power c,
    Tracks m placed (below.expression power) (below.expression power) (Expr.move m) c
  statement : ∀ {placed} c, Tracks m placed below.statement below.statement (Stmt.move m) c
  branch : ∀ {placed} c, c.kind = .ifWord →
    Tracks m placed below.branch below.branch (Stmt.move m) c

namespace Level.Displaces

variable {m : Position → Position} {placed : Prop} {below : Level} {c : Cursor}

theorem annotation? (hb : below.Displaces m) (c : Cursor) :
    Tracks m True below.annotation? below.annotation? id c := by
  apply Tracks.kind
  split
  · rename_i hk
    apply (tracks_advance (by rw [hk]; decide)).bind
    intro colon c₁
    exact (hb.type c₁).map fun _ => rfl
  · exact .pure rfl

theorem parameters (hb : below.Displaces m) (c : Cursor) :
    Tracks m placed below.parameters below.parameters id c := by
  have hparameter (c : Cursor) : Tracks m True below.parameter below.parameter id c := by
    apply (tracks_expect (by decide)).bind
    intro name c₁
    apply (tracks_expect (by decide)).bind
    intro colon c₂
    exact (hb.type c₂).map fun _ => rfl
  apply (tracks_expect (by decide)).bind
  intro o c₁
  rw [← List.map_id_fun]
  exact tracks_listUntil (by decide) hparameter c₁

theorem arguments (hb : below.Displaces m) {closing : Kind} (hk : closing ≠ .eof) (c : Cursor) :
    Tracks m True (below.arguments closing) (below.arguments closing) (List.map (Expr.move m)) c :=
  tracks_listUntil hk (hb.expression .default) c

theorem fields (hb : below.Displaces m) (c : Cursor) :
    Tracks m True (listUntil .closeCurly below.field) (listUntil .closeCurly below.field)
      (List.map fun field => (field.1, field.2.move m)) c := by
  refine tracks_listUntil (by decide) (fun c => ?_) c
  apply (tracks_expect (by decide)).bind
  intro name c₁
  apply (tracks_expect (by decide)).bind
  intro colon c₂
  exact (hb.expression .default c₂).map fun _ => rfl

theorem block (hb : below.Displaces m) (c : Cursor) :
    Tracks m placed below.block below.block (Block.move m) c := by
  apply (tracks_expect (by decide)).bind
  intro o c₁
  apply Tracks.repetitions
  apply (tracks_manyUntil _ hb.statement _ c₁).bind
  intro body c₂
  apply (tracks_expect (by decide)).bind
  intro close c₃
  exact .spanned fun s => (Block.respan_mk s body).symm

section Operands

theorem primary?_move (t : Token) :
    (t.move m).primary? = match t.primary? with
      | .ok e => .ok (e.move m)
      | .error d => .error (d.move m) := by
  rw [Token.primary?, Token.primary?]
  dsimp only [Token.move]
  split
  -- Of the literals only numbers may fail to be read.
  · split <;> rfl
  · split <;> rfl
  all_goals rfl

theorem tracks_readPrimary (hk : c.kind ≠ .eof) :
    Tracks m placed OperandRule.readPrimary OperandRule.readPrimary (Expr.move m) c := by
  apply Tracks.current
  rw [primary?_move]
  cases c.current.primary? with
  | ok e =>
    apply (tracks_advance hk).bind
    intro t c₁
    exact .pure rfl
  | error d => exact .throw _ _

theorem readUnary (hb : below.Displaces m) (hk : c.kind ≠ .eof) :
    Tracks m placed (OperandRule.readUnary below) (OperandRule.readUnary below) (Expr.move m)
      c := by
  apply (tracks_advance hk).bind
  intro operator c₁
  apply (hb.expression .unary c₁).map
  intro operand
  rw [operand.span_move]
  rfl

theorem readGroup (hb : below.Displaces m) (hk : c.kind ≠ .eof) :
    Tracks m placed (OperandRule.readGroup below) (OperandRule.readGroup below) (Expr.move m)
      c := by
  apply (tracks_advance hk).bind
  intro o c₁
  apply (hb.expression .default c₁).bind
  intro e c₂
  apply (tracks_expect (by decide)).bind
  intro close c₃
  exact .pure rfl

theorem readArray (hb : below.Displaces m) (hk : c.kind ≠ .eof) :
    Tracks m placed (OperandRule.readArray Grammar.standard below)
      (OperandRule.readArray Grammar.standard below) (Expr.move m) c := by
  apply (tracks_advance hk).bind
  intro o c₁
  apply Tracks.kind
  apply Tracks.get
  intro e he
  rw [he.peek]
  split
  · rename_i hempty
    apply (tracks_advance (by rw [hempty.1]; decide)).bind
    intro close c₂
    apply (hb.type c₂).bind
    intro item c₃
    apply (tracks_expect (by decide)).bind
    intro curly c₄
    apply (hb.arguments (by decide) c₄).bind
    intro items c₅
    exact .spanned fun s => (Expr.respan_arrayOf s item items).symm
  · apply (hb.arguments (by decide) c₁).bind
    intro items c₂
    exact .spanned fun s => (Expr.respan_array s items).symm

theorem readConstruct (hb : below.Displaces m) (hk : c.kind ≠ .eof) :
    Tracks m placed (OperandRule.readConstruct below) (OperandRule.readConstruct below)
      (Expr.move m) c := by
  apply (tracks_advance hk).bind
  intro word c₁
  apply (tracks_expect (by decide)).bind
  intro name c₂
  apply Tracks.kind
  split
  · rename_i hk
    apply (tracks_advance (by rw [hk]; decide)).bind
    intro o c₃
    apply (hb.arguments (by decide) c₃).bind
    intro arguments c₄
    exact .spanned fun s => (Expr.respan_construct s name.value arguments).symm
  · rename_i hk
    apply (tracks_advance (by rw [hk]; decide)).bind
    intro o c₃
    apply (hb.fields c₃).bind
    intro fields c₄
    exact .spanned fun s => (Expr.respan_structOf s name.value fields).symm
  · exact .unexpectedFor _

theorem readFunction (hb : below.Displaces m) (hk : c.kind ≠ .eof) :
    Tracks m placed (OperandRule.readFunction below) (OperandRule.readFunction below)
      (Expr.move m) c := by
  apply (tracks_advance hk).bind
  intro word c₁
  apply (hb.parameters c₁).bind
  intro parameters c₂
  apply (hb.annotation? c₂).bind
  intro result c₃
  apply (hb.block c₃).bind
  intro body c₄
  cases body
  exact .spanned fun s => rfl

theorem readOperand (hb : below.Displaces m) {rule : OperandRule}
    (hrule : Grammar.standard.operandRule c.kind = some rule) :
    Tracks m placed (rule.read Grammar.standard below) (rule.read Grammar.standard below)
      (Expr.move m) c := by
  have hk : c.kind ≠ .eof := Kind.ne_eof_of_rule Grammar.standard.operandRule rfl hrule
  cases rule with
  | primary => exact tracks_readPrimary hk
  | unary => exact hb.readUnary hk
  | group => exact hb.readGroup hk
  | array => exact hb.readArray hk
  | construct => exact hb.readConstruct hk
  | function => exact hb.readFunction hk

end Operands

section Operators

variable {left : Expr}

theorem readBinary (hb : below.Displaces m) (power : Power) (hk : c.kind ≠ .eof) :
    Tracks m True (OperatorRule.readBinary below left power)
      (OperatorRule.readBinary below (left.move m) power) (Expr.move m) c := by
  apply (tracks_advance hk).bind
  intro operator c₁
  apply (hb.expression power c₁).map
  intro right
  rw [left.span_move, right.span_move]
  rfl

theorem readAssign (hb : below.Displaces m) (hk : c.kind ≠ .eof) :
    Tracks m True (OperatorRule.readAssign below left)
      (OperatorRule.readAssign below (left.move m)) (Expr.move m) c := by
  apply (tracks_advance hk).bind
  intro operator c₁
  apply (hb.expression .comma c₁).map
  intro value
  rw [left.span_move, value.span_move]
  rfl

theorem readRange (hb : below.Displaces m) (power : Power) (hk : c.kind ≠ .eof) :
    Tracks m True (OperatorRule.readRange below left power)
      (OperatorRule.readRange below (left.move m) power) (Expr.move m) c := by
  apply (tracks_advance hk).bind
  intro operator c₁
  apply (hb.expression power c₁).map
  intro upper
  rw [left.span_move, upper.span_move]
  rfl

theorem readCall (hb : below.Displaces m) (hk : c.kind ≠ .eof) :
    Tracks m True (OperatorRule.readCall below left)
      (OperatorRule.readCall below (left.move m)) (Expr.move m) c := by
  apply (tracks_advance hk).bind
  intro o c₁
  apply (hb.arguments (by decide) c₁).bind
  intro arguments c₂
  rw [left.start_move]
  exact .spanned fun s => (Expr.respan_call s left arguments).symm

theorem tracks_readMember (hk : c.kind ≠ .eof) :
    Tracks m True (OperatorRule.readMember left) (OperatorRule.readMember (left.move m))
      (Expr.move m) c := by
  apply (tracks_advance hk).bind
  intro dot c₁
  apply (tracks_expect (by decide)).bind
  intro property c₂
  refine .pure ?_
  rw [left.span_move]
  rfl

theorem readIndex (hb : below.Displaces m) (hk : c.kind ≠ .eof) :
    Tracks m True (OperatorRule.readIndex below left)
      (OperatorRule.readIndex below (left.move m)) (Expr.move m) c := by
  apply (tracks_advance hk).bind
  intro o c₁
  apply (hb.expression .default c₁).bind
  intro position c₂
  apply (tracks_expect (by decide)).bind
  intro close c₃
  rw [left.start_move]
  exact .spanned fun s => rfl

theorem readOperator (hb : below.Displaces m) {rule : OperatorRule}
    (hrule : Grammar.standard.operatorRule c.kind = some rule) (power : Power) :
    Tracks m True (rule.read below left power) (rule.read below (left.move m) power)
      (Expr.move m) c := by
  have hk : c.kind ≠ .eof := Kind.ne_eof_of_rule Grammar.standard.operatorRule rfl hrule
  cases rule with
  | binary => exact hb.readBinary power hk
  | assign => exact hb.readAssign hk
  | range => exact hb.readRange power hk
  | call => exact hb.readCall hk
  | member => exact tracks_readMember hk
  | index => exact hb.readIndex hk

theorem extend (hb : below.Displaces m) (power : Power) (limit : Nat) (left : Expr) (c : Cursor) :
    Tracks m True (Grammar.standard.extend below power limit left)
      (Grammar.standard.extend below power limit (left.move m)) (Expr.move m) c := by
  -- On the rounds that are left: each one goes on with the left side that the one before has read.
  induction limit generalizing left c with
  | zero => exact .noProgress
  | succ limit ih =>
    apply Tracks.current
    rw [Token.kind_move]
    split
    · exact .pure rfl
    · split
      · exact .throw _ _
      · rename_i rule hrule
        apply (hb.readOperator hrule _).bind
        intro e c₁
        exact ih e c₁

theorem readExpression (hb : below.Displaces m) (power : Power) (c : Cursor) :
    Tracks m placed (Grammar.standard.readExpression below power)
      (Grammar.standard.readExpression below power) (Expr.move m) c := by
  apply Tracks.current
  rw [Token.kind_move]
  split
  · exact .throw _ _
  · rename_i rule hrule
    apply (hb.readOperand hrule).bind
    intro left c₁
    exact .repetitions (hb.extend power _ left c₁)

end Operators

theorem readType (hb : below.Displaces m) (c : Cursor) :
    Tracks m placed (Grammar.standard.readType below .default)
      (Grammar.standard.readType below .default) id c := by
  apply Tracks.current
  rw [Token.kind_move]
  split
  · exact .throw _ _
  · rename_i rule hrule
    have hk : c.kind ≠ .eof := Kind.ne_eof_of_rule Grammar.standard.typeRule rfl hrule
    have hread : Tracks m placed (rule.read below) (rule.read below) id c := by
      cases rule with
      | named =>
        apply (tracks_advance hk).bind
        intro t c₁
        exact .pure rfl
      | list =>
        apply (tracks_expect (by decide)).bind
        intro o c₁
        apply (tracks_expect (by decide)).bind
        intro close c₂
        exact (hb.type c₂).map fun _ => rfl
    apply hread.bind
    intro left c₁
    -- No operator extends a type.
    exact .repetitions (.pure rfl)

end Level.Displaces

end Scriptlet
