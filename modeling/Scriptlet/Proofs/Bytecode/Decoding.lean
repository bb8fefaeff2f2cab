import Scriptlet.Proofs.Bytecode.Compilation
import Scriptlet.Proofs.Syntax.Respan

namespace Scriptlet

open Arithmetic

/-- The operator without its place and its spelling. -/
def Token.blank (t : Token) : Token := ⟨t.kind, "", default⟩

/-- The expression without any place and without the spellings of binary operators. -/
def Expr.skeleton : Expr → Expr
  | .int value _ => .int value default
  | .binary operator left right _ => .binary operator.blank left.skeleton right.skeleton default
  | e => e.unplaced

namespace Bytecode

/-- The kind of operator that an opcode stands for. -/
def operatorKind? : Opcode → Option Kind
  | .add => some .plus
  | .sub => some .dash
  | .mul => some .star
  | .div => some .slash
  | .mod => some .percent
  | .push | .dup | .power | .print => none

/-- The printed expressions of code, behind code that has left expressions on a stack. -/
def decode (stack : List Expr) : List UInt8 → Option (List Expr)
  | [] => if stack.isEmpty then some [] else none
  | byte :: rest =>
    match Opcode.ofByte? byte with
    | none => none
    | some .push =>
      match rest with
      | [] => none
      | operand :: rest => decode (.int (Int64.ofNat operand.toNat) default :: stack) rest
    | some .print =>
      match stack with
      | [e] => (decode [] rest).map (e :: ·)
      | _ => none
    | some op =>
      match operatorKind? op, stack with
      | some kind, right :: left :: stack =>
        decode (.binary ⟨kind, "", default⟩ left right default :: stack) rest
      | _, _ => none

theorem decode_push (stack : List Expr) (operand : UInt8) (rest : List UInt8) :
    decode stack (Opcode.push.byte :: operand :: rest) =
      decode (.int (Int64.ofNat operand.toNat) default :: stack) rest :=
  rfl

theorem decode_print (e : Expr) (rest : List UInt8) :
    decode [e] (Opcode.print.byte :: rest) = (decode [] rest).map (e :: ·) :=
  rfl

theorem decode_operator {kind : Kind} {op : Opcode} (h : arithmetic? kind = some op)
    (stack : List Expr) (left right : Expr) (rest : List UInt8) :
    decode (right :: left :: stack) (op.byte :: rest) =
      decode (.binary ⟨kind, "", default⟩ left right default :: stack) rest := by
  cases kind <;> simp only [arithmetic?, Option.some.injEq, reduceCtorEq] at h <;> subst h <;> rfl

/-- The code of an expression puts the expression on the stack, whatever is behind it. -/
theorem decode_ofExpr (e : Expr) (code rest : List UInt8) (stack : List Expr)
    (h : ofExpr e = .ok code) : decode stack (code ++ rest) = decode (e.skeleton :: stack) rest := by
  match e with
  | .int value span =>
    obtain ⟨operand, hv, rfl⟩ := ofExpr_int_eq_ok h
    rw [List.cons_append, List.singleton_append, decode_push, hv, Expr.skeleton]
  | .binary operator left right span =>
    obtain ⟨op, first, second, hop, hleft, hright, rfl⟩ := ofExpr_binary_eq_ok h
    -- The left operand is below the right one when the operator is read.
    rw [List.append_assoc, List.append_assoc, decode_ofExpr left first _ stack hleft,
      decode_ofExpr right second _ (left.skeleton :: stack) hright, List.singleton_append,
      decode_operator hop, Expr.skeleton, Token.blank]
  | .float .. | .string .. | .bool .. | .symbol .. | .unary .. | .assign .. | .member .. | .index ..
  | .call .. | .range .. | .function .. | .array .. | .arrayOf .. | .structOf .. | .construct .. =>
    cases h

/-- Statements end where their values are printed. -/
theorem decode_ofExprs (es : List Expr) (code : List UInt8) (h : ofExprs es = .ok code) :
    decode [] code = some (es.map Expr.skeleton) := by
  induction es generalizing code with
  | nil =>
    cases h
    rfl
  | cons e es ih =>
    obtain ⟨first, rest, hfirst, hrest, rfl⟩ := ofExprs_cons_eq_ok h
    rw [decode_ofExpr e first _ [] hfirst, decode_print, ih rest hrest]
    rfl

/-- The code depends on nothing that the skeleton leaves out. -/
theorem ofExpr_skeleton (e : Expr) (code : List UInt8) (h : ofExpr e = .ok code) :
    ofExpr e.skeleton = .ok code := by
  match e with
  | .int value span =>
    cases hb : byte? value with
    | some operand =>
      rw [ofExpr, hb] at h
      rw [Expr.skeleton, ofExpr, hb]
      exact h
    | none =>
      rw [ofExpr, hb] at h
      cases h
  | .binary operator left right span =>
    obtain ⟨op, first, second, hop, hleft, hright, rfl⟩ := ofExpr_binary_eq_ok h
    have hl := ofExpr_skeleton left first hleft
    have hr := ofExpr_skeleton right second hright
    simp only [Expr.skeleton, ofExpr, Token.blank, hop, hl, hr, bind, Except.bind, pure,
      Except.pure]
  | .float .. | .string .. | .bool .. | .symbol .. | .unary .. | .assign .. | .member .. | .index ..
  | .call .. | .range .. | .function .. | .array .. | .arrayOf .. | .structOf .. | .construct .. =>
    cases h

theorem ofExprs_skeletons (es : List Expr) (code : List UInt8) (h : ofExprs es = .ok code) :
    ofExprs (es.map Expr.skeleton) = .ok code := by
  induction es generalizing code with
  | nil => exact h
  | cons e es ih =>
    obtain ⟨first, rest, hfirst, hrest, rfl⟩ := ofExprs_cons_eq_ok h
    simp only [List.map_cons, ofExprs, ofExpr_skeleton e first hfirst, ih rest hrest, bind,
      Except.bind, pure, Except.pure]

end Bytecode

/-- Two programs have the same bytecode if and only if they are the same expressions in the same
order: the code shows every operand, every operator, how they are nested and where a statement ends,
and it does not show where anything stood, how an operator was spelled and what was in a block. -/
theorem compile_eq_iff (p q : Block) (a b : List UInt8) (hp : compile p = .ok a)
    (hq : compile q = .ok b) :
    compile p = compile q ↔
      (expressionsOfAll p.body).map Expr.skeleton = (expressionsOfAll q.body).map Expr.skeleton := by
  have hps := Bytecode.ofExprs_expressionsOfAll p.body a hp
  have hqs := Bytecode.ofExprs_expressionsOfAll q.body b hq
  -- Reading the code gives the skeletons, and compiling the skeletons gives the code.
  constructor
  · intro heq
    have hab : a = b := by
      rw [hp, hq] at heq
      exact Except.ok.inj heq
    have hdp := Bytecode.decode_ofExprs _ a hps
    have hdq := Bytecode.decode_ofExprs _ b hqs
    rw [hab, hdq] at hdp
    exact (Option.some.inj hdp).symm
  · intro heq
    have hcp := Bytecode.ofExprs_skeletons _ a hps
    have hcq := Bytecode.ofExprs_skeletons _ b hqs
    rw [heq, hcq] at hcp
    rw [hp, hq, Except.ok.inj hcp]

/-- The programs `8 - (3 - 8);` and `{ 8 - (3 - 8); }` have the same code, in which the operands are
the bytes of `print` and of `sub`; `8 - 3 - 8;` has another one. -/
theorem compile_eq_iff_operands_like_opcodes :
    let int (n : Int64) : Expr := .int n default
    let minus (text : String) (left right : Expr) : Expr :=
      .binary ⟨.dash, text, default⟩ left right default
    let line (e : Expr) : Stmt := .expression e default
    let nested := line (minus "-" (int 8) (minus "-" (int 3) (int 8)))
    let chained := line (minus "-" (minus "-" (int 8) (int 3)) (int 8))
    let p := Block.mk [nested] default
    let q := Block.mk [.block (.mk [nested] ⟨⟨0, ""⟩, ⟨20, ""⟩⟩)] default
    let r := Block.mk [chained] default
    compile p = .ok [0, 8, 0, 3, 0, 8, 3, 3, 8] ∧ compile q = .ok [0, 8, 0, 3, 0, 8, 3, 3, 8] ∧
      compile r = .ok [0, 8, 0, 3, 3, 0, 8, 3, 8] ∧
      (expressionsOfAll p.body).map Expr.skeleton = (expressionsOfAll q.body).map Expr.skeleton ∧
      (expressionsOfAll p.body).map Expr.skeleton ≠
        (expressionsOfAll r.body).map Expr.skeleton := by
  intro int minus line nested chained p q r
  have hp : compile p = .ok [0, 8, 0, 3, 0, 8, 3, 3, 8] := by rfl
  have hq : compile q = .ok [0, 8, 0, 3, 0, 8, 3, 3, 8] := by rfl
  have hr : compile r = .ok [0, 8, 0, 3, 3, 0, 8, 3, 8] := by rfl
  have hpq : compile p = compile q := by rw [hp, hq]
  have hpr : compile p ≠ compile r := by
    rw [hp, hr]
    intro h
    exact absurd (Except.ok.inj h) (by decide)
  exact ⟨hp, hq, hr, (compile_eq_iff p q _ _ hp hq).mp hpq,
    fun h => hpr ((compile_eq_iff p r _ _ hp hr).mpr h)⟩

end Scriptlet
