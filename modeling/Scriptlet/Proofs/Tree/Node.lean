import Scriptlet.Tree.Basic

namespace Scriptlet

/-- A node of a program tree. -/
inductive Node
  | expression (e : Expr)
  | statement (s : Stmt)

namespace Node

/-- The nodes right below one. A block that is not a statement of its own is taken for one. -/
def parts : Node → List Node
  | .expression e =>
    match e with
    | .int .. | .float .. | .string .. | .bool .. | .symbol .. => []
    | .binary _ left right _ => [.expression left, .expression right]
    | .unary _ operand _ => [.expression operand]
    | .assign _ target value _ => [.expression target, .expression value]
    | .member object _ _ => [.expression object]
    | .index object position _ => [.expression object, .expression position]
    | .call callee arguments _ => .expression callee :: arguments.map .expression
    | .range lower upper _ => [.expression lower, .expression upper]
    | .function _ _ body _ => body.map .statement
    | .array items _ | .arrayOf _ items _ => items.map .expression
    | .structOf _ fields _ => fields.map fun field => .expression field.2
    | .construct _ arguments _ => arguments.map .expression
  | .statement s =>
    match s with
    | .block (.mk body _) => body.map .statement
    | .expression e _ => [.expression e]
    | .varDecl _ _ _ value _ => value.toList.map .expression
    | .fnDecl _ _ _ body _ | .classDecl _ body _ => [.statement (.block body)]
    | .branch condition body otherwise _ =>
      .expression condition :: .statement (.block body) :: otherwise.toList.map .statement
    | .loop init condition post body _ =>
      init.toList.map .statement ++ (condition.toList.map .expression ++
        (post.toList.map .expression ++ [.statement body]))
    | .ret value _ => value.toList.map .expression
    | .importDecl .. => []

/-- The node and those below it, at every depth, satisfy `P`. -/
inductive Throughout (P : Node → Prop) : Node → Prop
  | mk {n} : P n → (∀ m ∈ n.parts, Throughout P m) → Throughout P n

namespace Throughout

variable {P Q : Node → Prop} {n : Node}

theorem self (h : n.Throughout P) : P n := by
  cases h with
  | mk hn _ => exact hn

theorem part (h : n.Throughout P) : ∀ m ∈ n.parts, m.Throughout P := by
  cases h with
  | mk _ hparts => exact hparts

theorem and (h : n.Throughout P) (h' : n.Throughout Q) : n.Throughout fun m => P m ∧ Q m := by
  induction h with
  | mk hn _ ih => exact .mk ⟨hn, h'.self⟩ fun m hm => ih m hm (h'.part m hm)

theorem mono (h : n.Throughout P) (hPQ : ∀ m, P m → Q m) : n.Throughout Q := by
  induction h with
  | mk hn _ ih => exact .mk (hPQ _ hn) ih

end Throughout

/-- Whether `p` holds of the node and of those below it, if these end within so many levels. -/
def within (p : Node → Bool) : Nat → Node → Bool
  | 0, _ => false
  | levels + 1, n => p n && n.parts.all (within p levels)

theorem throughout_of_within {p : Node → Bool} {levels : Nat} {n : Node}
    (h : within p levels n = true) : n.Throughout fun m => p m = true := by
  induction levels generalizing n with
  | zero => cases h
  | succ levels ih =>
    obtain ⟨hn, hparts⟩ := Bool.and_eq_true_iff.mp h
    exact .mk hn fun m hm => ih (List.all_eq_true.mp hparts m hm)

end Node

/-- All nodes of the program satisfy `P`. -/
def Block.Throughout (P : Node → Prop) (b : Block) : Prop := (Node.statement (.block b)).Throughout P

end Scriptlet
