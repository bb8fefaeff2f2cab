import Scriptlet.Grammar.Basic
import Scriptlet.Numeral.Reading
import Scriptlet.Token.Lexeme
import Scriptlet.Tree.Basic

/-!
The concrete syntax: which tokens spell which tree. Spelling says nothing about reading; parentheses
may stand around any expression and a comma behind the last item of a list. How far parentheses may
also be left out is up to a `Manner`: the free one drops them anywhere, so that a spelling only
fixes the order of what is written, and the strict one keeps those that reading depends on.
-/
namespace Scriptlet

/-- How an operator, a delimiter or a word is written. Literals and names have no text of their
own. -/
def Kind.spelling? (k : Kind) : Option String :=
  match Lexeme.operators.find? (·.2 = k) with
  | some entry => some (String.ofList entry.1)
  | none => (Lexeme.keywords.find? (·.2 = k)).map (·.1)

/-- The text is no word of the language. -/
def Lexeme.IsName (text : String) : Prop := keywords.lookup text = none

instance (text : String) : Decidable (Lexeme.IsName text) :=
  inferInstanceAs (Decidable (Lexeme.keywords.lookup text = none))

namespace Token

/-- The token is the operator, delimiter or word of this kind. -/
structure Is (t : Token) (k : Kind) : Prop where
  kind : t.kind = k
  spelling : k.spelling? = some t.value

structure IsName (t : Token) : Prop where
  kind : t.kind = .identifier
  name : Lexeme.IsName t.value

/-- The kind of the token is the one that its text has. -/
structure Proper (t : Token) : Prop where
  spelling : ∀ text, t.kind.spelling? = some text → t.value = text
  name : t.kind = .identifier → Lexeme.IsName t.value

theorem Proper.is {t : Token} (h : t.Proper) {k : Kind} (hk : t.kind = k)
    (hs : k.spelling?.isSome) : t.Is k := by
  obtain ⟨text, ht⟩ := Option.isSome_iff_exists.mp hs
  refine ⟨hk, ?_⟩
  rw [ht, h.spelling text (by rw [hk, ht])]

theorem Proper.isName {t : Token} (h : t.Proper) (hk : t.kind = .identifier) : t.IsName :=
  ⟨hk, h.name hk⟩

end Token

section Lists

variable {α : Type}

/-- Items with commas between them. The last one may have a comma too. -/
inductive Listed (item : α → List Token → Prop) : List α → List Token → Prop
  | nil : Listed item [] []
  | last {a ts} : item a ts → Listed item [a] ts
  | cons {a as ts comma us} : item a ts → comma.Is .comma → Listed item as us →
    Listed item (a :: as) (ts ++ comma :: us)

/-- Items one after another. -/
inductive Chained (item : α → List Token → Prop) : List α → List Token → Prop
  | nil : Chained item [] []
  | cons {a as ts us} : item a ts → Chained item as us → Chained item (a :: as) (ts ++ us)

/-- An item, or nothing. -/
inductive Optional (item : α → List Token → Prop) : Option α → List Token → Prop
  | none : Optional item none []
  | some {a ts} : item a ts → Optional item (some a) ts

/-- An item behind a word or a delimiter, or nothing. -/
inductive Introduced (k : Kind) (item : α → List Token → Prop) : Option α → List Token → Prop
  | none : Introduced k item none []
  | some {a t ts} : t.Is k → item a ts → Introduced k item (some a) (t :: ts)

end Lists

/-- Named types under any number of list brackets. -/
inductive Ty.Spelled : Ty → List Token → Prop
  | named {t} : t.IsName → Ty.Spelled (.named t.value) [t]
  | primitive {t k} : t.Is k → Grammar.standard.typeRule k = some .named →
    Ty.Spelled (.named t.value) [t]
  | list {item o c ts} : o.Is .openBracket → c.Is .closeBracket → Ty.Spelled item ts →
    Ty.Spelled (.list item) (o :: c :: ts)

inductive Parameter.Spelled : Parameter → List Token → Prop
  | mk {name colon type ts} : name.IsName → colon.Is .colon → Ty.Spelled type ts →
    Parameter.Spelled ⟨name.value, type⟩ (name :: colon :: ts)

/-- Where an import comes from: a string or a name. -/
inductive SourceSpelled : String → List Token → Prop
  | mk {t} : t.kind = .string ∨ t.IsName → SourceSpelled t.value [t]

/-- What may be left out of a spelling. -/
structure Manner where
  /-- Whether the expression needs no parentheses where it has to be stronger than this. -/
  bare : Nat → Expr → Prop
  /-- Whether the statement may be the body of a loop. -/
  body : Stmt → Prop

mutual

/-- The tokens spell the expression, with no parentheses around the whole of it. -/
inductive Expr.Bare (m : Manner) : Expr → List Token → Prop
  | int {t value s} : t.kind = .int → Numeral.int64? t.value.toList = some value →
    Expr.Bare m (.int value s) [t]
  | float {t value s} : t.kind = .float → Numeral.binary64? t.value.toList = some value →
    Expr.Bare m (.float value s) [t]
  | string {t s} : t.kind = .string → Expr.Bare m (.string t.value s) [t]
  | bool {t value s} : t.Is (if value then .trueWord else .falseWord) →
    Expr.Bare m (.bool value s) [t]
  | symbol {t s} : t.IsName ∨ t.Is .thisWord → Expr.Bare m (.symbol t.value s) [t]
  | binary {operator left right s a t b} : Grammar.standard.operatorRule t.kind = some .binary →
    t.kind = operator.kind → t.value = operator.value →
    Expr.Spelled m ((Grammar.standard.power t.kind).rank - 1) left a →
    Expr.Spelled m (Grammar.standard.power t.kind).rank right b →
    Expr.Bare m (.binary operator left right s) (a ++ t :: b)
  | unary {operator operand s t a} : Grammar.standard.operandRule t.kind = some .unary →
    t.kind = operator.kind → t.value = operator.value →
    Expr.Spelled m (Power.unary.rank - 1) operand a →
    Expr.Bare m (.unary operator operand s) (t :: a)
  | assign {operator target value s a t b} :
    Grammar.standard.operatorRule t.kind = some .assign →
    t.kind = operator.kind → t.value = operator.value →
    Expr.Spelled m Power.assignment.rank target a → Expr.Spelled m Power.comma.rank value b →
    Expr.Bare m (.assign operator target value s) (a ++ t :: b)
  | member {object s a dot property} : Expr.Spelled m Power.unary.rank object a → dot.Is .dot →
    property.IsName →
    Expr.Bare m (.member object property.value s) (a ++ [dot, property])
  | index {object position s a o b c} : Expr.Spelled m Power.call.rank object a →
    o.Is .openBracket → Expr.Spelled m Power.default.rank position b → c.Is .closeBracket →
    Expr.Bare m (.index object position s) (a ++ o :: (b ++ [c]))
  | call {callee arguments s a o b c} : Expr.Spelled m Power.unary.rank callee a →
    o.Is .openParen → Listed (Expr.Spelled m Power.default.rank) arguments b → c.Is .closeParen →
    Expr.Bare m (.call callee arguments s) (a ++ o :: (b ++ [c]))
  | range {lower upper s a t b} : t.Is .dotDot →
    Expr.Spelled m (Power.relational.rank - 1) lower a →
    Expr.Spelled m Power.relational.rank upper b →
    Expr.Bare m (.range lower upper s) (a ++ t :: b)
  | function {parameters result body s bs word o a c b d} : word.Is .functionWord →
    o.Is .openParen → Listed Parameter.Spelled parameters a → c.Is .closeParen →
    Introduced .colon Ty.Spelled result b → Block.Spelled m (.mk body bs) d →
    Expr.Bare m (.function parameters result body s) (word :: o :: (a ++ c :: (b ++ d)))
  | array {items s o a c} : o.Is .openBracket →
    Listed (Expr.Spelled m Power.default.rank) items a → c.Is .closeBracket →
    Expr.Bare m (.array items s) (o :: (a ++ [c]))
  | arrayOf {item items s ob cb a o b c} : ob.Is .openBracket → cb.Is .closeBracket →
    Ty.Spelled item a → o.Is .openCurly → Listed (Expr.Spelled m Power.default.rank) items b →
    c.Is .closeCurly →
    Expr.Bare m (.arrayOf item items s) (ob :: cb :: (a ++ o :: (b ++ [c])))
  | structOf {fields s word name o a c} : word.Is .newWord → name.IsName →
    o.Is .openCurly → Listed (Field.Spelled m) fields a → c.Is .closeCurly →
    Expr.Bare m (.structOf name.value fields s) (word :: name :: o :: (a ++ [c]))
  | construct {arguments s word name o a c} : word.Is .newWord → name.IsName →
    o.Is .openParen → Listed (Expr.Spelled m Power.default.rank) arguments a → c.Is .closeParen →
    Expr.Bare m (.construct name.value arguments s) (word :: name :: o :: (a ++ [c]))

/-- The tokens spell the expression where it has to be stronger than `n` or in parentheses. -/
inductive Expr.Spelled (m : Manner) : Nat → Expr → List Token → Prop
  | bare {n e ts} : m.bare n e → Expr.Bare m e ts → Expr.Spelled m n e ts
  | group {n e ts o c} : o.Is .openParen → Expr.Spelled m Power.default.rank e ts →
    c.Is .closeParen → Expr.Spelled m n e (o :: (ts ++ [c]))

/-- A field of a struct with its value. -/
inductive Field.Spelled (m : Manner) : String × Expr → List Token → Prop
  | mk {name colon e ts} : name.IsName → colon.Is .colon →
    Expr.Spelled m Power.default.rank e ts →
    Field.Spelled m (name.value, e) (name :: colon :: ts)

inductive Stmt.Spelled (m : Manner) : Stmt → List Token → Prop
  | block {b ts} : Block.Spelled m b ts → Stmt.Spelled m (.block b) ts
  | expression {e s ts semicolon} : Expr.Spelled m Power.default.rank e ts →
    semicolon.Is .semicolon → Stmt.Spelled m (.expression e s) (ts ++ [semicolon])
  | varDecl {constant type value s word name a b semicolon} :
    word.Is (if constant then .constWord else .letWord) → name.IsName →
    Introduced .colon Ty.Spelled type a →
    Introduced .assign (Expr.Spelled m Power.default.rank) value b →
    type.isSome ∨ value.isSome → (constant = true → value.isSome) → semicolon.Is .semicolon →
    Stmt.Spelled m (.varDecl name.value constant type value s)
      (word :: name :: (a ++ (b ++ [semicolon])))
  | fnDecl {parameters result body s word name o a c b d} : word.Is .functionWord →
    name.IsName → o.Is .openParen → Listed Parameter.Spelled parameters a →
    c.Is .closeParen → Introduced .colon Ty.Spelled result b → Block.Spelled m body d →
    Stmt.Spelled m (.fnDecl name.value parameters result body s)
      (word :: name :: o :: (a ++ c :: (b ++ d)))
  | classDecl {body s word name a} : word.Is .classWord → name.IsName →
    Block.Spelled m body a → Stmt.Spelled m (.classDecl name.value body s) (word :: name :: a)
  | branch {condition body otherwise s word a b c} : word.Is .ifWord →
    Expr.Spelled m Power.default.rank condition a → Block.Spelled m body b →
    Introduced .elseWord (Otherwise.Spelled m) otherwise c →
    Stmt.Spelled m (.branch condition body otherwise s) (word :: (a ++ (b ++ c)))
  /-- A loop without a header. -/
  | forever {body s word a} : word.Is .forWord → m.body body → Stmt.Spelled m body a →
    Stmt.Spelled m (.loop none none none body s) (word :: a)
  /-- A loop with nothing but a condition. -/
  | while {condition body s word a b} : word.Is .forWord →
    Expr.Spelled m Power.default.rank condition a → m.body body → Stmt.Spelled m body b →
    Stmt.Spelled m (.loop none (some condition) none body s) (word :: (a ++ b))
  | loop {init condition post body s word a b semicolon c d} : word.Is .forWord →
    Init.Spelled m init a → Optional (Expr.Spelled m Power.default.rank) condition b →
    semicolon.Is .semicolon → Optional (Expr.Spelled m Power.default.rank) post c →
    m.body body → Stmt.Spelled m body d →
    Stmt.Spelled m (.loop init condition post body s)
      (word :: (a ++ (b ++ semicolon :: (c ++ d))))
  | ret {value s word a semicolon} : word.Is .returnWord →
    Optional (Expr.Spelled m Power.default.rank) value a → semicolon.Is .semicolon →
    Stmt.Spelled m (.ret value s) (word :: (a ++ [semicolon]))
  | importDecl {source s word name a semicolon} : word.Is .importWord → name.IsName →
    Introduced .fromWord SourceSpelled source a → semicolon.Is .semicolon →
    Stmt.Spelled m (.importDecl name.value source s) (word :: name :: (a ++ [semicolon]))

/-- What stands behind `else`: a block or another branch. -/
inductive Otherwise.Spelled (m : Manner) : Stmt → List Token → Prop
  | block {b ts} : Block.Spelled m b ts → Otherwise.Spelled m (.block b) ts
  | branch {condition body otherwise s ts} :
    Stmt.Spelled m (.branch condition body otherwise s) ts →
    Otherwise.Spelled m (.branch condition body otherwise s) ts

/-- The first clause of a loop with its semicolon: nothing, a variable or an expression. -/
inductive Init.Spelled (m : Manner) : Option Stmt → List Token → Prop
  | none {semicolon} : semicolon.Is .semicolon → Init.Spelled m none [semicolon]
  | varDecl {name constant type value s ts} :
    Stmt.Spelled m (.varDecl name constant type value s) ts →
    Init.Spelled m (some (.varDecl name constant type value s)) ts
  | expression {e s ts} : Stmt.Spelled m (.expression e s) ts →
    Init.Spelled m (some (.expression e s)) ts

inductive Block.Spelled (m : Manner) : Block → List Token → Prop
  | mk {body s o ts c} : o.Is .openCurly → Chained (Stmt.Spelled m) body ts → c.Is .closeCurly →
    Block.Spelled m (.mk body s) (o :: (ts ++ [c]))

end

namespace Expr

/-- How strongly an expression holds together: as its operator binds, or more strongly than every
operator. Empty brackets come in between, since an index would make them the start of a type. -/
def strength : Expr → Nat
  | .binary operator .. => (Grammar.standard.power operator.kind).rank
  | .range .. => Power.relational.rank
  | .assign .. => Power.assignment.rank
  | .unary .. => Power.unary.rank
  | .array [] _ => Power.call.rank
  | _ => Power.member.rank

end Expr

namespace Manner

/-- Parentheses can be left out anywhere, and any statement is a body. -/
def free : Manner := ⟨fun _ _ => True, fun _ => True⟩

/-- An expression in a place that it is too weak for stands in parentheses, and a body in curly
brackets. -/
def strict : Manner := ⟨fun n e => n < e.strength, fun s => ∃ b, s = .block b⟩

end Manner

end Scriptlet
