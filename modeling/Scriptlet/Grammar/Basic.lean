import Scriptlet.Grammar.Power
import Scriptlet.Token.Basic

namespace Scriptlet

inductive OperandRule
  | primary | unary | group | array | construct | function
  deriving DecidableEq

inductive OperatorRule
  | binary | assign | range | call | member | index
  deriving DecidableEq

inductive StatementRule
  | varDecl | importDecl | branch | loop | block | fnDecl | classDecl | ret
  deriving DecidableEq

inductive TypeRule
  | named | list
  deriving DecidableEq

/-- How a type goes on behind its first part. The standard grammar has no rule of this kind; these
two are examples of what may be registered. A list suffix makes a list of the type on its left; an
arrow, a function from that type to the one on its right. -/
inductive TypeOperatorRule
  | listSuffix | arrow
  deriving DecidableEq

/-- What is read by which rule, told by the kind of the token that an operand, a statement or a type
begins with or that goes on behind it, and how strongly that token binds what stands left of it. -/
structure Grammar where
  operandRule : Kind → Option OperandRule
  operatorRule : Kind → Option OperatorRule
  power : Kind → Power
  statementRule : Kind → Option StatementRule
  typeRule : Kind → Option TypeRule
  typeOperatorRule : Kind → Option TypeOperatorRule
  typePower : Kind → Power

namespace Grammar

/-- The grammar without rules. -/
def empty : Grammar where
  operandRule _ := none
  operatorRule _ := none
  power _ := .default
  statementRule _ := none
  typeRule _ := none
  typeOperatorRule _ := none
  typePower _ := .default

/-- The table with one entry changed. -/
def override {α : Type} (table : Kind → α) (kind : Kind) (entry : α) : Kind → α :=
  fun k => if k = kind then entry else table k

/-- The power of the token is left alone: `-` and `(` have theirs as operators. -/
def addOperand (g : Grammar) (kind : Kind) (rule : OperandRule) : Grammar :=
  { g with operandRule := override g.operandRule kind (some rule) }

def addOperator (g : Grammar) (kind : Kind) (power : Power) (rule : OperatorRule) : Grammar :=
  { g with
    operatorRule := override g.operatorRule kind (some rule)
    power := override g.power kind power }

def addStatement (g : Grammar) (kind : Kind) (rule : StatementRule) : Grammar :=
  { g with statementRule := override g.statementRule kind (some rule) }

def addTypeOperand (g : Grammar) (kind : Kind) (rule : TypeRule) : Grammar :=
  { g with typeRule := override g.typeRule kind (some rule) }

def addTypeOperator (g : Grammar) (kind : Kind) (power : Power) (rule : TypeOperatorRule) :
    Grammar :=
  { g with
    typeOperatorRule := override g.typeOperatorRule kind (some rule)
    typePower := override g.typePower kind power }

/-- The grammar of the language. -/
def standard : Grammar where
  operandRule
    | .int | .float | .string | .trueWord | .falseWord | .identifier | .thisWord => some .primary
    | .dash | .not => some .unary
    | .openParen => some .group
    | .openBracket => some .array
    | .newWord => some .construct
    | .functionWord => some .function
    | _ => none
  operatorRule
    | .assign | .plusEquals | .minusEquals | .starEquals | .slashEquals => some .assign
    | .and | .or | .less | .lessEquals | .greater | .greaterEquals | .equals | .notEquals | .plus
    | .dash | .star | .slash | .percent => some .binary
    | .dotDot => some .range
    | .openParen => some .call
    | .dot => some .member
    | .openBracket => some .index
    | _ => none
  power
    | .assign | .plusEquals | .minusEquals | .starEquals | .slashEquals => .assignment
    | .and | .or => .logical
    | .less | .lessEquals | .greater | .greaterEquals | .equals | .notEquals | .dotDot =>
      .relational
    | .plus | .dash => .additive
    | .star | .slash | .percent => .multiplicative
    | .openParen => .call
    | .dot | .openBracket => .member
    | _ => .default
  statementRule
    | .constWord | .letWord => some .varDecl
    | .importWord => some .importDecl
    | .ifWord => some .branch
    | .forWord => some .loop
    | .openCurly => some .block
    | .functionWord => some .fnDecl
    | .classWord => some .classDecl
    | .returnWord => some .ret
    | _ => none
  typeRule
    | .identifier | .intType | .floatType | .boolType | .stringType => some .named
    | .openBracket => some .list
    | _ => none
  typeOperatorRule _ := none
  typePower _ := .default

end Grammar

end Scriptlet
