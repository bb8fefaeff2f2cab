import Scriptlet.Typing.Annotation

/-!
Checking expressions and statements. The check goes through a tree once, except that `this.f` is
checked as the field's declaration: a field without a type has the type of its value, which
`reread` checks again in the scope at hand.
-/
namespace Scriptlet.Typing

/-- Two types have to be the same; otherwise `fault` says of their texts what is wrong. -/
def expectSame (fault : String → String → Fault) (expected received : Ty) (position : Position) :
    Check Unit :=
  if expected == received then pure ()
  else throw ⟨fault expected.text received.text, position⟩

def expectType (expected received : Ty) (position : Position) : Check Unit :=
  expectSame .typeMismatch expected received position

def expectCondition (received : Ty) (position : Position) : Check Unit :=
  expectSame (fun _ text => .conditionMismatch text) .bool received position

def isComparison : Kind → Bool
  | .equals | .notEquals | .less | .lessEquals | .greater | .greaterEquals => true
  | _ => false

/-- `!` is for `bool`, and every other operator before its operand for numbers. -/
def checkUnary (operator : Token) (operand : Ty) (position : Position) : Check Unit :=
  if operator.kind = .not then expectType .bool operand position
  else if operand == .float then pure ()
  else expectType .int operand position

/-- Only variables that are not constant, members and indexed values can be assigned to. -/
def checkTarget (target : Expr) : Check Unit := do
  match target with
  | .symbol name span =>
    if name = "this" then throw ⟨.badTarget, span.start⟩
    else if (← symbol name span.start).constant then
      throw ⟨.constantAssigned name, span.start⟩
  | .member .. | .index .. => return
  | _ => throw ⟨.badTarget, target.start⟩

/-- The name that a statement of a class body declares. -/
def memberName? : Stmt → Option String
  | .varDecl name .. | .fnDecl name .. => some name
  | _ => none

/-- The type of a member of the class that is being checked, by its declaration. -/
def checkOwnMember (reread : Expr → Check Ty) (property : String) (object span : Span) :
    Check Ty := do
  match (← get).enclosing with
  | none => throw ⟨.thisOutsideClass, object.start⟩
  | some opened =>
    match opened.body.body.find? (memberName? · == some property) with
    | some (.varDecl _ _ (some type) _ span) => resolve span.start type
    | some (.varDecl _ _ none (some value) _) => reread value
    | some (.varDecl _ _ none none span) => throw ⟨.valueMissing, span.start⟩
    | some (.fnDecl _ parameters result _ span) =>
      return (← signature parameters result span.start).type
    | _ => throw ⟨.unknownProperty property opened.name, span.stop⟩

/-- The type of a member of a value. Its class says which there are: a type captured while the class
was being checked may lack some. -/
def checkMember (object : Ty) (property : String) (start : Position) (span : Span) :
    Check Ty := do
  match object with
  | .struct name _ =>
    let known := (← get).classes[name]?.getD object
    match known.member? property with
    | some type => return type
    | none => throw ⟨.unknownProperty property known.text, span.stop⟩
  | _ => throw ⟨.notStruct object.text, start⟩

/-- A call has as many arguments as there are parameters. The first one too many is to blame, or the
end of the call. -/
def checkCount (parameters : List Ty) (arguments : List Expr) (span : Span) : Check Unit := do
  match arguments.drop parameters.length with
  | extra :: _ => throw ⟨.tooManyArguments parameters.length arguments.length, extra.start⟩
  | [] =>
    if arguments.length < parameters.length then
      throw ⟨.tooFewArguments parameters.length arguments.length, span.stop⟩

/-- The direct members of a class that have annotations. -/
def annotatedMembers : List Stmt → Check (List (String × Ty))
  | [] => return []
  | .varDecl name _ (some type) _ span :: rest => do
    let type ← resolve span.start type
    return (name, type) :: (← annotatedMembers rest)
  | _ :: rest => annotatedMembers rest

/-- The direct members of a class, with their types in the scope its body leaves. -/
def members (body : List Stmt) (scope : Scope) : List (String × Ty) :=
  (body.filterMap memberName?).filterMap fun name => scope[name]?.map fun s => (name, s.type)

def checkImport (name : String) (position : Position) : Check Unit := do
  let c ← get
  if name ∈ c.imported then throw ⟨.moduleImported name, position⟩
  else if name ∈ c.modules then set { c with imported := c.imported.insert name }
  else throw ⟨.unknownModule name, position⟩

/-- The result type of the function that is being checked. -/
def resultType (position : Position) : Check Ty := do
  match (← get).returns with
  | .topLevel => throw ⟨.returnOutsideFunction, position⟩
  | .function declared => return declared.getD .void

/-- The type of a variable, from its annotation and its value, which begins at `place`. -/
def variableType (annotated received : Option Ty) (place position : Position) : Check Ty := do
  match annotated, received with
  | some type, some received =>
    expectType type received place
    return type
  | some type, none => return type
  | none, some received => return received
  | none, none => throw ⟨.valueMissing, position⟩

mutual

def checkExpr (reread : Expr → Check Ty) : Expr → Check Ty
  | .int .. => return .int
  | .float .. => return .float
  | .string .. => return .string
  | .bool .. => return .bool
  | .symbol name span => do
    if name = "this" then
      match (← get).enclosing with
      | some opened => classType opened.name span.start
      | none => throw ⟨.thisOutsideClass, span.start⟩
    else return (← symbol name span.start).type
  | .binary operator left right _ => do
    let first ← checkExpr reread left
    let second ← checkExpr reread right
    expectType first second right.start
    return if isComparison operator.kind then .bool else first
  | .unary operator operand _ => do
    let type ← checkExpr reread operand
    checkUnary operator type operand.start
    return type
  | .assign _ target value _ => do
    checkTarget target
    let expected ← checkExpr reread target
    let received ← checkExpr reread value
    expectType expected received value.start
    return expected
  | .member (.symbol "this" object) property span => checkOwnMember reread property object span
  | .member object property span => do
    let type ← checkExpr reread object
    checkMember type property object.start span
  | .index object position span => do
    match ← checkExpr reread object with
    | .list item =>
      let type ← checkExpr reread position
      expectType .int type position.start
      return item
    | other => throw ⟨.notList other.text, span.start⟩
  | .call callee arguments span => do
    match ← checkExpr reread callee with
    | .function parameters result =>
      checkCount parameters arguments span
      checkArguments reread parameters arguments
      return result
    | other => throw ⟨.notCallable other.text, callee.start⟩
  | .range lower upper _ => do
    let first ← checkExpr reread lower
    expectType .int first lower.start
    let second ← checkExpr reread upper
    expectType .int second upper.start
    return .list .int
  | .function parameters result body span => do
    let s ← signature parameters result span.start
    inFunction s.scope s.declared (checkStmts reread body)
    return s.type
  | .array [] span => throw ⟨.emptyArray, span.start⟩
  | .array (first :: rest) _ => do
    let item ← checkExpr reread first
    checkItems reread item rest
    return .list item
  | .arrayOf item items span => do
    let item ← resolve span.start item
    checkItems reread item items
    return .list item
  | .structOf name fields span => do
    let type ← classType name span.start
    checkFields reread name type fields
    return type
  | .construct name arguments span => do
    let type ← classType name span.start
    checkExprs reread arguments
    return type

def checkExpr? (reread : Expr → Check Ty) : Option Expr → Check (Option Ty)
  | none => return none
  | some e => return some (← checkExpr reread e)

/-- A loop need not have a condition. -/
def checkCondition? (reread : Expr → Check Ty) : Option Expr → Check Unit
  | none => return
  | some e => do
    let type ← checkExpr reread e
    expectCondition type e.start

def checkExprs (reread : Expr → Check Ty) : List Expr → Check Unit
  | [] => return
  | e :: es => do
    let _ ← checkExpr reread e
    checkExprs reread es

/-- The items of a list have its item type. -/
def checkItems (reread : Expr → Check Ty) (item : Ty) : List Expr → Check Unit
  | [] => return
  | e :: es => do
    let received ← checkExpr reread e
    expectType item received e.start
    checkItems reread item es

def checkArguments (reread : Expr → Check Ty) : List Ty → List Expr → Check Unit
  | expected :: parameters, e :: es => do
    let received ← checkExpr reread e
    expectSame .argumentMismatch expected received e.start
    checkArguments reread parameters es
  | _, _ => return

def checkFields (reread : Expr → Check Ty) (name : String) (type : Ty) :
    List (String × Expr) → Check Unit
  | [] => return
  | (field, e) :: fields => do
    match type.member? field with
    | none => throw ⟨.unknownProperty field name, e.start⟩
    | some expected =>
      let received ← checkExpr reread e
      expectSame .fieldMismatch expected received e.start
      checkFields reread name type fields

def checkStmt (reread : Expr → Check Ty) : Stmt → Check Unit
  | .block (.mk body _) => checkStmts reread body
  | .expression e _ => do
    let _ ← checkExpr reread e
  | .varDecl name constant annotation value span => do
    let annotated ← resolve? span.start annotation
    let received ← checkExpr? reread value
    let place := (value.map Expr.start).getD span.start
    let type ← variableType annotated received place span.start
    declare name type constant
  | .fnDecl name parameters result (.mk body _) span => do
    let s ← signature parameters result span.start
    declare name s.type true
    inFunction s.scope s.declared (checkStmts reread body)
  | .classDecl name (.mk body bodySpan) _ => do
    registerClass name []
    registerClass name (← annotatedMembers body)
    let scope ← inClass ⟨name, .mk body bodySpan⟩ (checkStmts reread body)
    registerClass name (members body scope)
  | .branch condition (.mk body _) otherwise _ => do
    let type ← checkExpr reread condition
    expectCondition type condition.start
    checkStmts reread body
    checkStmt? reread otherwise
  | .loop init condition post body _ => do
    checkStmt? reread init
    checkCondition? reread condition
    let _ ← checkExpr? reread post
    checkStmt reread body
  | .ret value span => do
    let expected ← resultType span.start
    let received ← checkExpr? reread value
    expectSame .returnMismatch expected (received.getD .void) span.start
  | .importDecl name _ span => checkImport name span.start

def checkStmt? (reread : Expr → Check Ty) : Option Stmt → Check Unit
  | none => return
  | some s => checkStmt reread s

def checkStmts (reread : Expr → Check Ty) : List Stmt → Check Unit
  | [] => return
  | s :: ss => do
    checkStmt reread s
    checkStmts reread ss

end

end Scriptlet.Typing
