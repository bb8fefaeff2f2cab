import Scriptlet.Source.Location
import Scriptlet.Text.Quoted

namespace Scriptlet

inductive Fault
  /-- No lexeme begins with this character. -/
  | unrecognised (text : String)
  | unterminated (value : String)
  /-- No rule reads an expression or a type that begins with this token. -/
  | cannotStart (token : String)
  /-- The token binds, and no rule says how it continues what stands left of it. -/
  | cannotContinue (token : String)
  | unexpected (token : String)
  | unexpectedFor (token reason : String)
  | badNumber (token : String)
  | undeclared (name : String)
  | constantAssigned (name : String)
  | badTarget
  | tooManyArguments (expected received : Nat)
  | tooFewArguments (expected received : Nat)
  | argumentMismatch (expected received : String)
  | fieldMismatch (expected received : String)
  | typeMismatch (expected received : String)
  | returnMismatch (expected received : String)
  | conditionMismatch (received : String)
  | notCallable (type : String)
  | notStruct (type : String)
  | notList (type : String)
  | unknownProperty (property type : String)
  | thisOutsideClass
  | returnOutsideFunction
  | emptyArray
  | valueMissing
  | unknownType (name : String)
  | moduleImported (name : String)
  | unknownModule (name : String)
  | unknownOpcode (byte : UInt8)
  | stackUnderflow
  | operandMissing (instruction : String)
  | divisionByZero
  /-- A handle on the stack names no object of the heap. -/
  | dangling (id : Nat)
  | outputFailed (reason : String)
  | badInstruction (text : String)
  | operandRange (operand : String)
  | unsupported (construct : String)
  /-- A rule reads the same token over and over. -/
  | noProgress
  /-- The type of a field depends on itself. -/
  | cyclicField
  deriving DecidableEq, Inhabited

namespace Fault

def name : Fault → String
  | unrecognised _ => "UnrecognisedToken"
  | unterminated _ => "UnterminatedString"
  | cannotStart _ => "MissingNudHandler"
  | cannotContinue _ => "MissingLedHandler"
  | unexpected _ => "UnexpectedToken"
  | unexpectedFor _ _ => "UnexpectedTokenDetailed"
  | badNumber _ => "NumberParseError"
  | undeclared _ => "VariableNotDeclared"
  | constantAssigned _ => "AssignToConstant"
  | badTarget => "InvalidAssignmentTarget"
  | tooManyArguments _ _ => "UnexpectedArguments"
  | tooFewArguments _ _ => "MissingArguments"
  | argumentMismatch _ _ => "ArgumentTypeMatchError"
  | fieldMismatch _ _ => "FieldTypeMatchError"
  | typeMismatch _ _ => "TypeMatchError"
  | returnMismatch _ _ => "ReturnTypeMatchError"
  | conditionMismatch _ => "ConditionNotBoolean"
  | notCallable _ => "NotCallable"
  | notStruct _ => "NotAStruct"
  | notList _ => "NotAList"
  | unknownProperty _ _ => "UnknownProperty"
  | thisOutsideClass => "ThisOutsideClass"
  | returnOutsideFunction => "ReturnOutsideFunction"
  | emptyArray => "EmptyArrayLiteral"
  | valueMissing => "ExpectedExplicitValue"
  | unknownType _ => "UnknownType"
  | moduleImported _ => "ModuleAlreadyImported"
  | unknownModule _ => "UnknownModule"
  | unknownOpcode _ => "UnknownOpcode"
  | stackUnderflow => "StackUnderflow"
  | operandMissing _ => "MissingOperand"
  | divisionByZero => "DivisionByZero"
  | dangling _ => "DanglingReference"
  | outputFailed _ => "OutputFailed"
  | badInstruction _ => "InvalidInstruction"
  | operandRange _ => "OperandOutOfRange"
  | unsupported _ => "UnsupportedInstruction"
  | noProgress => "NoProgress"
  | cyclicField => "CyclicField"

/-- Expected against received, both as they stand in the source. -/
private def against (expected received : String) : String :=
  "expected " ++ Text.quote expected ++ ", received " ++ Text.quote received

def message : Fault → String
  | unrecognised text => "unrecognised token: " ++ Text.quote text
  | unterminated value => "unterminated string: " ++ Text.quote value
  | cannotStart token => "no prefix handler for token " ++ Text.quote token
  | cannotContinue token => "no infix handler for token " ++ Text.quote token
  | unexpected token => "unexpected token: " ++ Text.quote token
  | unexpectedFor token reason =>
    "unexpected token (" ++ Text.quote reason ++ "): " ++ Text.quote token
  | badNumber token => "error parsing number: " ++ Text.quote token
  | undeclared name => "variable " ++ Text.quote name ++ " not declared"
  | constantAssigned name => "cannot assign to constant " ++ Text.quote name
  | badTarget => "invalid assignment target"
  | tooManyArguments expected received | tooFewArguments expected received =>
    s!"unexpected arguments: expected {expected}, received {received}"
  | argumentMismatch expected received =>
    "argument types do not match: " ++ against expected received
  | fieldMismatch expected received => "field types do not match: " ++ against expected received
  | typeMismatch expected received => "types do not match: " ++ against expected received
  | returnMismatch expected received =>
    "return type " ++ Text.quote received ++ " does not match expected type " ++
      Text.quote expected
  | conditionMismatch received => "condition must be bool, got " ++ Text.quote received
  | notCallable type => type ++ " is not a function"
  | notStruct type => type ++ " is not a struct or does not have members"
  | notList type => type ++ " is not a list"
  | unknownProperty property type =>
    "property " ++ Text.quote property ++ " does not exist on type " ++ type
  | thisOutsideClass => "'this' used outside of class context"
  | returnOutsideFunction => "return used outside of a function"
  | emptyArray => "cannot infer the type of an empty array literal"
  | valueMissing => "expected explicit value when no type is given"
  | unknownType name => "unknown type " ++ name ++ " found"
  | moduleImported name => "module " ++ Text.quote name ++ " is already imported"
  | unknownModule name => "module " ++ Text.quote name ++ " does not exist"
  | unknownOpcode byte => s!"unknown opcode {byte}"
  | stackUnderflow => "stack underflow"
  | operandMissing instruction => instruction ++ " is missing its operand"
  | divisionByZero => "division by zero"
  | dangling id => s!"stack refers to evicted object {id}"
  | outputFailed reason => "failed to write output: " ++ reason
  | badInstruction text => "invalid instruction " ++ Text.quote text
  | operandRange operand => "operand " ++ operand ++ " out of range"
  | unsupported construct => construct ++ " cannot be compiled to bytecode"
  | noProgress => "the grammar does not get past this token"
  | cyclicField => "the type of this field depends on itself"

def tip : Fault → Option String
  | unrecognised _ => none
  | unterminated _ => some "String literal is missing its closing `\"`"
  | cannotStart token => some s!"`{token}` cannot start an expression"
  | cannotContinue token => some s!"`{token}` cannot continue an expression"
  | unexpected token => some s!"Unexpected token: `{token}`, did you miss a semicolon?"
  | unexpectedFor token reason => some s!"Unexpected token: `{token}`, {reason}"
  | badNumber token => some s!"Invalid number: `{token}`, is it above the integer limit?"
  | undeclared name => some s!"Variable `{name}` not declared"
  | constantAssigned name => some s!"`{name}` is a constant and cannot be reassigned"
  | badTarget => some "Only variables, members and indexes can be assigned to"
  | tooManyArguments expected received | tooFewArguments expected received =>
    some s!"Expected {expected} arguments, received {received}"
  | argumentMismatch expected received =>
    some s!"Expected argument type `{expected}`, received `{received}`"
  | fieldMismatch expected received =>
    some s!"Expected field type `{expected}`, received `{received}`"
  | typeMismatch expected received => some s!"Expected type `{expected}`, received `{received}`"
  | returnMismatch expected received =>
    some s!"Function returns `{expected}`, but the value is `{received}`"
  | conditionMismatch received => some s!"Conditions must be `bool`, received `{received}`"
  | notCallable type => some s!"`{type}` is not a function"
  | notStruct type => some s!"`{type}` is not a struct or does not have members"
  | notList type => some s!"`{type}` cannot be indexed"
  | unknownProperty property type => some s!"Property `{property}` does not exist on type `{type}`"
  | thisOutsideClass => some "`this` can only be used inside a class"
  | returnOutsideFunction => some "`return` can only be used inside a function"
  | emptyArray => some "Cannot infer the element type of `[]`, use `[]T\x7b\x7d` instead"
  | valueMissing => some "Expected explicit value when no type is given"
  | unknownType name => some s!"Unknown type `{name}` found"
  | moduleImported name => some s!"Module `{name}` is already imported"
  | unknownModule name => some s!"Module `{name}` does not exist"
  | unknownOpcode byte => some s!"Opcode `{byte}` is not an instruction"
  | stackUnderflow => some "Instruction needs more values on the stack"
  | operandMissing instruction => some s!"`{instruction}` expects an operand byte"
  | divisionByZero => none
  | dangling _ => none
  | outputFailed _ => none
  | badInstruction text => some s!"`{text}` is not a known instruction"
  | operandRange operand => some s!"Operand `{operand}` does not fit in a byte (0-255)"
  | unsupported construct => some s!"`{construct}` cannot be compiled to bytecode"
  | noProgress => none
  | cyclicField => some "Give the field a type"

end Fault

/-- A fault at a position. -/
structure Diagnostic where
  fault : Fault
  position : Position
  deriving DecidableEq, Inhabited

/-- The fault's sentence with the place, as one line. -/
def Diagnostic.message (d : Diagnostic) : String :=
  s!"{d.fault.message} at {d.position.file}:{d.position.offset}"

end Scriptlet
