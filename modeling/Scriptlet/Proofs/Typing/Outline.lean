import Scriptlet.Typing.Context

/-!
Outlines of programs: what scoping depends on, in textual order. The outline of a body lists what
stands in it directly and keeps the outlines of bodies nested in it apart, since a function or class
body has a scope of its own. A program is well scoped if its outline is.
-/
namespace Scriptlet

inductive Event
  /-- The end of a declaration of a variable, or the head of one of a function. -/
  | declares (name : String) (constant : Bool)
  /-- A symbol other than `this`. -/
  | refers (name : String)
  | assigns (name : String)
  /-- The symbol `this`. -/
  | self
  /-- A member of `this`. -/
  | mentions
  | returns
  | imports (name : String)
  /-- The head of the declaration of a class. -/
  | introduces (name : String)
  /-- A class in an annotation or where a value is made of it. -/
  | names (name : String)
  | function (parameters : List String) (body : List Event)
  /-- The body of a class. `foreseen` are the classes declared in the values of its fields that have
  no annotation. -/
  | members (foreseen : List String) (body : List Event)

namespace Event

mutual

/-- The classes that are declared, also in nested bodies. -/
def introduced : Event → List String
  | .introduces name => [name]
  | .function _ body => introducedIn body
  | .members _ body => introducedIn body
  | _ => []

def introducedIn : List Event → List String
  | [] => []
  | e :: es => e.introduced ++ introducedIn es

end

/-- The declaration that the event is, if it is one. -/
def declaration? : Event → Option (String × Bool)
  | .declares name constant => some (name, constant)
  | _ => none

/-- Whether the last declaration of the name is one of a constant. -/
def latest? (name : String) (events : List Event) : Option Bool :=
  (events.filterMap declaration?).reverse.lookup name

end Event

/-- What matters beyond the body it stands in. -/
inductive Mark
  | imports (name : String)
  | introduces (name : String)
  | names (name : String)
  /-- A member of `this`, in the body of a class that foresees these. -/
  | foresees (names : List String)

mutual

/-- The marks of nested bodies stand among the others, in textual order. -/
def Event.marks (foreseen : List String) : Event → List Mark
  | .mentions => [.foresees foreseen]
  | .imports name => [.imports name]
  | .introduces name => [.introduces name]
  | .names name => [.names name]
  | .function _ body => Event.marksOf foreseen body
  | .members foreseen body => Event.marksOf foreseen body
  | .declares .. | .refers _ | .assigns _ | .self | .returns => []

def Event.marksOf (foreseen : List String) : List Event → List Mark
  | [] => []
  | e :: es => e.marks foreseen ++ Event.marksOf foreseen es

end

section Tree

mutual

/-- The classes that an annotation names. -/
def Ty.classNames : Ty → List String
  | .named name => if name ∈ Ty.primitives then [] else [name]
  | .list item => item.classNames
  | .function parameters result => Ty.classNamesOf parameters ++ result.classNames
  | .struct .. => []

def Ty.classNamesOf : List Ty → List String
  | [] => []
  | t :: ts => t.classNames ++ Ty.classNamesOf ts

end

def Ty.outline (t : Ty) : List Event := t.classNames.map .names

def Ty.outline? : Option Ty → List Event
  | none => []
  | some t => t.outline

def signatureOutline (parameters : List Parameter) (result : Option Ty) : List Event :=
  (Ty.classNamesOf (parameters.map (·.type))).map .names ++ Ty.outline? result

/-- A plain name that is assigned to. -/
def Expr.targetOutline : Expr → List Event
  | .symbol name _ => [.assigns name]
  | _ => []

/-- An object of which a member is mentioned. -/
def Expr.memberOutline : Expr → List Event
  | .symbol "this" _ => [.mentions]
  | _ => []

mutual

def Expr.outline : Expr → List Event
  | .int .. | .float .. | .string .. | .bool .. => []
  | .symbol name _ => [if name = "this" then .self else .refers name]
  | .binary _ left right _ => left.outline ++ right.outline
  | .unary _ operand _ => operand.outline
  | .assign _ target value _ => target.targetOutline ++ (target.outline ++ value.outline)
  | .member object _ _ => object.outline ++ object.memberOutline
  | .index object position _ => object.outline ++ position.outline
  | .call callee arguments _ => callee.outline ++ Expr.outlineOf arguments
  | .range lower upper _ => lower.outline ++ upper.outline
  | .function parameters result body _ =>
    signatureOutline parameters result ++
      [.function (parameters.map (·.name)) (Stmt.outlineOf body)]
  | .array items _ => Expr.outlineOf items
  | .arrayOf item items _ => item.outline ++ Expr.outlineOf items
  | .structOf name fields _ => .names name :: Expr.outlineOfFields fields
  | .construct name arguments _ => .names name :: Expr.outlineOf arguments

def Expr.outline? : Option Expr → List Event
  | none => []
  | some e => e.outline

def Expr.outlineOf : List Expr → List Event
  | [] => []
  | e :: es => e.outline ++ Expr.outlineOf es

def Expr.outlineOfFields : List (String × Expr) → List Event
  | [] => []
  | (_, e) :: fields => e.outline ++ Expr.outlineOfFields fields

def Stmt.outline : Stmt → List Event
  | .block (.mk body _) => Stmt.outlineOf body
  | .expression e _ => e.outline
  | .varDecl name constant type value _ =>
    Ty.outline? type ++ (Expr.outline? value ++ [.declares name constant])
  | .fnDecl name parameters result (.mk body _) _ =>
    signatureOutline parameters result ++
      [.declares name true, .function (parameters.map (·.name)) (Stmt.outlineOf body)]
  | .classDecl name (.mk body _) _ =>
    [.introduces name, .members (Stmt.foreseen body) (Stmt.outlineOf body)]
  | .branch condition (.mk body _) otherwise _ =>
    condition.outline ++ (Stmt.outlineOf body ++ Stmt.outline? otherwise)
  | .loop init condition post body _ =>
    Stmt.outline? init ++ (Expr.outline? condition ++ (Expr.outline? post ++ body.outline))
  | .ret value _ => .returns :: Expr.outline? value
  | .importDecl name _ _ => [.imports name]

def Stmt.outline? : Option Stmt → List Event
  | none => []
  | some s => s.outline

def Stmt.outlineOf : List Stmt → List Event
  | [] => []
  | s :: ss => s.outline ++ Stmt.outlineOf ss

/-- The classes declared in the values of the fields of a class body that have no annotation. -/
def Stmt.foreseen : List Stmt → List String
  | [] => []
  | .varDecl _ _ none (some value) _ :: ss =>
    Event.introducedIn value.outline ++ Stmt.foreseen ss
  | _ :: ss => Stmt.foreseen ss

end

end Tree

/-- A body with what is around it. -/
structure Body where
  parameters : List String
  inClass : Bool
  inFunction : Bool
  events : List Event

def Block.outline (program : Block) : Body := ⟨[], false, false, Stmt.outlineOf program.body⟩

def Block.marks (program : Block) : List Mark := Event.marksOf [] (Stmt.outlineOf program.body)

namespace Body

/-- The second body is the first one, or nested in it. -/
inductive Holds : Body → Body → Prop
  | refl (body : Body) : Holds body body
  | function {outer inner : Body} {parameters : List String} {events : List Event}
      (hmem : .function parameters events ∈ outer.events)
      (h : Holds ⟨parameters, outer.inClass, true, events⟩ inner) : Holds outer inner
  | members {outer inner : Body} {foreseen : List String} {events : List Event}
      (hmem : .members foreseen events ∈ outer.events)
      (h : Holds ⟨[], true, outer.inFunction, events⟩ inner) : Holds outer inner

end Body

/-- What is written before the event in the body, or around it, allows it to stand there. -/
def Event.InOrder (body : Body) (before : List Event) : Event → Prop
  | .refers name => name ∈ body.parameters ∨ ∃ constant, .declares name constant ∈ before
  | .assigns name => Event.latest? name before ≠ some true
  | .self => body.inClass
  | .returns => body.inFunction
  | _ => True

/-- The class has been introduced before. The exception are classes that a member of `this` has made
known ahead of their place, by the value of a field. -/
def Mark.Known (before : List Mark) (name : String) : Prop :=
  .introduces name ∈ before ∨ ∃ foreseen, .foresees foreseen ∈ before ∧ name ∈ foreseen

/-- What is written before the mark, in whatever bodies, allows it to stand there. -/
def Mark.InOrder (before : List Mark) : Mark → Prop
  | .imports name => name ∈ Typing.Context.fresh.modules ∧ .imports name ∉ before
  | .names name => Mark.Known before name
  | .introduces _ | .foresees _ => True

structure Block.WellScoped (program : Block) : Prop where
  bodies : ∀ body, program.outline.Holds body →
    ∀ before e after, body.events = before ++ e :: after → e.InOrder body before
  marks : ∀ before mark after, program.marks = before ++ mark :: after → mark.InOrder before

end Scriptlet
