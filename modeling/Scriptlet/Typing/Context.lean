import Std.Data.TreeSet
import Scriptlet.Diagnostic.Basic
import Scriptlet.Tree.Basic

namespace Scriptlet.Typing

structure Symbol where
  type : Ty
  constant : Bool

/-- The names visible in one body. -/
abbrev Scope := Std.TreeMap String Symbol

/-- What a `return` is checked against. -/
inductive ReturnContext
  | topLevel
  /-- In a function, with its result type if it declares one. -/
  | function (result : Option Ty)

/-- A class whose body is being checked. -/
structure OpenClass where
  name : String
  body : Block

/-- What is known where the check is. A function or class body has a scope of its own, and the scope
around it comes back when the body is done, also when it has an error. -/
structure Context where
  scope : Scope
  returns : ReturnContext
  enclosing : Option OpenClass
  imported : Std.TreeSet String
  modules : Std.TreeSet String
  classes : Std.TreeMap String Ty

/-- Nothing is declared or imported yet. -/
def Context.fresh : Context where
  scope := {}
  returns := .topLevel
  enclosing := none
  imported := {}
  modules := Std.TreeSet.ofList ["math", "strings", "json"]
  classes := {}

abbrev Check := EStateM Diagnostic Context

/-- A later declaration of a name replaces the earlier one. -/
def declare (name : String) (type : Ty) (constant : Bool) : Check Unit :=
  modify fun c => { c with scope := c.scope.insert name ⟨type, constant⟩ }

def symbol (name : String) (position : Position) : Check Symbol := do
  match (← get).scope[name]? with
  | some s => return s
  | none => throw ⟨.undeclared name, position⟩

def classType (name : String) (position : Position) : Check Ty := do
  match (← get).classes[name]? with
  | some type => return type
  | none => throw ⟨.unknownType name, position⟩

def registerClass (name : String) (members : List (String × Ty)) : Check Unit :=
  modify fun c => { c with classes := c.classes.insert name (.struct name members) }

/-- Checks in another scope. Gives what the check gives and the scope as it leaves it. -/
def inScope {α : Type} (scope : Scope) (check : Check α) : Check (Except Diagnostic α × Scope) :=
  fun c => match check { c with scope } with
    | .ok a inner => .ok (.ok a, inner.scope) { inner with scope := c.scope }
    | .error d inner => .ok (.error d, inner.scope) { inner with scope := c.scope }

/-- Checks the body of a function with this result type. -/
def inFunction {α : Type} (scope : Scope) (result : Option Ty) (check : Check α) : Check α := do
  let outer := (← get).returns
  modify ({ · with returns := .function result })
  let (answer, _) ← inScope scope check
  modify ({ · with returns := outer })
  ofExcept answer

/-- Checks the body of a class; gives the scope of its members. -/
def inClass (opened : OpenClass) (check : Check Unit) : Check Scope := do
  let outer := (← get).enclosing
  modify ({ · with enclosing := some opened })
  let (answer, members) ← inScope {} check
  modify ({ · with enclosing := outer })
  ofExcept answer
  return members

end Scriptlet.Typing
