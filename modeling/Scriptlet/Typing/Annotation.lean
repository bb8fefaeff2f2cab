import Scriptlet.Typing.Context

namespace Scriptlet.Typing

mutual

/-- Primitive types stand for themselves, the name of a class for its struct. -/
def resolve (position : Position) : Ty → Check Ty
  | .named name => if name ∈ Ty.primitives then return .named name else classType name position
  | .list item => return .list (← resolve position item)
  | .function parameters result => do
    let parameters ← resolveAll position parameters
    return .function parameters (← resolve position result)
  | .struct name members => return .struct name members

def resolveAll (position : Position) : List Ty → Check (List Ty)
  | [] => return []
  | t :: ts => do
    let first ← resolve position t
    return first :: (← resolveAll position ts)

end

def resolve? (position : Position) : Option Ty → Check (Option Ty)
  | none => return none
  | some type => return some (← resolve position type)

/-- A function's types. `result` is `void` where none is `declared`. -/
structure Signature where
  parameters : List (String × Ty)
  result : Ty
  declared : Option Ty

namespace Signature

def type (s : Signature) : Ty := .function (s.parameters.map (·.2)) s.result

/-- The scope of the function's body. -/
def scope (s : Signature) : Scope :=
  s.parameters.foldl (fun scope p => scope.insert p.1 ⟨p.2, false⟩) {}

end Signature

def signature (parameters : List Parameter) (result : Option Ty) (position : Position) :
    Check Signature := do
  let types ← resolveAll position (parameters.map (·.type))
  let declared ← resolve? position result
  return ⟨(parameters.map (·.name)).zip types, declared.getD .void, declared⟩

end Scriptlet.Typing
