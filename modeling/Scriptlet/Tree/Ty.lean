/-!
Types: named ones, lists, functions and structs. Types are compared with `==`, which takes structs
of one name for the same: a method can mention its class before all members are known, so two views
of a class may list different members.
-/
namespace Scriptlet

/-- A named type is a primitive one or, in an annotation, a class. -/
inductive Ty
  | named (name : String)
  | list (item : Ty)
  | function (parameters : List Ty) (result : Ty)
  | struct (name : String) (members : List (String × Ty))
  deriving Inhabited

namespace Ty

def int : Ty := .named "int"

def float : Ty := .named "float"

def string : Ty := .named "string"

def bool : Ty := .named "bool"

def void : Ty := .named "void"

def primitives : List String := ["int", "float", "string", "bool", "void"]

mutual

def same : Ty → Ty → Bool
  | .named a, .named b => a == b
  | .list a, .list b => a.same b
  | .function ps r, .function qs s => sameAll ps qs && r.same s
  | .struct a _, .struct b _ => a == b
  | _, _ => false

def sameAll : List Ty → List Ty → Bool
  | [], [] => true
  | p :: ps, q :: qs => p.same q && sameAll ps qs
  | _, _ => false

end

instance : BEq Ty := ⟨same⟩

mutual

/-- The type as it is written. A struct is written as its name. -/
def text : Ty → String
  | .named name => name
  | .list item => "[]" ++ item.text
  | .function parameters result =>
    "function(" ++ String.intercalate ", " (texts parameters) ++ "): " ++ result.text
  | .struct name _ => name

def texts : List Ty → List String
  | [] => []
  | t :: ts => t.text :: texts ts

end

/-- The type of a struct's member. -/
def member? : Ty → String → Option Ty
  | .struct _ members, name => members.lookup name
  | _, _ => none

end Ty

end Scriptlet
