namespace Scriptlet

structure Handle where
  id : Nat
  deriving DecidableEq, Inhabited

structure Object where
  value : Int64
  count : Nat
  deriving DecidableEq

/-- The object with one reference less, if one is left. -/
def Object.released? (o : Object) : Option Object :=
  if o.count ≤ 1 then none else some { o with count := o.count - 1 }

/-- The live objects, the newest first, and the id of the next one. An object is gone as soon as
nothing refers to it, and its handle is never used again. -/
structure Heap where
  objects : List (Handle × Object)
  nextId : Nat

namespace Heap

def empty : Heap := ⟨[], 0⟩

/-- A new object with one reference. -/
def allocate (h : Heap) (value : Int64) : Handle × Heap :=
  (⟨h.nextId⟩, ⟨(⟨h.nextId⟩, ⟨value, 1⟩) :: h.objects, h.nextId + 1⟩)

def get? (h : Heap) (handle : Handle) : Option Object := h.objects.lookup handle

/-- Changes one object, or takes it away. -/
def alter (change : Object → Option Object) (handle : Handle) :
    List (Handle × Object) → List (Handle × Object)
  | [] => []
  | (key, object) :: rest =>
    if key = handle then (change object).toList.map (key, ·) ++ rest
    else (key, object) :: alter change handle rest

/-- One reference more, if the object is alive. -/
def retain? (h : Heap) (handle : Handle) : Option Heap :=
  (h.get? handle).map fun _ =>
    { h with objects := alter (fun o => some { o with count := o.count + 1 }) handle h.objects }

/-- One reference less, and the object's value, if the object is alive. -/
def release? (h : Heap) (handle : Handle) : Option (Int64 × Heap) :=
  (h.get? handle).map fun object =>
    (object.value, { h with objects := alter Object.released? handle h.objects })

/-- The number of live objects. -/
def size (h : Heap) : Nat := h.objects.length

/-- The number of references to all objects. -/
def references (h : Heap) : Nat := h.objects.foldr (fun entry n => entry.2.count + n) 0

end Heap

end Scriptlet
