import Mathlib.Algebra.Order.Ring.Nat
import Scriptlet.Typing.Program

namespace Scriptlet

namespace Typing

/-- The annotation that a signature amounts to. A result that is not declared is `void`. -/
def annotationOf (parameters : List Parameter) (result : Option Ty) : Ty :=
  .function (parameters.map (·.type)) (result.getD .void)

/-- What the type of a member is taken from: its annotation, or its value if it has none. -/
inductive Origin
  | typed (type : Ty)
  | value (e : Expr)

def origin? : Stmt → Option Origin
  | .varDecl _ _ (some type) _ _ => some (.typed type)
  | .varDecl _ _ none (some e) _ => some (.value e)
  | .varDecl _ _ none none _ => none
  | .fnDecl _ parameters result _ _ => some (.typed (annotationOf parameters result))
  | _ => none

/-- The first declaration of a member has the say. -/
def originOf? (f : String) (body : List Stmt) : Option Origin :=
  (body.find? (memberName? · == some f)).bind origin?

end Typing

open Typing

/-- What stands in a tree outside nested classes and matters here: members of `this`, and the
nested classes. -/
inductive Occurrence
  | own (property : String)
  | opens (nested : OpenClass)

/-- An object of which the member is mentioned. -/
def Expr.memberOccurrences (property : String) : Expr → List Occurrence
  | .symbol "this" _ => [.own property]
  | _ => []

mutual

def Expr.occurrences : Expr → List Occurrence
  | .int .. | .float .. | .string .. | .bool .. | .symbol .. => []
  | .binary _ left right _ => left.occurrences ++ right.occurrences
  | .unary _ operand _ => operand.occurrences
  | .assign _ target value _ => target.occurrences ++ value.occurrences
  | .member object property _ => object.memberOccurrences property ++ object.occurrences
  | .index object position _ => object.occurrences ++ position.occurrences
  | .call callee arguments _ => callee.occurrences ++ Expr.occurrencesOf arguments
  | .range lower upper _ => lower.occurrences ++ upper.occurrences
  | .function _ _ body _ => Stmt.occurrencesOf body
  | .array items _ => Expr.occurrencesOf items
  | .arrayOf _ items _ => Expr.occurrencesOf items
  | .structOf _ fields _ => Expr.occurrencesOfFields fields
  | .construct _ arguments _ => Expr.occurrencesOf arguments

def Expr.occurrences? : Option Expr → List Occurrence
  | none => []
  | some e => e.occurrences

def Expr.occurrencesOf : List Expr → List Occurrence
  | [] => []
  | e :: es => e.occurrences ++ Expr.occurrencesOf es

def Expr.occurrencesOfFields : List (String × Expr) → List Occurrence
  | [] => []
  | (_, e) :: fields => e.occurrences ++ Expr.occurrencesOfFields fields

def Stmt.occurrences : Stmt → List Occurrence
  | .block (.mk body _) => Stmt.occurrencesOf body
  | .expression e _ => e.occurrences
  | .varDecl _ _ _ value _ => Expr.occurrences? value
  | .fnDecl _ _ _ (.mk body _) _ => Stmt.occurrencesOf body
  | .classDecl name (.mk body span) _ => [.opens ⟨name, .mk body span⟩]
  | .branch condition (.mk body _) otherwise _ =>
    condition.occurrences ++ (Stmt.occurrencesOf body ++ Stmt.occurrences? otherwise)
  | .loop init condition post body _ =>
    Stmt.occurrences? init ++
      (Expr.occurrences? condition ++ (Expr.occurrences? post ++ body.occurrences))
  | .ret value _ => Expr.occurrences? value
  | .importDecl .. => []

def Stmt.occurrences? : Option Stmt → List Occurrence
  | none => []
  | some s => s.occurrences

def Stmt.occurrencesOf : List Stmt → List Occurrence
  | [] => []
  | s :: ss => s.occurrences ++ Stmt.occurrencesOf ss

end

theorem Stmt.occurrences_subset {s : Stmt} {ss : List Stmt} (h : s ∈ ss) :
    s.occurrences ⊆ Stmt.occurrencesOf ss := by
  induction ss with
  | nil => exact absurd h List.not_mem_nil
  | cons first ss ih =>
    rw [Stmt.occurrencesOf]
    cases h with
    | head => exact List.subset_append_left _ _
    | tail _ h => exact List.subset_append_of_subset_right _ (ih h)

theorem eq_varDecl_of_origin? {f : Stmt} {value : Expr} (h : origin? f = some (.value value)) :
    ∃ name constant span, f = .varDecl name constant none (some value) span := by
  match f with
  | .varDecl name constant none (some e) span =>
    cases h
    exact ⟨name, constant, span, rfl⟩
  | .varDecl _ _ (some _) _ _ | .varDecl _ _ none none _ | .fnDecl .. | .block _ | .expression ..
  | .classDecl .. | .branch .. | .loop .. | .ret .. | .importDecl .. => cases h

theorem occurrences_of_origin? {f : Stmt} {value : Expr} (h : origin? f = some (.value value)) :
    f.occurrences = value.occurrences := by
  obtain ⟨name, constant, span, rfl⟩ := eq_varDecl_of_origin? h
  rw [Stmt.occurrences, Expr.occurrences?]

theorem variableCount_of_origin? {f : Stmt} {value : Expr} (h : origin? f = some (.value value)) :
    f.variableCount = 1 + value.variableCount := by
  obtain ⟨name, constant, span, rfl⟩ := eq_varDecl_of_origin? h
  rw [Stmt.variableCount]

section Count

attribute [local simp] Stmt.variableCount Stmt.variableCountOf

variable (condition post value : Option Expr) (init otherwise : Option Stmt) (span : Span)

theorem Stmt.variableCount_varDecl (name : String) (constant : Bool) (type : Option Ty) :
    (Stmt.varDecl name constant type value span).variableCount =
      1 + value.elim 0 Expr.variableCount := by
  cases value <;> simp

theorem Stmt.variableCount_branch (condition : Expr) (body : List Stmt) (bodySpan : Span) :
    (Stmt.branch condition (.mk body bodySpan) otherwise span).variableCount =
      condition.variableCount + Stmt.variableCountOf body +
        otherwise.elim 0 Stmt.variableCount := by
  cases otherwise <;> simp

theorem Stmt.variableCount_loop (body : Stmt) :
    (Stmt.loop init condition post body span).variableCount =
      init.elim 0 Stmt.variableCount + condition.elim 0 Expr.variableCount +
        post.elim 0 Expr.variableCount + body.variableCount := by
  cases init <;> cases condition <;> cases post <;> simp

theorem Stmt.variableCount_ret :
    (Stmt.ret value span).variableCount = value.elim 0 Expr.variableCount := by
  cases value <;> simp

end Count

theorem Block.sizeOf_body_lt (b : Block) : sizeOf b.body < sizeOf b := by
  cases b
  simp +arith [Block.body]

/-- The class declares no more variables than that, and is smaller. -/
structure Typing.OpenClass.Fits (o : OpenClass) (count size : Nat) : Prop where
  count : Stmt.variableCountOf o.body.body ≤ count
  size : sizeOf o.body < size

theorem Typing.OpenClass.Fits.mono {o : OpenClass} {count size count' size' : Nat}
    (h : o.Fits count size) (hcount : count ≤ count') (hsize : size ≤ size') :
    o.Fits count' size' := ⟨h.count.trans hcount, h.size.trans_le hsize⟩

theorem Expr.not_mem_memberOccurrences {e : Expr} {property : String} {o : OpenClass} :
    .opens o ∉ e.memberOccurrences property := by
  rw [Expr.memberOccurrences.eq_def]
  split <;> simp

-- A nested class is part of the tree it occurs in.
mutual

theorem Expr.fits (e : Expr) {o : OpenClass} (h : .opens o ∈ e.occurrences) :
    o.Fits e.variableCount (sizeOf e) := by
  match e with
  | .int .. | .float .. | .string .. | .bool .. | .symbol .. =>
    rw [Expr.occurrences] at h
    exact absurd h List.not_mem_nil
  | .binary _ left right _ | .assign _ left right _ | .index left right _ | .range left right _ =>
    rw [Expr.occurrences, List.mem_append] at h
    rcases h with h | h
    · exact (left.fits h).mono (by simp +arith [Expr.variableCount]) (by simp +arith)
    · exact (right.fits h).mono (by simp +arith [Expr.variableCount]) (by simp +arith)
  | .unary _ operand _ =>
    rw [Expr.occurrences] at h
    exact (operand.fits h).mono (by simp +arith [Expr.variableCount]) (by simp +arith)
  | .member object property _ =>
    rw [Expr.occurrences, List.mem_append] at h
    rcases h with h | h
    -- What is mentioned of `this` is no class.
    · exact absurd h Expr.not_mem_memberOccurrences
    · exact (object.fits h).mono (by simp +arith [Expr.variableCount]) (by simp +arith)
  | .call callee arguments _ =>
    rw [Expr.occurrences, List.mem_append] at h
    rcases h with h | h
    · exact (callee.fits h).mono (by simp +arith [Expr.variableCount]) (by simp +arith)
    · exact (Expr.fitsOf arguments h).mono (by simp +arith [Expr.variableCount]) (by simp +arith)
  | .function _ _ body _ =>
    rw [Expr.occurrences] at h
    exact (Stmt.fitsOf body h).mono (by simp +arith [Expr.variableCount]) (by simp +arith)
  | .array items _ | .arrayOf _ items _ | .construct _ items _ =>
    rw [Expr.occurrences] at h
    exact (Expr.fitsOf items h).mono (by simp +arith [Expr.variableCount]) (by simp +arith)
  | .structOf _ fields _ =>
    rw [Expr.occurrences] at h
    exact (Expr.fitsOfFields fields h).mono (by simp +arith [Expr.variableCount]) (by simp +arith)

theorem Expr.fits? (e : Option Expr) {o : OpenClass} (h : .opens o ∈ Expr.occurrences? e) :
    o.Fits (e.elim 0 Expr.variableCount) (sizeOf e) := by
  match e with
  | none =>
    rw [Expr.occurrences?] at h
    exact absurd h List.not_mem_nil
  | some e =>
    rw [Expr.occurrences?] at h
    exact (e.fits h).mono (le_refl _) (by simp +arith)

theorem Expr.fitsOf (es : List Expr) {o : OpenClass} (h : .opens o ∈ Expr.occurrencesOf es) :
    o.Fits (Expr.variableCountOf es) (sizeOf es) := by
  match es with
  | [] =>
    rw [Expr.occurrencesOf] at h
    exact absurd h List.not_mem_nil
  | e :: es =>
    rw [Expr.occurrencesOf, List.mem_append] at h
    rcases h with h | h
    · exact (e.fits h).mono (by simp [Expr.variableCountOf]) (by simp +arith)
    · exact (Expr.fitsOf es h).mono (by simp [Expr.variableCountOf]) (by simp +arith)

theorem Expr.fitsOfFields (fields : List (String × Expr)) {o : OpenClass}
    (h : .opens o ∈ Expr.occurrencesOfFields fields) :
    o.Fits (Expr.variableCountOfFields fields) (sizeOf fields) := by
  match fields with
  | [] =>
    rw [Expr.occurrencesOfFields] at h
    exact absurd h List.not_mem_nil
  | (_, e) :: fields =>
    rw [Expr.occurrencesOfFields, List.mem_append] at h
    rcases h with h | h
    · exact (e.fits h).mono (by simp [Expr.variableCountOfFields]) (by simp +arith)
    · exact (Expr.fitsOfFields fields h).mono (by simp [Expr.variableCountOfFields])
        (by simp +arith)

theorem Stmt.fits (s : Stmt) {o : OpenClass} (h : .opens o ∈ s.occurrences) :
    o.Fits s.variableCount (sizeOf s) := by
  match s with
  | .block (.mk body _) | .fnDecl _ _ _ (.mk body _) _ =>
    rw [Stmt.occurrences] at h
    exact (Stmt.fitsOf body h).mono (by simp [Stmt.variableCount]) (by simp +arith)
  | .expression e _ =>
    rw [Stmt.occurrences] at h
    exact (e.fits h).mono (by simp [Stmt.variableCount]) (by simp +arith)
  | .varDecl _ _ _ value _ =>
    rw [Stmt.occurrences] at h
    exact (Expr.fits? value h).mono (by simp [Stmt.variableCount_varDecl]) (by simp +arith)
  | .classDecl name (.mk body span) _ =>
    rw [Stmt.occurrences, List.mem_singleton] at h
    cases h
    exact ⟨by rw [Stmt.variableCount, Block.body], by simp +arith⟩
  | .branch condition (.mk body _) otherwise _ =>
    rw [Stmt.occurrences, List.mem_append, List.mem_append] at h
    rw [Stmt.variableCount_branch]
    rcases h with h | h | h
    · exact (condition.fits h).mono (by simp +arith) (by simp +arith)
    · exact (Stmt.fitsOf body h).mono (by simp +arith) (by simp +arith)
    · exact (Stmt.fits? otherwise h).mono (by simp +arith) (by simp +arith)
  | .loop init condition post body _ =>
    rw [Stmt.occurrences, List.mem_append, List.mem_append, List.mem_append] at h
    rw [Stmt.variableCount_loop]
    rcases h with h | h | h | h
    · exact (Stmt.fits? init h).mono (by simp +arith) (by simp +arith)
    · exact (Expr.fits? condition h).mono (by simp +arith) (by simp +arith)
    · exact (Expr.fits? post h).mono (by simp +arith) (by simp +arith)
    · exact (body.fits h).mono (by simp +arith) (by simp +arith)
  | .ret value _ =>
    rw [Stmt.occurrences] at h
    exact (Expr.fits? value h).mono (by rw [Stmt.variableCount_ret]) (by simp +arith)
  | .importDecl .. =>
    rw [Stmt.occurrences] at h
    exact absurd h List.not_mem_nil

theorem Stmt.fits? (s : Option Stmt) {o : OpenClass} (h : .opens o ∈ Stmt.occurrences? s) :
    o.Fits (s.elim 0 Stmt.variableCount) (sizeOf s) := by
  match s with
  | none =>
    rw [Stmt.occurrences?] at h
    exact absurd h List.not_mem_nil
  | some s =>
    rw [Stmt.occurrences?] at h
    exact (s.fits h).mono (le_refl _) (by simp +arith)

theorem Stmt.fitsOf (ss : List Stmt) {o : OpenClass} (h : .opens o ∈ Stmt.occurrencesOf ss) :
    o.Fits (Stmt.variableCountOf ss) (sizeOf ss) := by
  match ss with
  | [] =>
    rw [Stmt.occurrencesOf] at h
    exact absurd h List.not_mem_nil
  | s :: ss =>
    rw [Stmt.occurrencesOf, List.mem_append] at h
    rcases h with h | h
    · exact (s.fits h).mono (by simp [Stmt.variableCountOf]) (by simp +arith)
    · exact (Stmt.fitsOf ss h).mono (by simp [Stmt.variableCountOf]) (by simp +arith)

end

end Scriptlet
