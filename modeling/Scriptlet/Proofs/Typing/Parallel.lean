import Scriptlet.Proofs.Typing.Occurrence
import Scriptlet.Proofs.Typing.Reading

/-!
Two checks of one tree, step by step. They differ in how a field is checked again, and so part only
where the tree has members of `this` or nested classes. What every step keeps, with the names that
it declares and the modules that it imports, holds of the whole checks; what is said of one check is
the case of two that are the same.
-/
namespace Scriptlet

mutual

/-- The names that a statement declares in the scope it stands in. -/
def Stmt.declared : Stmt → List String
  | .block (.mk body _) => Stmt.declaredOf body
  | .varDecl name _ _ _ _ => [name]
  | .fnDecl name _ _ _ _ => [name]
  | .branch _ (.mk body _) otherwise _ => Stmt.declaredOf body ++ Stmt.declared? otherwise
  | .loop init _ _ body _ => Stmt.declared? init ++ body.declared
  | .expression .. | .classDecl .. | .ret .. | .importDecl .. => []

def Stmt.declared? : Option Stmt → List String
  | none => []
  | some s => s.declared

def Stmt.declaredOf : List Stmt → List String
  | [] => []
  | s :: ss => s.declared ++ Stmt.declaredOf ss

end

-- The modules that a tree imports, at any depth and in textual order.
mutual

def Expr.imports : Expr → List String
  | .int .. | .float .. | .string .. | .bool .. | .symbol .. => []
  | .binary _ left right _ => left.imports ++ right.imports
  | .unary _ operand _ => operand.imports
  | .assign _ target value _ => target.imports ++ value.imports
  | .member object _ _ => object.imports
  | .index object position _ => object.imports ++ position.imports
  | .call callee arguments _ => callee.imports ++ Expr.importsOf arguments
  | .range lower upper _ => lower.imports ++ upper.imports
  | .function _ _ body _ => Stmt.importsOf body
  | .array items _ => Expr.importsOf items
  | .arrayOf _ items _ => Expr.importsOf items
  | .structOf _ fields _ => Expr.importsOfFields fields
  | .construct _ arguments _ => Expr.importsOf arguments

def Expr.imports? : Option Expr → List String
  | none => []
  | some e => e.imports

def Expr.importsOf : List Expr → List String
  | [] => []
  | e :: es => e.imports ++ Expr.importsOf es

def Expr.importsOfFields : List (String × Expr) → List String
  | [] => []
  | (_, e) :: fields => e.imports ++ Expr.importsOfFields fields

def Stmt.imports : Stmt → List String
  | .block (.mk body _) => Stmt.importsOf body
  | .expression e _ => e.imports
  | .varDecl _ _ _ value _ => Expr.imports? value
  | .fnDecl _ _ _ (.mk body _) _ => Stmt.importsOf body
  | .classDecl _ (.mk body _) _ => Stmt.importsOf body
  | .branch condition (.mk body _) otherwise _ =>
    condition.imports ++ (Stmt.importsOf body ++ Stmt.imports? otherwise)
  | .loop init condition post body _ =>
    Stmt.imports? init ++ (Expr.imports? condition ++ (Expr.imports? post ++ body.imports))
  | .ret value _ => Expr.imports? value
  | .importDecl name _ _ => [name]

def Stmt.imports? : Option Stmt → List String
  | none => []
  | some s => s.imports

def Stmt.importsOf : List Stmt → List String
  | [] => []
  | s :: ss => s.imports ++ Stmt.importsOf ss

end

namespace Typing

open Region

/-- A relation between checks that are begun in the same class, with the names that they declare and
the modules that they import. -/
abbrev Correspondence : Type 1 :=
  Option OpenClass → List String → List String → (α : Type) → Check α → Check α → Prop

/-- The relation is between a step and itself, where errors are at such positions, and it holds of
sequences and of bodies if it does of what is in them. -/
structure Parallel (M : Position → Prop) (P : Correspondence) : Prop where
  reading : ∀ opened names, Reading M fun α x => P opened names [] α x x
  get : ∀ {opened names modules} {α : Type} {f g : Context → Check α},
    (∀ c, c.enclosing = opened → P opened names modules α (f c) (g c)) →
      P opened names modules α (MonadState.get >>= f) (MonadState.get >>= g)
  bind : ∀ {opened names modules modules'} {α β : Type} {x y : Check α} {f g : α → Check β},
    P opened names modules α x y → (∀ a, P opened names modules' β (f a) (g a)) →
      P opened names (modules ++ modules') β (x >>= f) (y >>= g)
  mono : ∀ {opened names names' modules} {α : Type} {x y : Check α},
    P opened names modules α x y → names ⊆ names' → P opened names' modules α x y
  widen : ∀ {opened names} modules {α : Type} {x y : Check α},
    P opened names [] α x y → P opened names modules α x y
  declare : ∀ {opened} name type constant,
    P opened [name] [] Unit (declare name type constant) (declare name type constant)
  registerClass : ∀ {opened} name members,
    P opened [] [] Unit (registerClass name members) (registerClass name members)
  imports : ∀ {opened} name {position : Position}, M position →
    P opened [] [name] Unit (checkImport name position) (checkImport name position)
  function : ∀ {opened names modules} {α : Type} {x y : Check α} scope result,
    P opened names modules α x y →
      P opened [] modules α (inFunction scope result x) (inFunction scope result y)
  members : ∀ {opened names modules} {x y : Check Unit} {o : OpenClass},
    P (some o) names modules Unit x y → P opened [] modules Scope (inClass o x) (inClass o y)

section Parallel

variable {M : Position → Prop} {P : Correspondence}

/-- The nodes of the class begin and end at such positions. -/
def OpenClass.Marked (M : Position → Prop) (o : OpenClass) : Prop :=
  ∀ r ∈ Stmt.regions o.body.body, r.Marked M

theorem OpenClass.marked_true (o : OpenClass) : o.Marked fun _ => True :=
  fun r _ => r.marked_true

/-- In the class, the relation is between the checks of what the occurrence leads to: the value that
a member has its type from, and the body of a nested class. The nodes of the class are marked, and
those of a nested one may be taken to be. -/
def RelatedOn (M : Position → Prop) (P : Correspondence) (r r' : Expr → Check Ty)
    (opened : Option OpenClass) : Occurrence → Prop
  | .own property => ∀ o, opened = some o → o.Marked M ∧ ∀ value,
    originOf? property o.body.body = some (.value value) → P opened [] [] Ty (r value) (r' value)
  | .opens o => o.Marked M →
    P (some o) (Stmt.declaredOf o.body.body) (Stmt.importsOf o.body.body) Unit
      (checkStmts r o.body.body) (checkStmts r' o.body.body)

variable (hP : Parallel M P) {opened : Option OpenClass} {r r' : Expr → Check Ty}
  {names modules : List String} {α β : Type}
include hP

theorem Parallel.pure (a : α) : P opened names modules α (pure a) (pure a) :=
  hP.widen modules ((hP.reading opened names).pure a)

theorem Parallel.throw (d : Diagnostic) (hd : d.fault.Ordinary) (h : M d.position) :
    P opened names modules α (throw d) (throw d) :=
  hP.widen modules ((hP.reading opened names).throw d hd h)

/-- The step declares nothing. -/
theorem Parallel.weaken {x y : Check α} (h : P opened [] modules α x y) :
    P opened names modules α x y := hP.mono h (List.nil_subset names)

/-- The first step imports nothing. -/
theorem Parallel.bind_right {x y : Check α} {f g : α → Check β} (hx : P opened names [] α x y)
    (hf : ∀ a, P opened names modules β (f a) (g a)) :
    P opened names modules β (x >>= f) (y >>= g) :=
  hP.bind hx hf

/-- What follows the first step imports nothing. -/
theorem Parallel.bind_left {x y : Check α} {f g : α → Check β} (hx : P opened names modules α x y)
    (hf : ∀ a, P opened names [] β (f a) (g a)) :
    P opened names modules β (x >>= f) (y >>= g) := by
  rw [← List.append_nil modules]
  exact hP.bind hx hf

/-- A member of the class around leads to its declaration there. -/
theorem parallel_checkOwnMember {property : String} {object span : Span}
    (hstart : M object.start) (hstop : M span.stop)
    (ha : RelatedOn M P r r' opened (.own property)) :
    P opened [] [] Ty (checkOwnMember r property object span)
      (checkOwnMember r' property object span) := by
  apply hP.get
  intro c hc
  rw [hc]
  cases opened with
  | none => exact hP.throw _ trivial hstart
  | some o =>
    dsimp only
    cases hfind : o.body.body.find? (memberName? · == some property) with
    | none => exact hP.throw _ trivial hstop
    | some s =>
      obtain ⟨ho, hvalue⟩ := ha o rfl
      have hs := ho _ (Stmt.region_mem_regions (List.mem_of_find?_eq_some hfind))
      match s with
      | .varDecl _ _ (some type) _ _ => exact reading_resolve (hP.reading _ _) type hs.start
      | .varDecl _ _ none (some value) _ =>
        have horigin : originOf? property o.body.body = some (.value value) := by
          rw [originOf?, hfind]
          rfl
        exact hvalue value horigin
      | .varDecl _ _ none none _ => exact hP.throw _ trivial hs.start
      | .fnDecl _ parameters result _ _ =>
        apply hP.bind_right (reading_signature (hP.reading _ _) parameters result hs.start)
        exact fun s => hP.pure s.type
      | .block _ | .expression .. | .classDecl .. | .branch .. | .loop .. | .ret ..
      | .importDecl .. => exact hP.throw _ trivial hstop

-- One case for each kind of node: both checks take the same steps, and part only where they come
-- to what stands in the tree. A step reports at an edge of the node or of one of its parts.
mutual

theorem parallel_checkExpr (e : Expr) (h : e.region.Marked M)
    (ha : ∀ a ∈ e.occurrences, RelatedOn M P r r' opened a) :
    P opened [] e.imports Ty (checkExpr r e) (checkExpr r' e) := by
  match e with
  | .int .. | .float .. | .string .. | .bool .. =>
    rw [Expr.imports, checkExpr, checkExpr]
    exact hP.pure _
  | .symbol name span =>
    have hstart : M span.start := Expr.marked_start h
    rw [Expr.imports, checkExpr, checkExpr]
    split
    · apply (hP.reading _ _).get
      intro c
      split
      · exact reading_classType (hP.reading _ _) _ hstart
      · exact hP.throw _ trivial hstart
    · apply hP.bind_right (reading_symbol (hP.reading _ _) _ hstart)
      exact fun _ => hP.pure _
  | .binary operator left right span =>
    simp only [Expr.region, marked_node, List.forall_mem_cons] at h
    obtain ⟨-, -, hleft, -, hright, -⟩ := h
    rw [Expr.occurrences, List.forall_mem_append] at ha
    rw [Expr.imports, checkExpr, checkExpr]
    apply hP.bind (parallel_checkExpr left hleft ha.1)
    intro first
    apply hP.bind_left (parallel_checkExpr right hright ha.2)
    intro second
    apply hP.bind_right (reading_expectType (hP.reading _ _) _ _ (Expr.marked_start hright))
    exact fun _ => hP.pure _
  | .unary operator operand span =>
    simp only [Expr.region, marked_node, List.forall_mem_cons] at h
    obtain ⟨-, -, -, hoperand, -⟩ := h
    rw [Expr.occurrences] at ha
    rw [Expr.imports, checkExpr, checkExpr]
    apply hP.bind_left (parallel_checkExpr operand hoperand ha)
    intro type
    apply hP.bind_right (reading_checkUnary (hP.reading _ _) _ _ (Expr.marked_start hoperand))
    exact fun _ => hP.pure _
  | .assign operator target value span =>
    simp only [Expr.region, marked_node, List.forall_mem_cons] at h
    obtain ⟨-, -, htarget, -, hvalue, -⟩ := h
    rw [Expr.occurrences, List.forall_mem_append] at ha
    rw [Expr.imports, checkExpr, checkExpr]
    apply hP.bind_right (reading_checkTarget (hP.reading _ _) target (Expr.marked_start htarget))
    intro _
    apply hP.bind (parallel_checkExpr target htarget ha.1)
    intro expected
    apply hP.bind_left (parallel_checkExpr value hvalue ha.2)
    intro received
    apply hP.bind_right (reading_expectType (hP.reading _ _) _ _ (Expr.marked_start hvalue))
    exact fun _ => hP.pure _
  | .member object property span =>
    simp only [Expr.region, marked_node, List.forall_mem_cons] at h
    obtain ⟨-, hstop, hobject, -⟩ := h
    have hstart : M object.start := Expr.marked_start hobject
    rw [Expr.occurrences, List.forall_mem_append] at ha
    -- The value of a member of `this` may be checked again, in the class around. How these checks
    -- are related is assumed of the occurrence.
    rcases own_or_of_value object property span with ⟨s, rfl⟩ | heq
    · rw [Expr.imports, checkExpr, checkExpr]
      exact parallel_checkOwnMember hP hstart hstop (ha.1 _ (List.mem_singleton_self _))
    · rw [heq, heq]
      apply hP.bind_left (parallel_checkExpr object hobject ha.2)
      intro type
      exact reading_checkMember (hP.reading _ _) _ _ hstart hstop
  | .index object position span =>
    simp only [Expr.region, marked_node, List.forall_mem_cons] at h
    obtain ⟨hstart, -, hobject, hposition, -⟩ := h
    rw [Expr.occurrences, List.forall_mem_append] at ha
    rw [Expr.imports, checkExpr, checkExpr]
    apply hP.bind (parallel_checkExpr object hobject ha.1)
    intro type
    split
    · apply hP.bind_left (parallel_checkExpr position hposition ha.2)
      intro type
      apply hP.bind_right (reading_expectType (hP.reading _ _) _ _ (Expr.marked_start hposition))
      exact fun _ => hP.pure _
    · exact hP.throw _ trivial hstart
  | .call callee arguments span =>
    simp only [Expr.region, marked_node, List.forall_mem_cons] at h
    obtain ⟨-, hstop, hcallee, harguments⟩ := h
    rw [Expr.occurrences, List.forall_mem_append] at ha
    rw [Expr.imports, checkExpr, checkExpr]
    apply hP.bind (parallel_checkExpr callee hcallee ha.1)
    intro type
    split
    -- An argument too many is reported where it begins, and one too few where the call ends.
    · have hstarts : ∀ e ∈ arguments, M e.start := fun e he =>
        Expr.marked_start (harguments _ (Expr.region_mem_regions he))
      apply hP.bind_right (reading_checkCount (hP.reading _ _) _ hstarts hstop)
      intro _
      apply hP.bind_left (parallel_checkArguments _ arguments harguments ha.2)
      exact fun _ => hP.pure _
    · exact hP.throw _ trivial (Expr.marked_start hcallee)
  | .range lower upper span =>
    simp only [Expr.region, marked_node, List.forall_mem_cons] at h
    obtain ⟨-, -, hlower, hupper, -⟩ := h
    rw [Expr.occurrences, List.forall_mem_append] at ha
    rw [Expr.imports, checkExpr, checkExpr]
    apply hP.bind (parallel_checkExpr lower hlower ha.1)
    intro first
    apply hP.bind_right (reading_expectType (hP.reading _ _) _ _ (Expr.marked_start hlower))
    intro _
    apply hP.bind_left (parallel_checkExpr upper hupper ha.2)
    intro second
    apply hP.bind_right (reading_expectType (hP.reading _ _) _ _ (Expr.marked_start hupper))
    exact fun _ => hP.pure _
  | .function parameters result body span =>
    rw [Expr.region, marked_node] at h
    obtain ⟨hstart, -, hbody⟩ := h
    rw [Expr.occurrences] at ha
    rw [Expr.imports, checkExpr, checkExpr]
    apply hP.bind_right (reading_signature (hP.reading _ _) _ _ hstart)
    intro s
    apply hP.bind_left (hP.function _ _ (parallel_checkStmts body hbody ha))
    exact fun _ => hP.pure _
  | .array [] span =>
    rw [Expr.imports, checkExpr, checkExpr]
    exact hP.throw _ trivial h.start
  | .array (first :: rest) span =>
    simp only [Expr.region, Expr.regions, marked_node, List.forall_mem_cons] at h
    obtain ⟨-, -, hfirst, hrest⟩ := h
    rw [Expr.occurrences, Expr.occurrencesOf, List.forall_mem_append] at ha
    rw [Expr.imports, checkExpr, checkExpr]
    apply hP.bind (parallel_checkExpr first hfirst ha.1)
    intro item
    apply hP.bind_left (parallel_checkItems item rest hrest ha.2)
    exact fun _ => hP.pure _
  | .arrayOf item items span =>
    rw [Expr.region, marked_node] at h
    obtain ⟨hstart, -, hitems⟩ := h
    rw [Expr.occurrences] at ha
    rw [Expr.imports, checkExpr, checkExpr]
    apply hP.bind_right (reading_resolve (hP.reading _ _) _ hstart)
    intro item
    apply hP.bind_left (parallel_checkItems item items hitems ha)
    exact fun _ => hP.pure _
  | .structOf name fields span =>
    rw [Expr.region, marked_node] at h
    obtain ⟨hstart, -, hfields⟩ := h
    rw [Expr.occurrences] at ha
    rw [Expr.imports, checkExpr, checkExpr]
    apply hP.bind_right (reading_classType (hP.reading _ _) _ hstart)
    intro type
    apply hP.bind_left (parallel_checkFields name type fields hfields ha)
    exact fun _ => hP.pure _
  | .construct name arguments span =>
    rw [Expr.region, marked_node] at h
    obtain ⟨hstart, -, harguments⟩ := h
    rw [Expr.occurrences] at ha
    rw [Expr.imports, checkExpr, checkExpr]
    apply hP.bind_right (reading_classType (hP.reading _ _) _ hstart)
    intro type
    apply hP.bind_left (parallel_checkExprs arguments harguments ha)
    exact fun _ => hP.pure _

theorem parallel_checkExpr? (e : Option Expr) (h : ∀ r ∈ Expr.regions? e, r.Marked M)
    (ha : ∀ a ∈ Expr.occurrences? e, RelatedOn M P r r' opened a) :
    P opened [] (Expr.imports? e) (Option Ty) (checkExpr? r e) (checkExpr? r' e) := by
  match e with
  | none =>
    rw [Expr.imports?, checkExpr?, checkExpr?]
    exact hP.pure _
  | some e =>
    rw [Expr.regions?, List.forall_mem_singleton] at h
    rw [Expr.occurrences?] at ha
    rw [Expr.imports?, checkExpr?, checkExpr?]
    apply hP.bind_left (parallel_checkExpr e h ha)
    exact fun _ => hP.pure _

theorem parallel_checkCondition? (e : Option Expr) (h : ∀ r ∈ Expr.regions? e, r.Marked M)
    (ha : ∀ a ∈ Expr.occurrences? e, RelatedOn M P r r' opened a) :
    P opened [] (Expr.imports? e) Unit (checkCondition? r e) (checkCondition? r' e) := by
  match e with
  | none =>
    rw [Expr.imports?, checkCondition?, checkCondition?]
    exact hP.pure _
  | some e =>
    rw [Expr.regions?, List.forall_mem_singleton] at h
    rw [Expr.occurrences?] at ha
    rw [Expr.imports?, checkCondition?, checkCondition?]
    apply hP.bind_left (parallel_checkExpr e h ha)
    intro type
    exact reading_expectCondition (hP.reading _ _) _ (Expr.marked_start h)

theorem parallel_checkExprs (es : List Expr) (h : ∀ r ∈ Expr.regions es, r.Marked M)
    (ha : ∀ a ∈ Expr.occurrencesOf es, RelatedOn M P r r' opened a) :
    P opened [] (Expr.importsOf es) Unit (checkExprs r es) (checkExprs r' es) := by
  match es with
  | [] =>
    rw [Expr.importsOf, checkExprs, checkExprs]
    exact hP.pure _
  | e :: es =>
    rw [Expr.regions, List.forall_mem_cons] at h
    rw [Expr.occurrencesOf, List.forall_mem_append] at ha
    rw [Expr.importsOf, checkExprs, checkExprs]
    apply hP.bind (parallel_checkExpr e h.1 ha.1)
    intro _
    exact parallel_checkExprs es h.2 ha.2

theorem parallel_checkItems (item : Ty) (es : List Expr) (h : ∀ r ∈ Expr.regions es, r.Marked M)
    (ha : ∀ a ∈ Expr.occurrencesOf es, RelatedOn M P r r' opened a) :
    P opened [] (Expr.importsOf es) Unit (checkItems r item es) (checkItems r' item es) := by
  match es with
  | [] =>
    rw [Expr.importsOf, checkItems, checkItems]
    exact hP.pure _
  | e :: es =>
    rw [Expr.regions, List.forall_mem_cons] at h
    rw [Expr.occurrencesOf, List.forall_mem_append] at ha
    rw [Expr.importsOf, checkItems, checkItems]
    apply hP.bind (parallel_checkExpr e h.1 ha.1)
    intro received
    apply hP.bind_right (reading_expectType (hP.reading _ _) _ _ (Expr.marked_start h.1))
    intro _
    exact parallel_checkItems item es h.2 ha.2

theorem parallel_checkArguments (parameters : List Ty) (es : List Expr)
    (h : ∀ r ∈ Expr.regions es, r.Marked M)
    (ha : ∀ a ∈ Expr.occurrencesOf es, RelatedOn M P r r' opened a) :
    P opened [] (Expr.importsOf es) Unit (checkArguments r parameters es)
      (checkArguments r' parameters es) := by
  match parameters, es with
  | expected :: parameters, e :: es =>
    rw [Expr.regions, List.forall_mem_cons] at h
    rw [Expr.occurrencesOf, List.forall_mem_append] at ha
    rw [Expr.importsOf, checkArguments, checkArguments]
    apply hP.bind (parallel_checkExpr e h.1 ha.1)
    intro received
    apply hP.bind_right (reading_expectSame (hP.reading _ _) .argumentMismatch
      (fun _ _ => trivial) _ _ (Expr.marked_start h.1))
    intro _
    exact parallel_checkArguments parameters es h.2 ha.2
  | [], _ =>
    rw [checkArguments, checkArguments]
    · exact hP.pure _
    · simp
    · simp
  | _ :: _, [] =>
    rw [checkArguments, checkArguments]
    · exact hP.pure _
    · simp
    · simp

theorem parallel_checkFields (name : String) (type : Ty) (fields : List (String × Expr))
    (h : ∀ r ∈ Expr.regionsOfFields fields, r.Marked M)
    (ha : ∀ a ∈ Expr.occurrencesOfFields fields, RelatedOn M P r r' opened a) :
    P opened [] (Expr.importsOfFields fields) Unit (checkFields r name type fields)
      (checkFields r' name type fields) := by
  match fields with
  | [] =>
    rw [Expr.importsOfFields, checkFields, checkFields]
    exact hP.pure _
  | (field, e) :: fields =>
    rw [Expr.regionsOfFields, List.forall_mem_cons] at h
    rw [Expr.occurrencesOfFields, List.forall_mem_append] at ha
    rw [Expr.importsOfFields, checkFields, checkFields]
    split
    · exact hP.throw _ trivial (Expr.marked_start h.1)
    · apply hP.bind (parallel_checkExpr e h.1 ha.1)
      intro received
      apply hP.bind_right (reading_expectSame (hP.reading _ _) .fieldMismatch
        (fun _ _ => trivial) _ _ (Expr.marked_start h.1))
      intro _
      exact parallel_checkFields name type fields h.2 ha.2

theorem parallel_checkStmt (s : Stmt) (h : s.region.Marked M)
    (ha : ∀ a ∈ s.occurrences, RelatedOn M P r r' opened a) :
    P opened s.declared s.imports Unit (checkStmt r s) (checkStmt r' s) := by
  match s with
  | .block (.mk body _) =>
    rw [Stmt.region, Block.region, marked_node] at h
    rw [Stmt.occurrences] at ha
    rw [Stmt.declared, Stmt.imports, checkStmt, checkStmt]
    exact parallel_checkStmts body h.2.2 ha
  | .expression e _ =>
    simp only [Stmt.region, marked_node, List.forall_mem_cons] at h
    obtain ⟨-, -, he, -⟩ := h
    rw [Stmt.occurrences] at ha
    rw [Stmt.declared, Stmt.imports, checkStmt, checkStmt]
    apply hP.bind_left (parallel_checkExpr e he ha)
    exact fun _ => hP.pure _
  | .varDecl name constant annotation value span =>
    rw [Stmt.region, marked_node] at h
    obtain ⟨hstart, -, hvalue⟩ := h
    -- A type that does not fit is reported at the value, and without a value at the statement.
    have hplace : M ((value.map Expr.start).getD span.start) := by
      cases value with
      | none => exact hstart
      | some e => exact Expr.marked_start (hvalue _ (List.mem_singleton_self _))
    rw [Stmt.occurrences] at ha
    rw [Stmt.declared, Stmt.imports, checkStmt, checkStmt]
    apply hP.bind_right (reading_resolve? (hP.reading _ _) _ hstart)
    intro annotated
    apply hP.bind_left (hP.weaken (parallel_checkExpr? value hvalue ha))
    intro received
    apply hP.bind_right (reading_variableType (hP.reading _ _) _ _ hplace hstart)
    intro type
    exact hP.declare _ _ _
  | .fnDecl name parameters result (.mk body _) span =>
    simp only [Stmt.region, Block.region, marked_node, List.forall_mem_cons] at h
    obtain ⟨hstart, -, ⟨-, -, hbody⟩, -⟩ := h
    rw [Stmt.occurrences] at ha
    rw [Stmt.declared, Stmt.imports, checkStmt, checkStmt]
    apply hP.bind_right (reading_signature (hP.reading _ _) _ _ hstart)
    intro s
    apply hP.bind_right (hP.declare _ _ _)
    intro _
    exact hP.weaken (hP.function _ _ (parallel_checkStmts body hbody ha))
  | .classDecl name (.mk body bodySpan) _ =>
    simp only [Stmt.region, Block.region, marked_node, List.forall_mem_cons] at h
    obtain ⟨-, -, ⟨-, -, hbody⟩, -⟩ := h
    have hstarts : ∀ s ∈ body, M s.span.start := fun s hs =>
      Stmt.marked_start (hbody _ (Stmt.region_mem_regions hs))
    rw [Stmt.occurrences, List.forall_mem_singleton] at ha
    rw [Stmt.declared, Stmt.imports, checkStmt, checkStmt]
    apply hP.bind_right (hP.registerClass _ _)
    intro _
    apply hP.bind_right (reading_annotatedMembers (hP.reading _ _) hstarts)
    intro annotated
    apply hP.bind_right (hP.registerClass _ _)
    intro _
    -- The body is checked in the class, as the occurrence of the class has it.
    apply hP.bind_left (hP.members (ha hbody))
    intro scope
    exact hP.registerClass _ _
  | .branch condition (.mk body _) otherwise _ =>
    simp only [Stmt.region, Block.region, marked_node, List.forall_mem_cons] at h
    obtain ⟨-, -, hcondition, ⟨-, -, hbody⟩, hotherwise⟩ := h
    rw [Stmt.occurrences, List.forall_mem_append, List.forall_mem_append] at ha
    rw [Stmt.declared, Stmt.imports, checkStmt, checkStmt]
    apply hP.bind (hP.weaken (parallel_checkExpr condition hcondition ha.1))
    intro type
    apply hP.bind_right
      (reading_expectCondition (hP.reading _ _) _ (Expr.marked_start hcondition))
    intro _
    -- Each of the branches declares some of the names that the statement may.
    apply hP.bind (hP.mono (parallel_checkStmts body hbody ha.2.1) (List.subset_append_left _ _))
    intro _
    exact hP.mono (parallel_checkStmt? otherwise hotherwise ha.2.2)
      (List.subset_append_right _ _)
  | .loop init condition post body _ =>
    simp only [Stmt.region, marked_node, List.forall_mem_append, List.forall_mem_singleton] at h
    obtain ⟨-, -, ⟨⟨hinit, hcondition⟩, hpost⟩, hbody⟩ := h
    rw [Stmt.occurrences, List.forall_mem_append, List.forall_mem_append,
      List.forall_mem_append] at ha
    rw [Stmt.declared, Stmt.imports, checkStmt, checkStmt]
    apply hP.bind (hP.mono (parallel_checkStmt? init hinit ha.1) (List.subset_append_left _ _))
    intro _
    apply hP.bind (hP.weaken (parallel_checkCondition? condition hcondition ha.2.1))
    intro _
    apply hP.bind (hP.weaken (parallel_checkExpr? post hpost ha.2.2.1))
    intro _
    exact hP.mono (parallel_checkStmt body hbody ha.2.2.2) (List.subset_append_right _ _)
  | .ret value span =>
    rw [Stmt.region, marked_node] at h
    obtain ⟨hstart, -, hvalue⟩ := h
    rw [Stmt.occurrences] at ha
    rw [Stmt.declared, Stmt.imports, checkStmt, checkStmt]
    apply hP.bind_right (reading_resultType (hP.reading _ _) hstart)
    intro expected
    apply hP.bind_left (parallel_checkExpr? value hvalue ha)
    intro received
    exact reading_expectSame (hP.reading _ _) .returnMismatch (fun _ _ => trivial) _ _ hstart
  | .importDecl name _ span =>
    rw [Stmt.declared, Stmt.imports, checkStmt, checkStmt]
    exact hP.imports _ h.start

theorem parallel_checkStmt? (s : Option Stmt) (h : ∀ r ∈ Stmt.regions? s, r.Marked M)
    (ha : ∀ a ∈ Stmt.occurrences? s, RelatedOn M P r r' opened a) :
    P opened (Stmt.declared? s) (Stmt.imports? s) Unit (checkStmt? r s) (checkStmt? r' s) := by
  match s with
  | none =>
    rw [Stmt.imports?, checkStmt?, checkStmt?]
    exact hP.pure _
  | some s =>
    rw [Stmt.regions?, List.forall_mem_singleton] at h
    rw [Stmt.occurrences?] at ha
    rw [Stmt.declared?, Stmt.imports?, checkStmt?, checkStmt?]
    exact parallel_checkStmt s h ha

theorem parallel_checkStmts (ss : List Stmt) (h : ∀ r ∈ Stmt.regions ss, r.Marked M)
    (ha : ∀ a ∈ Stmt.occurrencesOf ss, RelatedOn M P r r' opened a) :
    P opened (Stmt.declaredOf ss) (Stmt.importsOf ss) Unit (checkStmts r ss)
      (checkStmts r' ss) := by
  match ss with
  | [] =>
    rw [Stmt.importsOf, checkStmts, checkStmts]
    exact hP.pure _
  | s :: ss =>
    rw [Stmt.regions, List.forall_mem_cons] at h
    rw [Stmt.occurrencesOf, List.forall_mem_append] at ha
    rw [Stmt.declaredOf, Stmt.importsOf, checkStmts, checkStmts]
    apply hP.bind (hP.mono (parallel_checkStmt s h.1 ha.1) (List.subset_append_left _ _))
    intro _
    exact hP.mono (parallel_checkStmts ss h.2 ha.2) (List.subset_append_right _ _)

end

end Parallel

section Rereading

variable {M : Position → Prop} {P : Correspondence}
  {r r' : Expr → Check Ty}

/-- In every class that is marked, the relation is between the checks of a value once more. -/
def Rereads (M : Position → Prop) (P : Correspondence) (r r' : Expr → Check Ty) : Prop :=
  ∀ o : OpenClass, o.Marked M → ∀ e : Expr, e.region.Marked M → P (some o) [] [] Ty (r e) (r' e)

theorem Rereads.relatedOn_own (hr : Rereads M P r r') {opened : Option OpenClass}
    (ho : ∀ o, opened = some o → o.Marked M) (property : String) :
    RelatedOn M P r r' opened (.own property) := by
  rintro o rfl
  have hmarked := ho o rfl
  refine ⟨hmarked, fun value hvalue => hr o hmarked value ?_⟩
  rw [originOf?, Option.bind_eq_some_iff] at hvalue
  obtain ⟨s, hs, hvalue⟩ := hvalue
  have hregion := hmarked _ (Stmt.region_mem_regions (List.mem_of_find?_eq_some hs))
  obtain ⟨name, constant, span, rfl⟩ := eq_varDecl_of_origin? hvalue
  rw [Stmt.region, marked_node] at hregion
  exact hregion.2.2 _ (List.mem_singleton_self _)

variable (hr : Rereads M P r r') (hP : Parallel M P) {opened : Option OpenClass}
include hr hP

theorem Rereads.relatedOn_opens (o : OpenClass) : RelatedOn M P r r' opened (.opens o) := by
  -- On how classes are nested.
  induction hsize : sizeOf o.body using Nat.strong_induction_on generalizing o opened with
  | _ size ih =>
    intro ho
    have hmarked : ∀ o', some o = some o' → o'.Marked M := by
      rintro _ ⟨⟩
      exact ho
    apply parallel_checkStmts hP o.body.body ho
    intro a ha
    cases a with
    | own property => exact hr.relatedOn_own hmarked property
    | opens o' =>
      have hlt : sizeOf o'.body < size :=
        hsize ▸ (Stmt.fitsOf _ ha).size.trans (Block.sizeOf_body_lt o.body)
      exact ih _ hlt o' rfl

variable (ho : ∀ o, opened = some o → o.Marked M)
include ho

/-- Then it holds of what every occurrence leads to. -/
theorem Rereads.relatedOn (a : Occurrence) : RelatedOn M P r r' opened a := by
  cases a with
  | own property => exact hr.relatedOn_own ho property
  | opens o => exact hr.relatedOn_opens hP o

theorem Rereads.checkExpr (e : Expr) (h : e.region.Marked M) :
    P opened [] e.imports Ty (checkExpr r e) (checkExpr r' e) :=
  parallel_checkExpr hP e h fun a _ => hr.relatedOn hP ho a

theorem Rereads.checkStmt (s : Stmt) (h : s.region.Marked M) :
    P opened s.declared s.imports Unit (checkStmt r s) (checkStmt r' s) :=
  parallel_checkStmt hP s h fun a _ => hr.relatedOn hP ho a

theorem Rereads.checkStmts (ss : List Stmt) (h : ∀ r ∈ Stmt.regions ss, r.Marked M) :
    P opened (Stmt.declaredOf ss) (Stmt.importsOf ss) Unit (checkStmts r ss) (checkStmts r' ss) :=
  parallel_checkStmts hP ss h fun a _ => hr.relatedOn hP ho a

end Rereading

end Typing

end Scriptlet
