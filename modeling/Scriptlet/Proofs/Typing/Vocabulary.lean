import Scriptlet.Proofs.Syntax.Inner
import Scriptlet.Proofs.Typing.Comparison
import Scriptlet.Proofs.Typing.Frame

/-!
What a check talks about. All types that it comes across are put together from those that were there
when it began and from the classes that it declares; and where it reports that two types do not
match, they are two of these that differ.
-/
namespace Scriptlet

/-- The name of the class that a statement declares. -/
def Stmt.className? : Stmt → Option String
  | .classDecl name _ _ => some name
  | _ => none

/-- What was expected and what was received where two types do not match, as texts. -/
def Fault.texts? : Fault → Option (String × String)
  | .typeMismatch expected received | .argumentMismatch expected received
  | .fieldMismatch expected received | .returnMismatch expected received =>
    some (expected, received)
  | _ => none

/-- A variable is declared with a type or with a value. -/
def Stmt.Valued : Stmt → Prop
  | .varDecl _ _ type value _ => type.isSome ∨ value.isSome
  | _ => True

/-- Whether the fault neither shows two types nor misses the value of a variable. -/
def Fault.isPlain (fault : Fault) : Bool := fault.texts?.isNone && fault ≠ .valueMissing

namespace Typing

/-- The types that a check may come across, those that may be in annotations, the names of the
classes that may be declared, and whether all variables are declared with a type or a value. A type
belongs to it exactly if its parts do. -/
structure Vocabulary where
  type : Ty → Prop
  annotation : Ty → Prop
  declares : String → Prop
  valued : Prop := False
  primitive : ∀ name ∈ Ty.primitives, type (.named name)
  list : ∀ {t}, type (.list t) ↔ type t
  function : ∀ {ts t}, type (.function ts t) ↔ (∀ u ∈ ts, type u) ∧ type t
  member : ∀ {name members}, type (.struct name members) → ∀ m ∈ members, type m.2
  registered : ∀ {name members}, declares name → (∀ m ∈ members, type m.2) →
    type (.struct name members)
  annotation_list : ∀ {t}, annotation (.list t) → annotation t
  annotation_function : ∀ {ts t}, annotation (.function ts t) →
    (∀ u ∈ ts, annotation u) ∧ annotation t
  annotation_struct : ∀ {name members}, annotation (.struct name members) →
    type (.struct name members)

namespace Vocabulary

variable (v : Vocabulary)

/-- A class that is declared may be, and so may a variable. -/
structure Allows (s : Stmt) : Prop where
  declares : ∀ name ∈ s.className?, v.declares name
  valued : v.valued → s.Valued

/-- The annotations in the tree and the declarations in it belong to the vocabulary. -/
def AdmitsExpr (e : Expr) : Prop := e.Every v.annotation True ∧ ∀ s ∈ e.inner, v.Allows s

def AdmitsExpr? (e : Option Expr) : Prop :=
  Expr.Every? v.annotation True e ∧ ∀ s ∈ Expr.inner? e, v.Allows s

def AdmitsExprs (es : List Expr) : Prop :=
  Expr.EveryOf v.annotation True es ∧ ∀ s ∈ Expr.innerAll es, v.Allows s

def AdmitsFields (fields : List (String × Expr)) : Prop :=
  Expr.EveryOfFields v.annotation True fields ∧ ∀ s ∈ Expr.innerFields fields, v.Allows s

def AdmitsStmt (s : Stmt) : Prop := s.Every v.annotation True ∧ ∀ s' ∈ s :: s.inner, v.Allows s'

def AdmitsStmt? (s : Option Stmt) : Prop :=
  Stmt.Every? v.annotation True s ∧ ∀ s' ∈ Stmt.nodes? s, v.Allows s'

def AdmitsStmts (ss : List Stmt) : Prop :=
  Stmt.EveryOf v.annotation True ss ∧ ∀ s ∈ Stmt.nodes ss, v.Allows s

/-- The context only has types of the vocabulary, and it knows other classes only as they are known
`around`. -/
structure Fits (around : Classes) (c : Context) : Prop where
  scope : ∀ (name : String) (s : Symbol), c.scope[name]? = some s → v.type s.type
  returns : ∀ t, c.returns = .function (some t) → v.type t
  classes : ∀ (name : String) (t : Ty), c.classes[name]? = some t → v.type t
  body : ∀ opened, c.enclosing = some opened → v.AdmitsStmts opened.body.body
  others : ∀ name : String, ¬ v.declares name → c.classes[name]? = around[name]?

/-- If types do not match, they are types of the vocabulary that differ; and no value is missing where
every variable has one or a type. -/
structure Explains (fault : Fault) : Prop where
  texts : ∀ expected received, fault.texts? = some (expected, received) →
    ∃ t u, v.type t ∧ v.type u ∧ (t == u) = false ∧ expected = t.text ∧ received = u.text
  valued : v.valued → fault ≠ .valueMissing

variable {α β : Type}

/-- The run keeps to the vocabulary, and such is its result. -/
inductive Keeps (around : Classes) (Q : α → Prop) : EStateM.Result Diagnostic Context α → Prop
  | ok {a : α} {c : Context} (h : v.Fits around c) (ha : Q a) : Keeps around Q (.ok a c)
  | error {d : Diagnostic} {c : Context} (h : v.Fits around c) (hd : v.Explains d.fault) :
    Keeps around Q (.error d c)

/-- So does every run of the check. -/
def Speaks (around : Classes) (Q : α → Prop) (x : Check α) : Prop :=
  ∀ c, v.Fits around c → v.Keeps around Q (x c)

variable {v} {around : Classes} {Q : α → Prop} {R : β → Prop} {c : Context}

/-- Where nothing is said of the result. -/
abbrev Any : α → Prop := fun _ => True

theorem Keeps.fits {r : EStateM.Result Diagnostic Context α} (h : v.Keeps around Q r) :
    v.Fits around (stateAfter r) := by
  cases h with
  | ok h _ => exact h
  | error h _ => exact h

theorem Keeps.explains {d : Diagnostic} (h : v.Keeps around Q (.error d c)) :
    ∀ expected received, d.fault.texts? = some (expected, received) →
      ∃ t u, v.type t ∧ v.type u ∧ (t == u) = false ∧ expected = t.text ∧ received = u.text := by
  cases h with
  | error _ hd => exact hd.texts

theorem Keeps.valued {d : Diagnostic} (h : v.Keeps around Q (.error d c)) (hv : v.valued) :
    d.fault ≠ .valueMissing := by
  cases h with
  | error _ hd => exact hd.valued hv

theorem Speaks.bind {x : Check α} {f : α → Check β} (hx : v.Speaks around Q x)
    (hf : ∀ a, Q a → v.Speaks around R (f a)) : v.Speaks around R (x >>= f) := by
  intro c hc
  have hrun := hx c hc
  cases h : x c with
  | ok a d =>
    rw [h] at hrun
    cases hrun with
    | ok hd ha =>
      rw [bind_run_ok h]
      exact hf a ha d hd
  | error e d =>
    rw [h] at hrun
    cases hrun with
    | error hd he =>
      rw [bind_run_error h]
      exact .error hd he

theorem speaks_pure {a : α} (ha : Q a) : v.Speaks around Q (pure a) := fun _ hc => .ok hc ha

theorem speaks_throw {d : Diagnostic} (hd : v.Explains d.fault) :
    v.Speaks around Q (throw d : Check α) := fun _ hc => .error hc hd

/-- Most reports show no types. -/
theorem speaks_fail {d : Diagnostic} (hd : d.fault.isPlain = true) :
    v.Speaks around Q (throw d : Check α) := by
  obtain ⟨htexts, hmissing⟩ := Bool.and_eq_true_iff.mp hd
  refine speaks_throw ⟨fun expected received h => ?_, fun _ => of_decide_eq_true hmissing⟩
  rw [Option.isNone_iff_eq_none.mp htexts] at h
  cases h

theorem speaks_get {f : Context → Check α}
    (hf : ∀ c, v.Fits around c → v.Speaks around Q (f c)) :
    v.Speaks around Q (MonadState.get >>= f) := fun c hc => hf c hc c hc

theorem Fits.insertClass (hc : v.Fits around c) {name : String} {members : List (String × Ty)}
    (hname : v.declares name) (hmembers : ∀ m ∈ members, v.type m.2) :
    v.Fits around { c with classes := c.classes.insert name (.struct name members) } where
  scope := hc.scope
  returns := hc.returns
  body := hc.body
  classes other t ht := by
    rw [Std.TreeMap.getElem?_insert] at ht
    split at ht
    · cases ht
      exact v.registered hname hmembers
    · exact hc.classes other t ht
  others other hother := by
    -- The class that is registered is one of the vocabulary.
    have hne : compare name other ≠ .eq := by
      intro heq
      rw [Std.LawfulEqCmp.eq_of_compare heq] at hname
      exact hother hname
    rw [Std.TreeMap.getElem?_insert, if_neg hne]
    exact hc.others other hother

section Steps

theorem speaks_declare (name : String) {type : Ty} (htype : v.type type) (constant : Bool) :
    v.Speaks around Any (declare name type constant) := by
  intro c hc
  refine .ok ?_ trivial
  refine ⟨fun other s hs => ?_, hc.returns, hc.classes, hc.body, hc.others⟩
  dsimp only at hs
  rw [Std.TreeMap.getElem?_insert] at hs
  split at hs
  · cases hs
    exact htype
  · exact hc.scope other s hs

theorem speaks_registerClass {name : String} {members : List (String × Ty)}
    (hname : v.declares name) (hmembers : ∀ m ∈ members, v.type m.2) :
    v.Speaks around Any (registerClass name members) :=
  fun _ hc => .ok (hc.insertClass hname hmembers) trivial

theorem speaks_checkImport (name : String) (position : Position) :
    v.Speaks around Any (checkImport name position) := by
  apply speaks_get
  intro c hc
  split
  · exact speaks_fail rfl
  · split
    · exact fun _ _ => .ok ⟨hc.scope, hc.returns, hc.classes, hc.body, hc.others⟩ trivial
    · exact speaks_fail rfl

theorem speaks_symbol (name : String) (position : Position) :
    v.Speaks around (fun s => v.type s.type) (symbol name position) := by
  apply speaks_get
  intro c hc
  split
  · rename_i s hs
    exact speaks_pure (hc.scope name s hs)
  · exact speaks_fail rfl

theorem speaks_classType (name : String) (position : Position) :
    v.Speaks around v.type (classType name position) := by
  apply speaks_get
  intro c hc
  split
  · rename_i t ht
    exact speaks_pure (hc.classes name t ht)
  · exact speaks_fail rfl

mutual

theorem speaks_resolve (position : Position) (t : Ty) (ht : v.annotation t) :
    v.Speaks around v.type (resolve position t) := by
  match t with
  | .named name =>
    rw [resolve]
    split
    · rename_i hprimitive
      exact speaks_pure (v.primitive name hprimitive)
    · exact speaks_classType name position
  | .list item =>
    rw [resolve]
    apply (speaks_resolve position item (v.annotation_list ht)).bind
    intro u hu
    exact speaks_pure (v.list.mpr hu)
  | .function parameters result =>
    obtain ⟨hparameters, hresult⟩ := v.annotation_function ht
    rw [resolve]
    apply (speaks_resolveAll position parameters hparameters).bind
    intro us hus
    apply (speaks_resolve position result hresult).bind
    intro u hu
    exact speaks_pure (v.function.mpr ⟨hus, hu⟩)
  | .struct name members =>
    rw [resolve]
    exact speaks_pure (v.annotation_struct ht)

theorem speaks_resolveAll (position : Position) (ts : List Ty) (hts : ∀ t ∈ ts, v.annotation t) :
    v.Speaks around (fun us => ∀ u ∈ us, v.type u) (resolveAll position ts) := by
  match ts with
  | [] =>
    rw [resolveAll]
    exact speaks_pure (List.forall_mem_nil _)
  | t :: ts =>
    rw [List.forall_mem_cons] at hts
    rw [resolveAll]
    apply (speaks_resolve position t hts.1).bind
    intro u hu
    apply (speaks_resolveAll position ts hts.2).bind
    intro us hus
    exact speaks_pure (List.forall_mem_cons.mpr ⟨hu, hus⟩)

end

theorem speaks_resolve? (position : Position) (t : Option Ty) (ht : ∀ u ∈ t, v.annotation u) :
    v.Speaks around (fun r => (∀ u ∈ r, v.type u) ∧ r.isSome = t.isSome) (resolve? position t) := by
  cases t with
  | none =>
    rw [resolve?]
    exact speaks_pure (by simp)
  | some t =>
    rw [resolve?]
    apply (speaks_resolve position t (ht t rfl)).bind
    intro u hu
    refine speaks_pure ⟨?_, rfl⟩
    rintro _ ⟨⟩
    exact hu

/-- The types of a function belong to the vocabulary. -/
structure AdmitsSignature (v : Vocabulary) (s : Signature) : Prop where
  parameters : ∀ p ∈ s.parameters, v.type p.2
  result : v.type s.result
  declared : ∀ t ∈ s.declared, v.type t

theorem AdmitsSignature.type {s : Signature} (h : v.AdmitsSignature s) : v.type s.type := by
  refine v.function.mpr ⟨?_, h.result⟩
  intro t ht
  obtain ⟨p, hp, rfl⟩ := List.mem_map.mp ht
  exact h.parameters p hp

/-- Parameters are all that the body of a function begins with. -/
theorem AdmitsSignature.scope {s : Signature} (h : v.AdmitsSignature s) {name : String}
    {symbol : Symbol} (hname : s.scope[name]? = some symbol) : v.type symbol.type := by
  have hall (parameters : List (String × Ty)) (scope : Scope)
      (hparameters : ∀ p ∈ parameters, v.type p.2)
      (hscope : ∀ (name : String) (s : Symbol), scope[name]? = some s → v.type s.type) :
      ∀ (name : String) (s : Symbol), (parameters.foldl (fun scope p => scope.insert p.1 ⟨p.2, false⟩)
        scope)[name]? = some s → v.type s.type := by
    induction parameters generalizing scope with
    | nil => exact hscope
    | cons p parameters ih =>
      rw [List.forall_mem_cons] at hparameters
      apply ih _ hparameters.2
      intro other s hs
      rw [Std.TreeMap.getElem?_insert] at hs
      split at hs
      · cases hs
        exact hparameters.1
      · exact hscope other s hs
  exact hall s.parameters {} h.parameters (fun _ _ h => by simp at h) name symbol hname

theorem speaks_signature (parameters : List Parameter) (result : Option Ty) (position : Position)
    (hparameters : ∀ p ∈ parameters, v.annotation p.type) (hresult : ∀ t ∈ result, v.annotation t) :
    v.Speaks around v.AdmitsSignature (signature parameters result position) := by
  rw [signature]
  apply (speaks_resolveAll position _ (List.forall_mem_map.mpr hparameters)).bind
  intro types htypes
  apply (speaks_resolve? position result hresult).bind
  rintro declared ⟨hdeclared, -⟩
  refine speaks_pure ⟨?_, ?_, hdeclared⟩
  · intro p hp
    exact htypes p.2 (List.of_mem_zip hp).2
  · cases declared with
    | none => exact v.primitive "void" (by decide)
    | some t => exact hdeclared t rfl

theorem speaks_expectSame {fault : String → String → Fault}
    (hfault : ∀ a b, (fault a b).texts? = some (a, b)) {expected received : Ty}
    (hexpected : v.type expected) (hreceived : v.type received) (position : Position) :
    v.Speaks around Any (expectSame fault expected received position) := by
  rw [expectSame]
  split
  · exact speaks_pure trivial
  · rename_i hne
    refine speaks_throw ⟨fun a b hab => ?_, fun _ hmissing => ?_⟩
    · rw [hfault] at hab
      cases hab
      exact ⟨expected, received, hexpected, hreceived, Bool.not_eq_true _ ▸ hne, rfl, rfl⟩
    · have htexts := congrArg Fault.texts? hmissing
      rw [hfault] at htexts
      cases htexts

theorem speaks_expectType {expected received : Ty} (hexpected : v.type expected)
    (hreceived : v.type received) (position : Position) :
    v.Speaks around Any (expectType expected received position) :=
  speaks_expectSame (fun _ _ => rfl) hexpected hreceived position

/-- A condition that is none is reported with one type only. -/
theorem speaks_expectCondition (received : Ty) (position : Position) :
    v.Speaks around Any (expectCondition received position) := by
  rw [expectCondition, expectSame]
  split
  · exact speaks_pure trivial
  · exact speaks_fail rfl

theorem speaks_checkUnary (operator : Token) {operand : Ty} (hoperand : v.type operand)
    (position : Position) : v.Speaks around Any (checkUnary operator operand position) := by
  rw [checkUnary]
  split
  · exact speaks_expectType (v.primitive "bool" (by decide)) hoperand position
  · split
    · exact speaks_pure trivial
    · exact speaks_expectType (v.primitive "int" (by decide)) hoperand position

theorem speaks_checkTarget (target : Expr) : v.Speaks around Any (checkTarget target) := by
  rw [checkTarget.eq_def]
  split
  · split
    · exact speaks_fail rfl
    · apply (speaks_symbol _ _).bind
      intro s _
      split
      · exact speaks_fail rfl
      · exact speaks_pure trivial
  · exact speaks_pure trivial
  · exact speaks_pure trivial
  · exact speaks_fail rfl

theorem type_of_member? {t u : Ty} (ht : v.type t) {name : String} (hu : t.member? name = some u) :
    v.type u := by
  cases t with
  | struct _ members =>
    obtain ⟨before, after, rfl, -⟩ := List.lookup_eq_some_iff.mp hu
    exact v.member ht (name, u) (List.mem_append_right _ List.mem_cons_self)
  | named | list | function => cases hu

theorem speaks_checkMember {object : Ty} (hobject : v.type object) (property : String)
    (start : Position) (span : Span) :
    v.Speaks around v.type (checkMember object property start span) := by
  rw [checkMember.eq_def]
  split
  · rename_i name members
    apply speaks_get
    intro c hc
    -- The class that has the name now counts, and the value's own type only if there is none.
    have hknown : v.type (c.classes[name]?.getD (.struct name members)) := by
      cases ht : c.classes[name]? with
      | none => exact hobject
      | some t => exact hc.classes name t ht
    dsimp only
    split
    · rename_i t ht
      exact speaks_pure (type_of_member? hknown ht)
    · exact speaks_fail rfl
  · exact speaks_fail rfl

theorem speaks_checkCount (parameters : List Ty) (arguments : List Expr) (span : Span) :
    v.Speaks around Any (checkCount parameters arguments span) := by
  rw [checkCount]
  split
  · exact speaks_fail rfl
  · split
    · exact speaks_fail rfl
    · exact speaks_pure trivial

theorem speaks_annotatedMembers (body : List Stmt) (h : Stmt.EveryOf v.annotation True body) :
    v.Speaks around (fun members => ∀ m ∈ members, v.type m.2) (annotatedMembers body) := by
  fun_induction annotatedMembers body with
  | case1 => exact speaks_pure (List.forall_mem_nil _)
  | case2 name _ type _ span rest ih =>
    apply (speaks_resolve _ type (h.1.1 type rfl)).bind
    intro t ht
    apply (ih h.2).bind
    intro members hmembers
    exact speaks_pure (List.forall_mem_cons.mpr ⟨ht, hmembers⟩)
  | case3 _ _ _ ih => exact ih h.2

theorem speaks_resultType (position : Position) :
    v.Speaks around v.type (resultType position) := by
  apply speaks_get
  intro c hc
  split
  · exact speaks_fail rfl
  · rename_i declared hdeclared
    cases declared with
    | none => exact speaks_pure (v.primitive "void" (by decide))
    | some t => exact speaks_pure (hc.returns t hdeclared)

theorem speaks_valueMissing {position : Position} (h : ¬ v.valued) :
    v.Speaks around Q (throw ⟨.valueMissing, position⟩ : Check α) := by
  refine speaks_throw ⟨fun expected received h => ?_, fun hv => absurd hv h⟩
  cases h

theorem speaks_variableType {annotated received : Option Ty} (hannotated : ∀ t ∈ annotated, v.type t)
    (hreceived : ∀ t ∈ received, v.type t) (hvalued : v.valued → annotated.isSome ∨ received.isSome)
    (place position : Position) :
    v.Speaks around v.type (variableType annotated received place position) := by
  rw [variableType.eq_def]
  split
  · apply (speaks_expectType (hannotated _ rfl) (hreceived _ rfl) _).bind
    intro _ _
    exact speaks_pure (hannotated _ rfl)
  · exact speaks_pure (hannotated _ rfl)
  · exact speaks_pure (hreceived _ rfl)
  · exact speaks_valueMissing fun hv => by simpa using hvalued hv

/-- The body of a function begins with the function's own scope and result type. -/
theorem Speaks.inFunction {check : Check α} (h : v.Speaks around Q check) {s : Signature}
    (hs : v.AdmitsSignature s) :
    v.Speaks around Q (Typing.inFunction s.scope s.declared check) := by
  intro c hc
  have hbody : v.Fits around { c with scope := s.scope, returns := .function s.declared } := by
    refine ⟨fun name symbol => hs.scope, fun t ht => ?_, hc.classes, hc.body, hc.others⟩
    injection ht with ht
    exact hs.declared t ht
  have hrun := h _ hbody
  rw [inFunction_run]
  cases hcheck : check { c with scope := s.scope, returns := .function s.declared } with
  | ok a d =>
    rw [hcheck] at hrun
    cases hrun with
    | ok hd ha => exact .ok ⟨hc.scope, hc.returns, hd.classes, hd.body, hd.others⟩ ha
  | error e d =>
    rw [hcheck] at hrun
    cases hrun with
    | error hd he => exact .error ⟨hc.scope, hc.returns, hd.classes, hd.body, hd.others⟩ he

/-- The body of a class begins without any name in scope. -/
theorem Speaks.inClass {check : Check Unit} (h : v.Speaks around Any check) (opened : OpenClass)
    (hopened : v.AdmitsStmts opened.body.body) :
    v.Speaks around (fun scope => ∀ (name : String) (s : Symbol), scope[name]? = some s →
      v.type s.type) (Typing.inClass opened check) := by
  intro c hc
  have hbody : v.Fits around { c with scope := {}, enclosing := some opened } := by
    refine ⟨fun _ _ hs => by simp at hs, hc.returns, hc.classes, fun o ho => ?_, hc.others⟩
    cases ho
    exact hopened
  have hrun := h _ hbody
  rw [inClass_run]
  cases hcheck : check { c with scope := {}, enclosing := some opened } with
  | ok a d =>
    rw [hcheck] at hrun
    cases hrun with
    | ok hd _ => exact .ok ⟨hc.scope, hd.returns, hd.classes, hc.body, hd.others⟩ hd.scope
  | error e d =>
    rw [hcheck] at hrun
    cases hrun with
    | error hd he => exact .error ⟨hc.scope, hd.returns, hd.classes, hc.body, hd.others⟩ he

end Steps

end Vocabulary

end Typing

end Scriptlet
