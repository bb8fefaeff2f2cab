import Scriptlet.Proofs.Sequence
import Scriptlet.Proofs.Typing.Parallel

namespace Scriptlet

namespace Typing

namespace Context

/-- Every class is registered as a struct of its own name. -/
def Named (c : Context) : Prop :=
  ∀ (name : String) (type : Ty), c.classes[name]? = some type →
    ∃ members, type = .struct name members

/-- The second context is in the class that the first is in, and knows its classes. -/
structure Leads (c d : Context) : Prop where
  enclosing : d.enclosing = c.enclosing
  classes : ∀ name, name ∈ c.classes → name ∈ d.classes
  named : c.Named → d.Named

theorem Leads.refl (c : Context) : c.Leads c := ⟨rfl, fun _ h => h, id⟩

theorem Leads.trans {a b c : Context} (h : a.Leads b) (h' : b.Leads c) : a.Leads c :=
  ⟨h'.enclosing.trans h.enclosing, fun name hname => h'.classes name (h.classes name hname),
    fun hnamed => h'.named (h.named hnamed)⟩

/-- It also knows every name in its scope, and takes all but the given ones for the same. -/
structure Grows (names : List String) (c d : Context) : Prop extends Leads c d where
  scope : ∀ name, name ∈ c.scope → name ∈ d.scope
  others : ∀ name, name ∉ names → d.scope[name]? = c.scope[name]?

theorem Grows.trans {names : List String} {a b c : Context} (h : a.Grows names b)
    (h' : b.Grows names c) : a.Grows names c :=
  ⟨h.toLeads.trans h'.toLeads, fun name hname => h'.scope name (h.scope name hname),
    fun name hname => (h'.others name hname).trans (h.others name hname)⟩

theorem Grows.mono {names names' : List String} {c d : Context} (h : c.Grows names d)
    (hnames : names ⊆ names') : c.Grows names' d :=
  ⟨h.toLeads, h.scope, fun name hname => h.others name fun hmem => hname (hnames hmem)⟩

/-- Nothing happens to the scope. -/
theorem Leads.grows {c d : Context} (h : c.Leads d) (hscope : d.scope = c.scope)
    (names : List String) : c.Grows names d :=
  ⟨h, fun name hname => by rwa [hscope], fun name _ => by rw [hscope]⟩

/-- Other parts of a context do not matter here. -/
theorem Leads.of_eq {c d : Context} (he : d.enclosing = c.enclosing) (hc : d.classes = c.classes) :
    c.Leads d := by
  refine ⟨he, fun name hname => by rwa [hc], fun hnamed name type h => hnamed name type ?_⟩
  rwa [← hc]

end Context

variable {α β : Type}

/-- The check leaves the context as it is. -/
abbrev Still (x : Check α) : Prop := Moves Eq x

/-- The check leads on, and declares no others than the given names. -/
abbrev Steady (names : List String) (x : Check α) : Prop := Moves (Context.Grows names) x

theorem Still.bind {x : Check α} {f : α → Check β} (hx : Still x) (hf : ∀ a, Still (f a)) :
    Still (x >>= f) := Moves.bind (fun h h' => h.trans h') hx hf

/-- Behind what leaves the context as it is, a check goes on in the same context. -/
theorem Still.bind_eq_ok {x : Check α} {f : α → Check β} (hx : Still x) {c c' : Context} {b : β}
    (h : (x >>= f) c = .ok b c') : ∃ a, x c = .ok a c ∧ f a c = .ok b c' := by
  obtain ⟨a, c₁, ha, hb⟩ := bind_run_eq_ok_iff.mp h
  have hc₁ : c = c₁ := hx.of_ok ha
  rw [← hc₁] at ha hb
  exact ⟨a, ha, hb⟩

theorem still_pure (a : α) : Still (pure a) := fun _ => rfl

theorem still_throw (d : Diagnostic) : Still (throw d : Check α) := fun _ => rfl

section Still

theorem reading_still : Reading (fun _ => True) @Still where
  pure := still_pure
  throw d _ _ := still_throw d
  get := Moves.get
  bind := Still.bind

theorem still_classType (name : String) (position : Position) :
    Still (classType name position) := reading_classType reading_still name trivial

theorem still_symbol (name : String) (position : Position) : Still (symbol name position) :=
  reading_symbol reading_still name trivial

theorem still_resolve (position : Position) (t : Ty) : Still (resolve position t) :=
  reading_resolve reading_still t trivial

theorem still_resolveAll (position : Position) (ts : List Ty) :
    Still (resolveAll position ts) := reading_resolveAll reading_still ts trivial

theorem still_signature (parameters : List Parameter) (result : Option Ty) (position : Position) :
    Still (signature parameters result position) :=
  reading_signature reading_still parameters result trivial

theorem still_expectSame (fault : String → String → Fault) (expected received : Ty)
    (position : Position) : Still (expectSame fault expected received position) := by
  rw [expectSame]
  split
  · exact still_pure _
  · exact still_throw _

theorem still_checkUnary (operator : Token) (operand : Ty) (position : Position) :
    Still (checkUnary operator operand position) :=
  reading_checkUnary reading_still operator operand trivial

theorem still_checkTarget (target : Expr) : Still (checkTarget target) :=
  reading_checkTarget reading_still target trivial

theorem still_checkMember (object : Ty) (property : String) (start : Position) (span : Span) :
    Still (checkMember object property start span) :=
  reading_checkMember reading_still object property trivial trivial

theorem still_checkCount (parameters : List Ty) (arguments : List Expr) (span : Span) :
    Still (checkCount parameters arguments span) :=
  reading_checkCount reading_still parameters (fun _ _ => trivial) trivial

theorem still_annotatedMembers (body : List Stmt) : Still (annotatedMembers body) :=
  reading_annotatedMembers reading_still fun _ _ => trivial

theorem still_resultType (position : Position) : Still (resultType position) :=
  reading_resultType reading_still trivial

theorem still_variableType (annotated received : Option Ty) (place position : Position) :
    Still (variableType annotated received place position) :=
  reading_variableType reading_still annotated received trivial trivial

end Still

section Bodies

/-- A check in the body of a function leaves the scope and the result type as they are around it. -/
theorem inFunction_run (scope : Scope) (result : Option Ty) (check : Check α) (c : Context) :
    inFunction scope result check c =
      match check { c with scope, returns := .function result } with
      | .ok a d => .ok a { d with scope := c.scope, returns := c.returns }
      | .error x d => .error x { d with scope := c.scope, returns := c.returns } := by
  rw [inFunction, get_bind_run, modify_bind_run]
  cases h : check { c with scope, returns := .function result } with
  | ok a d =>
    have hrun : inScope scope check { c with returns := .function result } =
        .ok (.ok a, d.scope) { d with scope := c.scope } := by
      rw [inScope, h]
    rw [bind_run_ok hrun]
    rfl
  | error x d =>
    have hrun : inScope scope check { c with returns := .function result } =
        .ok (.error x, d.scope) { d with scope := c.scope } := by
      rw [inScope, h]
    rw [bind_run_ok hrun]
    rfl

/-- A check in the body of a class leaves the scope and the class as they are around it. -/
theorem inClass_run (opened : OpenClass) (check : Check Unit) (c : Context) :
    inClass opened check c =
      match check { c with scope := {}, enclosing := some opened } with
      | .ok () d => .ok d.scope { d with scope := c.scope, enclosing := c.enclosing }
      | .error x d => .error x { d with scope := c.scope, enclosing := c.enclosing } := by
  rw [inClass, get_bind_run, modify_bind_run]
  cases h : check { c with scope := {}, enclosing := some opened } with
  | ok a d =>
    have hrun : inScope {} check { c with enclosing := some opened } =
        .ok (.ok a, d.scope) { d with scope := c.scope } := by
      rw [inScope, h]
    rw [bind_run_ok hrun]
    rfl
  | error x d =>
    have hrun : inScope {} check { c with enclosing := some opened } =
        .ok (.error x, d.scope) { d with scope := c.scope } := by
      rw [inScope, h]
    rw [bind_run_ok hrun]
    rfl

end Bodies

/-- What every step of a check does to a context, with the names that it declares: it holds of
doing nothing and of one step after another, and of each way to change a context. -/
structure Framing (R : List String → Context → Context → Prop) : Prop where
  refl : ∀ c, R [] c c
  enclosing : ∀ {names c d}, R names c d → d.enclosing = c.enclosing
  trans : ∀ {names b c d}, R names b c → R names c d → R names b d
  mono : ∀ {names names' c d}, R names c d → names ⊆ names' → R names' c d
  declare : ∀ name symbol (c : Context), R [name] c { c with scope := c.scope.insert name symbol }
  registerClass : ∀ name members (c : Context),
    R [] c { c with classes := c.classes.insert name (.struct name members) }
  imports : ∀ name (c : Context), R [] c { c with imported := c.imported.insert name }
  function : ∀ {names scope result} {c d : Context},
    R names { c with scope, returns := .function result } d →
      R [] c { d with scope := c.scope, returns := c.returns }
  members : ∀ {names opened} {c d : Context},
    R names { c with scope := {}, enclosing := some opened } d →
      R [] c { d with scope := c.scope, enclosing := c.enclosing }

/-- The relation, asked of no other steps than those that begin in the class. -/
def InClass (R : List String → Context → Context → Prop) (opened : Option OpenClass)
    (names : List String) (c d : Context) : Prop := c.enclosing = opened → R names c d

theorem moves_inClass {R : List String → Context → Context → Prop} {opened : Option OpenClass}
    {names : List String} {x : Check α} (hx : Moves (R names) x) :
    Moves (InClass R opened names) x := fun c _ => hx c

namespace Framing

variable {R : List String → Context → Context → Prop} (hR : Framing R) {opened : Option OpenClass}
  {names : List String}
include hR

theorem still {x : Check α} (hx : Still x) : Moves (R names) x := by
  intro c
  rw [← hx c]
  exact hR.mono (hR.refl c) (List.nil_subset names)

theorem moves_declare (name : String) (type : Ty) (constant : Bool) :
    Moves (R [name]) (Typing.declare name type constant) := fun c => hR.declare name _ c

theorem moves_registerClass (name : String) (members : List (String × Ty)) :
    Moves (R []) (Typing.registerClass name members) := fun c => hR.registerClass name members c

theorem moves_checkImport (name : String) (position : Position) :
    Moves (R []) (checkImport name position) := by
  intro c
  rw [checkImport, get_bind_run]
  by_cases himported : name ∈ c.imported
  · rw [if_pos himported]
    exact hR.refl c
  · rw [if_neg himported]
    by_cases hknown : name ∈ c.modules
    · rw [if_pos hknown]
      exact hR.imports name c
    · rw [if_neg hknown]
      exact hR.refl c

theorem bind {x : Check α} {f : α → Check β} (hx : Moves (InClass R opened names) x)
    (hf : ∀ a, Moves (InClass R opened names) (f a)) :
    Moves (InClass R opened names) (x >>= f) := by
  refine Moves.bind (R := InClass R opened names) (fun h h' hc => ?_) hx hf
  exact hR.trans (h hc) (h' ((hR.enclosing (h hc)).trans hc))

theorem inFunction {check : Check α} (h : Moves (InClass R opened names) check) (scope : Scope)
    (result : Option Ty) : Moves (InClass R opened []) (Typing.inFunction scope result check) := by
  intro c hc
  have hbody := hR.function (h { c with scope, returns := .function result } hc)
  rw [inFunction_run]
  cases hcheck : check { c with scope, returns := .function result } <;> rw [hcheck] at hbody <;>
    exact hbody

theorem inClass {check : Check Unit} {o : OpenClass}
    (h : Moves (InClass R (some o) names) check) :
    Moves (InClass R opened []) (Typing.inClass o check) := by
  intro c _
  have hbody := hR.members (h { c with scope := {}, enclosing := some o } rfl)
  rw [inClass_run]
  cases hcheck : check { c with scope := {}, enclosing := some o } <;>
    rw [hcheck] at hbody <;> exact hbody

/-- A check moves as its steps do, wherever its errors are. -/
theorem parallel : Parallel (fun _ => True) fun opened names _ _ x _ =>
    Moves (InClass R opened names) x where
  reading _ _ :=
    { pure := fun a => moves_inClass (hR.still (still_pure a))
      throw := fun d _ _ => moves_inClass (hR.still (still_throw d))
      get := Moves.get
      bind := hR.bind }
  get hf c hc := hf c hc c hc
  bind := hR.bind
  mono h hnames c hc := hR.mono (h c hc) hnames
  widen _ := id
  declare name type constant := moves_inClass (hR.moves_declare name type constant)
  registerClass name members := moves_inClass (hR.moves_registerClass name members)
  imports name _ _ := moves_inClass (hR.moves_checkImport name _)
  function scope result h := hR.inFunction h scope result
  members := hR.inClass

end Framing

section Tree

variable {R : List String → Context → Context → Prop} {reread : Expr → Check Ty}

theorem rereads_inClass (hr : ∀ e, Moves (R []) (reread e)) :
    Rereads (fun _ => True) (fun opened names _ _ x _ => Moves (InClass R opened names) x)
      reread reread := fun _ _ e _ => moves_inClass (hr e)

variable (hR : Framing R) (hr : ∀ e, Moves (R []) (reread e))
include hR hr

theorem moves_checkExpr (e : Expr) : Moves (R []) (checkExpr reread e) := by
  intro c
  exact (rereads_inClass hr).checkExpr hR.parallel (fun o _ => o.marked_true) e
    e.region.marked_true c rfl

theorem moves_checkStmt (s : Stmt) : Moves (R s.declared) (checkStmt reread s) := by
  intro c
  exact (rereads_inClass hr).checkStmt hR.parallel (fun o _ => o.marked_true) s
    s.region.marked_true c rfl

theorem moves_checkStmts (ss : List Stmt) :
    Moves (R (Stmt.declaredOf ss)) (checkStmts reread ss) := by
  intro c
  exact (rereads_inClass hr).checkStmts hR.parallel (fun o _ => o.marked_true) ss
    (fun r _ => r.marked_true) c rfl

end Tree

/-- However deep fields are checked again, a check moves as its steps do. -/
theorem moves_checkNested {R : List String → Context → Context → Prop} (hR : Framing R) (n : Nat)
    (e : Expr) : Moves (R []) (checkNested n e) := by
  induction n generalizing e with
  | zero => exact hR.still (still_throw _)
  | succ n ih => exact moves_checkExpr hR ih e

section Grows

theorem framing_grows : Framing Context.Grows where
  refl c := (Context.Leads.refl c).grows rfl []
  enclosing h := h.enclosing
  trans := Context.Grows.trans
  mono := Context.Grows.mono
  declare name symbol c := by
    refine ⟨.of_eq rfl rfl, fun _ h => Std.TreeMap.mem_insert.mpr (.inr h), ?_⟩
    intro other hother
    have hne : compare name other ≠ .eq := by
      intro heq
      exact hother (List.mem_singleton.mpr (Std.LawfulEqCmp.eq_of_compare heq).symm)
    change (c.scope.insert name symbol)[other]? = c.scope[other]?
    rw [Std.TreeMap.getElem?_insert, if_neg hne]
  registerClass name members c := by
    have hnamed : c.Named →
        { c with classes := c.classes.insert name (.struct name members) }.Named := by
      intro hnamed other type h
      rw [Std.TreeMap.getElem?_insert] at h
      split at h
      · rename_i heq
        rw [← Option.some.inj h, Std.LawfulEqCmp.eq_of_compare heq]
        exact ⟨members, rfl⟩
      · exact hnamed other type h
    have hleads : c.Leads { c with classes := c.classes.insert name (.struct name members) } :=
      ⟨rfl, fun _ h => Std.TreeMap.mem_insert.mpr (.inr h), hnamed⟩
    exact hleads.grows rfl []
  imports name c := by
    have hleads : c.Leads { c with imported := c.imported.insert name } := .of_eq rfl rfl
    exact hleads.grows rfl []
  function {_ _ _ c d} h := by
    have hleads : c.Leads { d with scope := c.scope, returns := c.returns } :=
      ⟨h.enclosing, h.classes, h.named⟩
    exact hleads.grows rfl []
  members {_ _ c d} h := by
    -- The check inside is in another class, so only what it knows of classes is handed on.
    have hleads : c.Leads { d with scope := c.scope, enclosing := c.enclosing } :=
      ⟨rfl, h.classes, h.named⟩
    exact hleads.grows rfl []

variable {reread : Expr → Check Ty}

theorem steady_registerClass (name : String) (members : List (String × Ty)) :
    Steady [] (registerClass name members) := framing_grows.moves_registerClass name members

theorem steady_checkStmt (hr : ∀ e, Steady [] (reread e)) (s : Stmt) :
    Steady s.declared (checkStmt reread s) := moves_checkStmt framing_grows hr s

theorem steady_checkStmts (hr : ∀ e, Steady [] (reread e)) (ss : List Stmt) :
    Steady (Stmt.declaredOf ss) (checkStmts reread ss) := moves_checkStmts framing_grows hr ss

/-- However deep fields are checked again, a check leads on. -/
theorem steady_checkNested (n : Nat) (e : Expr) : Steady [] (checkNested n e) :=
  moves_checkNested framing_grows n e

end Grows

end Typing

end Scriptlet
