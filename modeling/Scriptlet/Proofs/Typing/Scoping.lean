import Scriptlet.Proofs.Typing.Acceptance
import Scriptlet.Proofs.Typing.Annotation
import Scriptlet.Proofs.Typing.Visit

namespace Scriptlet

namespace Event

theorem introducedIn_append (es fs : List Event) :
    introducedIn (es ++ fs) = introducedIn es ++ introducedIn fs := by
  induction es with
  | nil => rfl
  | cons e es ih => rw [List.cons_append, introducedIn, ih, introducedIn, List.append_assoc]

end Event

/-- What a class body foresees is declared in it. -/
theorem Stmt.foreseen_subset (body : List Stmt) :
    Stmt.foreseen body ⊆ Event.introducedIn (Stmt.outlineOf body) := by
  induction body with
  | nil => exact List.nil_subset _
  | cons s ss ih =>
    rw [Stmt.outlineOf, Event.introducedIn_append]
    have hrest : Stmt.foreseen ss ⊆ Event.introducedIn s.outline ++
        Event.introducedIn (Stmt.outlineOf ss) :=
      List.Subset.trans ih (List.subset_append_right _ _)
    rw [Stmt.foreseen.eq_def]
    split
    · exact List.nil_subset _
    · rename_i name constant value span ss' heq
      cases heq
      have hvalue : Event.introducedIn value.outline ⊆ Event.introducedIn
          (Stmt.outline (.varDecl name constant none (some value) span)) := by
        rw [Stmt.outline, Ty.outline?, Expr.outline?, List.nil_append, Event.introducedIn_append]
        exact List.subset_append_left _ _
      exact List.append_subset.mpr
        ⟨List.Subset.trans hvalue (List.subset_append_left _ _), hrest⟩
    · rename_i s' ss' _ heq
      cases heq
      exact hrest

theorem Stmt.subset_foreseen {body : List Stmt} {name : String} {constant : Bool} {value : Expr}
    {span : Span} (h : .varDecl name constant none (some value) span ∈ body) :
    Event.introducedIn value.outline ⊆ Stmt.foreseen body := by
  induction body with
  | nil => exact absurd h List.not_mem_nil
  | cons s ss ih =>
    rcases List.mem_cons.mp h with heq | hmem
    · rw [← heq, Stmt.foreseen]
      exact List.subset_append_left _ _
    · rw [Stmt.foreseen.eq_def]
      split
      · rename_i heq
        cases heq
      · rename_i heq
        cases heq
        exact List.Subset.trans (ih hmem) (List.subset_append_right _ _)
      · rename_i heq
        cases heq
        exact ih hmem

namespace Typing

namespace Context

/-- The classes that a member of `this` can make known. -/
def foreseen (c : Context) : List String :=
  match c.enclosing with
  | none => []
  | some opened => Stmt.foreseen opened.body.body

/-- The check goes by what is known at the place. -/
structure Reflects (c : Context) (p : Place) : Prop where
  declared : ∀ name : String, (c.scope[name]?).map (·.constant) = p.declared.lookup name
  enclosing : ∀ opened, c.enclosing = some opened →
    p.inClass ∧ Stmt.foreseen opened.body.body ⊆ p.foreseen
  inFunction : c.returns ≠ .topLevel → p.inFunction
  imported : ∀ name ∈ p.imported, name ∈ c.imported
  modules : ∀ name ∈ c.modules, name ∈ Context.fresh.modules
  classes : ∀ name, name ∈ c.classes → name ∈ p.classes

theorem reflects_fresh : fresh.Reflects .start where
  declared name := by simp [fresh, Place.start]
  enclosing _ h := nomatch h
  inFunction h := absurd rfl h
  imported _ h := absurd h List.not_mem_nil
  modules _ h := h
  classes name h := by simp [fresh] at h

/-- From the first context to the second, these events are passed. The classes known in the end are
those that were known, those declared in the events, and maybe some that are foreseen. -/
structure Passes (c : Context) (es : List Event) (c' : Context) : Prop where
  enclosing : c'.enclosing = c.enclosing
  classes : ∀ name, name ∈ c'.classes →
    name ∈ c.classes ∨ name ∈ Event.introducedIn es ∨ name ∈ c.foreseen
  known : ∀ name, name ∈ c.classes ∨ name ∈ Event.introducedIn es → name ∈ c'.classes
  accepts : ∀ p, c.Reflects p → ∃ p', Accepts p es p' ∧ c'.Reflects p'

theorem foreseen_congr {c d : Context} (h : d.enclosing = c.enclosing) :
    d.foreseen = c.foreseen := by
  rw [foreseen, h, foreseen]

theorem Passes.refl (c : Context) : c.Passes [] c :=
  ⟨rfl, fun _ h => .inl h, fun _ h => h.resolve_right List.not_mem_nil,
    fun p hp => ⟨p, .nil p, hp⟩⟩

theorem Passes.trans {c d e : Context} {es fs : List Event} (h : c.Passes es d)
    (h' : d.Passes fs e) : c.Passes (es ++ fs) e := by
  refine ⟨h'.enclosing.trans h.enclosing, fun name hname => ?_, fun name hname => ?_,
    fun p hp => ?_⟩
  · rw [Event.introducedIn_append, List.mem_append]
    rcases h'.classes name hname with hknown | hnew | hahead
    · rcases h.classes name hknown with hknown | hnew | hahead
      · exact .inl hknown
      · exact .inr (.inl (.inl hnew))
      · exact .inr (.inr hahead)
    · exact .inr (.inl (.inr hnew))
    · exact .inr (.inr (foreseen_congr h.enclosing ▸ hahead))
  · rw [Event.introducedIn_append, List.mem_append, ← or_assoc] at hname
    exact h'.known name (hname.imp_left (h.known name))
  · obtain ⟨p₁, h₁, hp₁⟩ := h.accepts p hp
    obtain ⟨p₂, h₂, hp₂⟩ := h'.accepts p₁ hp₁
    exact ⟨p₂, h₁.append h₂, hp₂⟩

/-- The classes stay the same where an event declares none. -/
theorem known_of_introduced {c : Context} {e : Event} (he : e.introduced = []) (name : String)
    (h : name ∈ c.classes ∨ name ∈ Event.introducedIn [e]) : name ∈ c.classes := by
  rw [Event.introducedIn, he] at h
  exact h.resolve_right List.not_mem_nil

/-- The event changes nothing. -/
theorem Passes.event {c : Context} {e : Event} (he : e.introduced = [])
    (h : ∀ p, c.Reflects p → Allows p e p) : c.Passes [e] c :=
  ⟨rfl, fun _ hname => .inl hname, known_of_introduced he, fun p hp => ⟨p, (h p hp).accepts, hp⟩⟩

end Context

variable {α β : Type}

/-- Where the check succeeds it has passed these events. -/
def Follows (es : List Event) (x : Check α) : Prop :=
  ∀ c a c', x c = .ok a c' → c.Passes es c'

theorem Still.follows {x : Check α} (h : Still x) : Follows [] x := by
  intro c a c' hx
  have hc : c = c' := h.of_ok hx
  exact hc ▸ .refl c

theorem follows_throw (es : List Event) (d : Diagnostic) : Follows es (throw d : Check α) :=
  fun _ _ _ h => nomatch h

/-- The second check may depend on how the first has succeeded. -/
theorem Follows.bind_ok {es fs : List Event} {x : Check α} {f : α → Check β} (hx : Follows es x)
    (hf : ∀ c a c', x c = .ok a c' → Follows fs (f a)) : Follows (es ++ fs) (x >>= f) := by
  intro c b c' h
  obtain ⟨a, c₁, ha, hb⟩ := bind_run_eq_ok_iff.mp h
  exact (hx c a c₁ ha).trans (hf c a c₁ ha c₁ b c' hb)

theorem Follows.bind {es fs : List Event} {x : Check α} {f : α → Check β} (hx : Follows es x)
    (hf : ∀ a, Follows fs (f a)) : Follows (es ++ fs) (x >>= f) :=
  hx.bind_ok fun _ a _ _ => hf a

theorem Follows.then_still {es : List Event} {x : Check α} {f : α → Check β} (hx : Follows es x)
    (hf : ∀ a, Still (f a)) : Follows es (x >>= f) := by
  have h := hx.bind fun a => (hf a).follows
  rwa [List.append_nil] at h

theorem Still.then {es : List Event} {x : Check α} {f : α → Check β} (hx : Still x)
    (hf : ∀ a, Follows es (f a)) : Follows es (x >>= f) :=
  hx.follows.bind hf

section Steps

/-- A step that leaves the context as it is stands for an event that this context allows. -/
theorem Still.follows_event {x : Check α} {e : Event} (hx : Still x) (he : e.introduced = [])
    (h : ∀ c a c' p, x c = .ok a c' → c.Reflects p → Allows p e p) : Follows [e] x := by
  intro c a c' hrun
  have hc : c = c' := hx.of_ok hrun
  rw [← hc] at hrun ⊢
  exact .event he fun p hp => h c a c p hrun hp

theorem symbol_ok {name : String} {position : Position} {c c' : Context} {s : Symbol}
    (h : symbol name position c = .ok s c') : c.scope[name]? = some s := by
  rw [symbol, get_bind_run] at h
  cases hs : c.scope[name]? with
  | none => simp [hs] at h
  | some s' =>
    simp only [hs] at h
    cases h
    rfl

theorem follows_symbol (name : String) (position : Position) :
    Follows [.refers name] (symbol name position) := by
  apply (still_symbol name position).follows_event rfl
  intro c s c' p h hp
  have hlookup := hp.declared name
  rw [symbol_ok h] at hlookup
  exact .refers (Option.isSome_of_eq_some hlookup.symm)

theorem follows_classType (name : String) (position : Position) :
    Follows [.names name] (classType name position) := by
  apply (still_classType name position).follows_event rfl
  intro c t c' p h hp
  rw [classType, get_bind_run] at h
  cases ht : c.classes[name]? with
  | none => simp [ht] at h
  | some type =>
    refine .names (hp.classes name ?_)
    rw [Std.TreeMap.mem_iff_isSome_getElem?, ht]
    rfl

theorem follows_this (span : Span) :
    Follows [.self] (do
      match (← get).enclosing with
      | some opened => classType opened.name span.start
      | none => throw ⟨.thisOutsideClass, span.start⟩ : Check Ty) := by
  intro c t c' h
  rw [get_bind_run] at h
  cases hopened : c.enclosing with
  | none => simp [hopened] at h
  | some opened =>
    simp only [hopened] at h
    have hc : c = c' := (still_classType _ _).of_ok h
    exact hc ▸ .event rfl fun p hp => .self (hp.enclosing opened hopened).1

theorem follows_resultType (position : Position) : Follows [.returns] (resultType position) := by
  apply (still_resultType position).follows_event rfl
  intro c t c' p h hp
  rw [resultType, get_bind_run] at h
  cases hreturns : c.returns with
  | topLevel => simp [hreturns] at h
  | function declared =>
    refine .returns (hp.inFunction ?_)
    rw [hreturns]
    exact fun h => nomatch h

theorem follows_checkTarget (target : Expr) :
    Follows target.targetOutline (checkTarget target) := by
  have hstill := still_checkTarget target
  rw [checkTarget.eq_def] at hstill ⊢
  split
  · rename_i name span
    apply hstill.follows_event rfl
    intro c u c' p h hp
    dsimp only at h
    split at h
    · cases h
    · obtain ⟨s, c₁, hs, h⟩ := bind_run_eq_ok_iff.mp h
      split at h
      · cases h
      · rename_i hconstant
        refine .assigns ?_
        rw [← hp.declared name, symbol_ok hs]
        exact fun heq => hconstant (Option.some.inj heq)
  · exact (still_pure _).follows
  · exact (still_pure _).follows
  · exact follows_throw _ _

theorem follows_declare (name : String) (type : Ty) (constant : Bool) :
    Follows [.declares name constant] (declare name type constant) := by
  intro c u c' h
  cases h
  refine ⟨rfl, fun _ hname => .inl hname, Context.known_of_introduced rfl,
    fun p hp => ⟨_, (Allows.declares p _ _).accepts, ?_⟩⟩
  refine ⟨fun other => ?_, hp.enclosing, hp.inFunction, hp.imported, hp.modules, hp.classes⟩
  change ((c.scope.insert name ⟨type, constant⟩)[other]?).map _ =
    ((name, constant) :: p.declared).lookup other
  rw [Std.TreeMap.getElem?_insert, List.lookup_cons, ← hp.declared other]
  by_cases heq : other = name
  · simp [heq]
  · have hne : compare name other ≠ .eq := fun h => heq (Std.LawfulEqCmp.eq_of_compare h).symm
    have hbeq : (other == name) = false := beq_eq_false_iff_ne.mpr heq
    rw [if_neg hne, hbeq]

/-- No argument is left unchecked. -/
theorem length_le_of_checkCount {parameters : List Ty} {arguments : List Expr} {span : Span}
    {c c' : Context} {u : Unit} (h : checkCount parameters arguments span c = .ok u c') :
    arguments.length ≤ parameters.length := by
  rw [checkCount] at h
  cases hdrop : arguments.drop parameters.length with
  | nil => exact List.drop_eq_nil_iff.mp hdrop
  | cons extra rest => simp [hdrop] at h

theorem follows_checkImport (name : String) (position : Position) :
    Follows [.imports name] (checkImport name position) := by
  intro c u c' h
  rw [checkImport, get_bind_run] at h
  split at h
  · cases h
  · rename_i hnew
    split at h
    · rename_i hknown
      cases h
      refine ⟨rfl, fun _ hname => .inl hname, Context.known_of_introduced rfl, fun p hp => ?_⟩
      refine ⟨_, (Allows.imports (hp.modules name hknown)
        fun hmem => hnew (hp.imported name hmem)).accepts, ?_⟩
      refine ⟨hp.declared, hp.enclosing, hp.inFunction, fun other hother => ?_,
        hp.modules, hp.classes⟩
      rcases List.mem_cons.mp hother with rfl | hother
      · exact Std.TreeSet.mem_insert_self
      · exact Std.TreeSet.mem_insert.mpr (.inr (hp.imported other hother))
    · cases h

mutual

theorem follows_resolve (position : Position) (t : Ty) :
    Follows t.outline (resolve position t) := by
  match t with
  | .named name =>
    rw [resolve, Ty.outline, Ty.classNames]
    split
    · exact (still_pure _).follows
    · exact follows_classType name position
  | .list item =>
    rw [resolve]
    exact (follows_resolve position item).then_still fun _ => still_pure _
  | .function parameters result =>
    rw [resolve, Ty.outline, Ty.classNames, List.map_append]
    apply (follows_resolveAll position parameters).bind
    intro types
    exact (follows_resolve position result).then_still fun _ => still_pure _
  | .struct name members =>
    rw [resolve]
    exact (still_pure _).follows

theorem follows_resolveAll (position : Position) (ts : List Ty) :
    Follows ((Ty.classNamesOf ts).map .names) (resolveAll position ts) := by
  match ts with
  | [] => exact (still_pure _).follows
  | t :: ts =>
    rw [resolveAll, Ty.classNamesOf, List.map_append]
    apply (follows_resolve position t).bind
    intro first
    exact (follows_resolveAll position ts).then_still fun _ => still_pure _

end

theorem follows_resolve? (position : Position) (t : Option Ty) :
    Follows (Ty.outline? t) (resolve? position t) := by
  cases t with
  | none => exact (still_pure _).follows
  | some t => exact (follows_resolve position t).then_still fun _ => still_pure _

theorem follows_signature (parameters : List Parameter) (result : Option Ty)
    (position : Position) :
    Follows (signatureOutline parameters result) (signature parameters result position) := by
  apply (follows_resolveAll position _).bind
  intro types
  exact (follows_resolve? position result).then_still fun _ => still_pure _

theorem lookup_map_false (names : List String) (name : String) :
    (names.map (·, false)).lookup name = if name ∈ names then some false else none := by
  induction names with
  | nil => rfl
  | cons other names ih =>
    rw [List.map_cons, List.lookup_cons, ih]
    by_cases heq : name = other
    · simp [heq]
    · have hbeq : (name == other) = false := beq_eq_false_iff_ne.mpr heq
      rw [hbeq]
      simp [heq]

theorem constant_insertAll (parameters : List (String × Ty)) (scope : Scope) (name : String) :
    ((parameters.foldl (fun scope p => scope.insert p.1 ⟨p.2, false⟩) scope)[name]?).map
        (·.constant) =
      if name ∈ parameters.map (·.1) then some false else (scope[name]?).map (·.constant) := by
  induction parameters generalizing scope with
  | nil => simp
  | cons parameter parameters ih =>
    rw [List.foldl_cons, ih, Std.TreeMap.getElem?_insert]
    by_cases heq : parameter.1 = name
    · simp [heq]
    · have hne : compare parameter.1 name ≠ .eq := fun h => heq (Std.LawfulEqCmp.eq_of_compare h)
      have hiff : name ∈ parameter.1 :: parameters.map (·.1) ↔ name ∈ parameters.map (·.1) := by
        rw [List.mem_cons, or_iff_right (Ne.symm heq)]
      rw [if_neg hne, List.map_cons]
      exact ite_congr (propext hiff).symm (fun _ => rfl) (fun _ => rfl)

/-- In the scope of a function's body are the parameters, and they are no constants. -/
theorem scope_signature {parameters : List Parameter} {result : Option Ty} {position : Position}
    {c c' : Context} {s : Signature} (h : signature parameters result position c = .ok s c')
    (name : String) : (s.scope[name]?).map (·.constant) =
      ((parameters.map (·.name)).map (·, false)).lookup name := by
  rw [signature] at h
  obtain ⟨types, c₁, htypes, h⟩ := bind_run_eq_ok_iff.mp h
  obtain ⟨declared, c₂, -, h⟩ := bind_run_eq_ok_iff.mp h
  cases h
  have hlength : types.length = (parameters.map (·.name)).length := by
    rw [resolveAll_length htypes, List.length_map, List.length_map]
  have hnames : ((parameters.map (·.name)).zip types).map (·.1) = parameters.map (·.name) :=
    List.map_fst_zip (Nat.le_of_eq hlength.symm)
  rw [lookup_map_false, Signature.scope, constant_insertAll, hnames]
  rfl

end Steps

section Bodies

theorem Follows.inFunction {es : List Event} {check : Check α} (h : Follows es check)
    {scope : Scope} {parameters : List String} (result : Option Ty)
    (hscope : ∀ name : String,
      (scope[name]?).map (·.constant) = (parameters.map (·, false)).lookup name) :
    Follows [.function parameters es] (inFunction scope result check) := by
  intro c a c' hrun
  obtain ⟨c₂, hcheck, rfl⟩ := inFunction_ok hrun
  have hbody := h _ a c₂ hcheck
  have hintroduced : Event.introducedIn [.function parameters es] = Event.introducedIn es := by
    rw [Event.introducedIn, Event.introduced, Event.introducedIn, List.append_nil]
  refine ⟨hbody.enclosing, hintroduced ▸ hbody.classes, hintroduced ▸ hbody.known, fun p hp => ?_⟩
  obtain ⟨inner, haccepts, hinner⟩ := hbody.accepts (p.enterFunction parameters)
    ⟨hscope, hp.enclosing, fun _ => rfl, hp.imported, hp.modules, hp.classes⟩
  exact ⟨p.leave inner, (Allows.function haccepts).accepts, hp.declared,
    fun opened hopened => hp.enclosing opened (hbody.enclosing ▸ hopened), hp.inFunction,
    hinner.imported, hinner.modules, hinner.classes⟩

theorem eq_or_mem_of_mem_insert {classes : Std.TreeMap String Ty} {name other : String} {type : Ty}
    (h : other ∈ classes.insert name type) : other = name ∨ other ∈ classes :=
  (Std.TreeMap.mem_insert.mp h).imp_left fun heq => (Std.LawfulEqCmp.eq_of_compare heq).symm

/-- A class is known in its own body, and the rest of the body knows what its head does. -/
theorem follows_checkClass {reread : Expr → Check Ty} (hs : ∀ e, Steady [] (reread e))
    {body : List Stmt} (h : Follows (Stmt.outlineOf body) (checkStmts reread body)) (name : String)
    (bodySpan span : Span) :
    Follows (Stmt.outline (.classDecl name (.mk body bodySpan) span))
      (checkStmt reread (.classDecl name (.mk body bodySpan) span)) := by
  intro c u c' hrun
  obtain ⟨c₀, c₂, hopen, hcheck, hregister⟩ :=
    @checkClass_ok reread ⟨name, .mk body bodySpan⟩ _ _ _ hrun
  obtain ⟨annotated, rfl⟩ := enterClass_eq hopen
  have hbody := h _ u c₂ hcheck
  cases hregister
  have hgrows := (steady_checkStmts hs body).of_ok hcheck
  have hknown : name ∈ c₂.classes := hgrows.classes name Std.TreeMap.mem_insert_self
  have hintroduced : Event.introducedIn
      [.introduces name, .members (Stmt.foreseen body) (Stmt.outlineOf body)] =
      name :: Event.introducedIn (Stmt.outlineOf body) := by
    simp [Event.introducedIn, Event.introduced]
  rw [Stmt.outline]
  refine ⟨rfl, fun other hother => ?_, fun other hother => ?_, fun p hp => ?_⟩
  · -- The class is entered twice, without its members and with them, and in the end registered.
    rw [hintroduced, List.mem_cons]
    rcases eq_or_mem_of_mem_insert hother with heq | hmem
    · exact .inr (.inl (.inl heq))
    rcases hbody.classes other hmem with hmem | hnew | hahead
    · rcases eq_or_mem_of_mem_insert hmem with heq | hmem
      · exact .inr (.inl (.inl heq))
      rcases eq_or_mem_of_mem_insert hmem with heq | hmem
      · exact .inr (.inl (.inl heq))
      · exact .inl hmem
    · exact .inr (.inl (.inr hnew))
    · exact .inr (.inl (.inr (Stmt.foreseen_subset body hahead)))
  · rw [hintroduced, List.mem_cons] at hother
    rcases hother with hmem | rfl | hnew
    · have hentered : other ∈ (c.classes.insert name (.struct name [])).insert name
          (.struct name annotated) :=
        Std.TreeMap.mem_insert.mpr (.inr (Std.TreeMap.mem_insert.mpr (.inr hmem)))
      exact Std.TreeMap.mem_insert.mpr (.inr (hbody.known other (.inl hentered)))
    · exact Std.TreeMap.mem_insert_self
    · exact Std.TreeMap.mem_insert.mpr (.inr (hbody.known other (.inr hnew)))
  · let head : Place := { p with classes := name :: p.classes }
    have hhead : Allows p (.introduces name) head := .introduces p name
    have hmembers (other : String) :
        other ∈ (c.classes.insert name (.struct name [])).insert name (.struct name annotated) →
          other ∈ name :: p.classes := by
      intro hother
      rcases eq_or_mem_of_mem_insert hother with heq | hmem
      · exact List.mem_cons.mpr (.inl heq)
      rcases eq_or_mem_of_mem_insert hmem with heq | hmem
      · exact List.mem_cons.mpr (.inl heq)
      · exact List.mem_cons_of_mem _ (hp.classes other hmem)
    obtain ⟨inner, haccepts, hinner⟩ := hbody.accepts (head.enterClass (Stmt.foreseen body))
      ⟨fun _ => rfl, by rintro _ ⟨⟩; exact ⟨rfl, fun _ h => h⟩, hp.inFunction, hp.imported,
        hp.modules, hmembers⟩
    obtain ⟨-, -, hfunction, -⟩ := haccepts.frame
    refine ⟨head.leave inner, .cons hhead (Allows.members haccepts).accepts, hp.declared,
      hp.enclosing, fun hreturns => ?_, hinner.imported, hinner.modules, fun other hother => ?_⟩
    · have hinside := hinner.inFunction hreturns
      rwa [hfunction] at hinside
    · rcases eq_or_mem_of_mem_insert hother with rfl | hmem
      · exact hinner.classes other hknown
      · exact hinner.classes other hmem

end Bodies

section Tree

variable {n : Nat}

/-- A member of `this` is checked by its declaration. Only a value can change the context. -/
theorem checkOwnMember_ok {reread : Expr → Check Ty} {property : String} {object span : Span}
    {c c' : Context} {t : Ty} (h : checkOwnMember reread property object span c = .ok t c') :
    ∃ opened, c.enclosing = some opened ∧
      (c = c' ∨ ∃ value, Event.introducedIn value.outline ⊆ Stmt.foreseen opened.body.body ∧
        reread value c = .ok t c') := by
  rw [checkOwnMember, get_bind_run] at h
  cases hopened : c.enclosing with
  | none => simp [hopened] at h
  | some opened =>
    refine ⟨opened, rfl, ?_⟩
    simp only [hopened] at h
    cases hfind : opened.body.body.find? (memberName? · == some property) with
    | none => simp [hfind] at h
    | some s =>
      cases s with
      | varDecl name constant type value valueSpan =>
        cases type with
        | some type =>
          simp only [hfind] at h
          exact .inl ((still_resolve _ _).of_ok h)
        | none =>
          cases value with
          | none => simp [hfind] at h
          | some value =>
            simp only [hfind] at h
            exact .inr ⟨value, Stmt.subset_foreseen (List.mem_of_find?_eq_some hfind), h⟩
      | fnDecl name parameters result body span =>
        simp only [hfind] at h
        obtain ⟨s, c₁, hs, h⟩ := bind_run_eq_ok_iff.mp h
        cases h
        exact .inl ((still_signature _ _ _).of_ok hs)
      | _ => simp [hfind] at h

/-- The value of a field is checked again where the field is mentioned. It may declare classes
there, which are among those that the class foresees. -/
theorem follows_checkOwnMember (hr : ∀ e, Follows e.outline (checkNested n e)) (property : String)
    (object span : Span) :
    Follows [.self, .mentions] (checkOwnMember (checkNested n) property object span) := by
  intro c t c' h
  obtain ⟨opened, hopened, hrun⟩ := checkOwnMember_ok h
  have hforeseen : c.foreseen = Stmt.foreseen opened.body.body := by
    rw [Context.foreseen, hopened]
  have hevents (p : Place) (hp : c.Reflects p) : Accepts p [.self, .mentions]
      { p with classes := p.foreseen ++ p.classes } :=
    .cons (.self (hp.enclosing opened hopened).1) (Allows.mentions p).accepts
  have hintroduced (name : String) (hname : name ∈ c.classes ∨
      name ∈ Event.introducedIn [.self, .mentions]) : name ∈ c.classes :=
    hname.resolve_right List.not_mem_nil
  rcases hrun with rfl | ⟨value, hsubset, hrun⟩
  · refine ⟨rfl, fun _ hname => .inl hname, hintroduced, fun p hp => ⟨_, hevents p hp, ?_⟩⟩
    exact { hp with classes := fun name hname => List.mem_append_right _ (hp.classes name hname) }
  · have hvalue := hr value c t c' hrun
    have hgrows := (steady_checkNested n value).of_ok hrun
    have hclasses (name : String) (hname : name ∈ c'.classes) :
        name ∈ c.classes ∨ name ∈ c.foreseen := by
      rcases hvalue.classes name hname with hknown | hnew | hahead
      · exact .inl hknown
      · exact .inr (hforeseen ▸ hsubset hnew)
      · exact .inr hahead
    refine ⟨hgrows.enclosing, fun name hname => ?_, fun name hname => ?_,
      fun p hp => ⟨_, hevents p hp, ?_⟩⟩
    · exact (hclasses name hname).imp_right .inr
    · exact hgrows.classes name (hintroduced name hname)
    · obtain ⟨p₁, haccepts, hp₁⟩ := hvalue.accepts p hp
      obtain ⟨-, -, hfunction, -⟩ := haccepts.frame
      refine ⟨fun name => ?_, fun opened hopened => ?_, fun hreturns => ?_, fun name hname => ?_,
        hp₁.modules, fun name hname => ?_⟩
      · rw [hgrows.others name List.not_mem_nil]
        exact hp.declared name
      · exact hp.enclosing opened (hgrows.enclosing ▸ hopened)
      · have hinside := hp₁.inFunction hreturns
        rwa [hfunction] at hinside
      · exact hp₁.imported name (haccepts.imported_subset hname)
      · rcases hclasses name hname with hknown | hahead
        · exact List.mem_append_right _ (hp.classes name hknown)
        · rw [hforeseen] at hahead
          exact List.mem_append_left _ ((hp.enclosing opened hopened).2 hahead)

-- One case for each kind of node, as the check has them: its parts follow their own outlines, and
-- steps between them leave the context as it is.
mutual

theorem follows_checkExpr (hr : ∀ e, Follows e.outline (checkNested n e)) (e : Expr) :
    Follows e.outline (checkExpr (checkNested n) e) := by
  match e with
  | .int .. | .float .. | .string .. | .bool .. =>
    rw [checkExpr]
    exact (still_pure _).follows
  | .symbol name span =>
    rw [checkExpr, Expr.outline]
    split
    · exact follows_this span
    · exact (follows_symbol name span.start).then_still fun _ => still_pure _
  | .binary operator left right span =>
    rw [checkExpr, Expr.outline]
    apply (follows_checkExpr hr left).bind
    intro first
    apply (follows_checkExpr hr right).then_still
    intro second
    exact (still_expectSame _ _ _ _).bind fun _ => still_pure _
  | .unary operator operand span =>
    rw [checkExpr, Expr.outline]
    apply (follows_checkExpr hr operand).then_still
    intro type
    exact (still_checkUnary _ _ _).bind fun _ => still_pure _
  | .assign operator target value span =>
    rw [checkExpr, Expr.outline]
    apply (follows_checkTarget target).bind
    intro _
    apply (follows_checkExpr hr target).bind
    intro expected
    apply (follows_checkExpr hr value).then_still
    intro received
    exact (still_expectSame _ _ _ _).bind fun _ => still_pure _
  | .member object property span =>
    rw [Expr.outline]
    by_cases hthis : ∃ s, object = .symbol "this" s
    · obtain ⟨s, rfl⟩ := hthis
      rw [checkExpr, Expr.outline, Expr.memberOutline, if_pos rfl]
      exact follows_checkOwnMember hr property s span
    -- The member of any other object is looked up in a type, so it is not in the outline.
    · have hplain (s : Span) (hs : object = .symbol "this" s) : False := hthis ⟨s, hs⟩
      have houtline : object.memberOutline = [] := by
        rw [Expr.memberOutline.eq_def]
        split
        · exact (hplain _ rfl).elim
        · rfl
      rw [checkExpr, houtline, List.append_nil]
      · exact (follows_checkExpr hr object).then_still fun _ => still_checkMember _ _ _ _
      · exact hplain
  | .index object position span =>
    rw [checkExpr, Expr.outline]
    apply (follows_checkExpr hr object).bind
    intro type
    split
    · apply (follows_checkExpr hr position).then_still
      intro type
      exact (still_expectSame _ _ _ _).bind fun _ => still_pure _
    · exact follows_throw _ _
  | .call callee arguments span =>
    rw [checkExpr, Expr.outline]
    apply (follows_checkExpr hr callee).bind
    intro type
    split
    -- Arguments are checked as far as there are parameters. Once they are counted, these are all.
    · apply (still_checkCount _ _ _).follows.bind_ok
      intro c _ c' hcount
      apply (follows_checkArguments hr _ arguments (length_le_of_checkCount hcount)).then_still
      exact fun _ => still_pure _
    · exact follows_throw _ _
  | .range lower upper span =>
    rw [checkExpr, Expr.outline]
    apply (follows_checkExpr hr lower).bind
    intro first
    apply (still_expectSame _ _ _ _).then
    intro _
    apply (follows_checkExpr hr upper).then_still
    intro second
    exact (still_expectSame _ _ _ _).bind fun _ => still_pure _
  | .function parameters result body span =>
    rw [checkExpr, Expr.outline]
    -- The body begins with the parameters, which are known once the signature has been read.
    apply (follows_signature parameters result span.start).bind_ok
    intro c s c' hs
    exact ((follows_checkStmts hr body).inFunction _ (scope_signature hs)).then_still fun _ =>
      still_pure _
  | .array [] span =>
    rw [checkExpr]
    exact follows_throw _ _
  | .array (first :: rest) span =>
    rw [checkExpr, Expr.outline, Expr.outlineOf]
    apply (follows_checkExpr hr first).bind
    intro item
    exact (follows_checkItems hr item rest).then_still fun _ => still_pure _
  | .arrayOf item items span =>
    rw [checkExpr, Expr.outline]
    apply (follows_resolve span.start item).bind
    intro item
    exact (follows_checkItems hr item items).then_still fun _ => still_pure _
  | .structOf name fields span =>
    rw [checkExpr, Expr.outline]
    apply (follows_classType name span.start).bind
    intro type
    exact (follows_checkFields hr name type fields).then_still fun _ => still_pure _
  | .construct name arguments span =>
    rw [checkExpr, Expr.outline]
    apply (follows_classType name span.start).bind
    intro type
    exact (follows_checkExprs hr arguments).then_still fun _ => still_pure _

theorem follows_checkExpr? (hr : ∀ e, Follows e.outline (checkNested n e)) (e : Option Expr) :
    Follows (Expr.outline? e) (checkExpr? (checkNested n) e) := by
  match e with
  | none =>
    rw [checkExpr?]
    exact (still_pure _).follows
  | some e =>
    rw [checkExpr?]
    exact (follows_checkExpr hr e).then_still fun _ => still_pure _

theorem follows_checkCondition? (hr : ∀ e, Follows e.outline (checkNested n e))
    (e : Option Expr) : Follows (Expr.outline? e) (checkCondition? (checkNested n) e) := by
  match e with
  | none =>
    rw [checkCondition?]
    exact (still_pure _).follows
  | some e =>
    rw [checkCondition?]
    exact (follows_checkExpr hr e).then_still fun _ => still_expectSame _ _ _ _

theorem follows_checkExprs (hr : ∀ e, Follows e.outline (checkNested n e)) (es : List Expr) :
    Follows (Expr.outlineOf es) (checkExprs (checkNested n) es) := by
  match es with
  | [] =>
    rw [checkExprs]
    exact (still_pure _).follows
  | e :: es =>
    rw [checkExprs, Expr.outlineOf]
    exact (follows_checkExpr hr e).bind fun _ => follows_checkExprs hr es

theorem follows_checkItems (hr : ∀ e, Follows e.outline (checkNested n e)) (item : Ty)
    (es : List Expr) : Follows (Expr.outlineOf es) (checkItems (checkNested n) item es) := by
  match es with
  | [] =>
    rw [checkItems]
    exact (still_pure _).follows
  | e :: es =>
    rw [checkItems, Expr.outlineOf]
    apply (follows_checkExpr hr e).bind
    intro received
    exact (still_expectSame _ _ _ _).then fun _ => follows_checkItems hr item es

theorem follows_checkArguments (hr : ∀ e, Follows e.outline (checkNested n e))
    (parameters : List Ty) (es : List Expr) (hlength : es.length ≤ parameters.length) :
    Follows (Expr.outlineOf es) (checkArguments (checkNested n) parameters es) := by
  match parameters, es with
  | expected :: parameters, e :: es =>
    rw [checkArguments, Expr.outlineOf]
    apply (follows_checkExpr hr e).bind
    intro received
    apply (still_expectSame _ _ _ _).then
    exact fun _ => follows_checkArguments hr parameters es (Nat.le_of_succ_le_succ hlength)
  | [], [] | _ :: _, [] =>
    rw [checkArguments]
    · exact (still_pure _).follows
    · simp

theorem follows_checkFields (hr : ∀ e, Follows e.outline (checkNested n e)) (name : String)
    (type : Ty) (fields : List (String × Expr)) :
    Follows (Expr.outlineOfFields fields) (checkFields (checkNested n) name type fields) := by
  match fields with
  | [] =>
    rw [checkFields]
    exact (still_pure _).follows
  | (field, e) :: fields =>
    rw [checkFields, Expr.outlineOfFields]
    split
    · exact follows_throw _ _
    · apply (follows_checkExpr hr e).bind
      intro received
      exact (still_expectSame _ _ _ _).then fun _ => follows_checkFields hr name type fields

theorem follows_checkStmt (hr : ∀ e, Follows e.outline (checkNested n e)) (s : Stmt) :
    Follows s.outline (checkStmt (checkNested n) s) := by
  match s with
  | .block (.mk body _) =>
    rw [checkStmt, Stmt.outline]
    exact follows_checkStmts hr body
  | .expression e _ =>
    rw [checkStmt, Stmt.outline]
    exact (follows_checkExpr hr e).then_still fun _ => still_pure _
  | .varDecl name constant annotation value span =>
    rw [checkStmt, Stmt.outline]
    apply (follows_resolve? span.start annotation).bind
    intro annotated
    apply (follows_checkExpr? hr value).bind
    intro received
    exact (still_variableType _ _ _ _).then fun type => follows_declare name type constant
  | .fnDecl name parameters result (.mk body _) span =>
    rw [checkStmt, Stmt.outline]
    apply (follows_signature parameters result span.start).bind_ok
    intro c s c' hs
    apply (follows_declare name s.type true).bind
    intro _
    exact (follows_checkStmts hr body).inFunction _ (scope_signature hs)
  | .classDecl name (.mk body bodySpan) span =>
    exact follows_checkClass (steady_checkNested n) (follows_checkStmts hr body) name bodySpan span
  | .branch condition (.mk body _) otherwise _ =>
    rw [checkStmt, Stmt.outline]
    apply (follows_checkExpr hr condition).bind
    intro type
    apply (still_expectSame _ _ _ _).then
    intro _
    exact (follows_checkStmts hr body).bind fun _ => follows_checkStmt? hr otherwise
  | .loop init condition post body _ =>
    rw [checkStmt, Stmt.outline]
    apply (follows_checkStmt? hr init).bind
    intro _
    apply (follows_checkCondition? hr condition).bind
    intro _
    exact (follows_checkExpr? hr post).bind fun _ => follows_checkStmt hr body
  | .ret value span =>
    rw [checkStmt, Stmt.outline]
    apply (follows_resultType span.start).bind
    intro expected
    exact (follows_checkExpr? hr value).then_still fun _ => still_expectSame _ _ _ _
  | .importDecl name source span =>
    rw [checkStmt, Stmt.outline]
    exact follows_checkImport name span.start

theorem follows_checkStmt? (hr : ∀ e, Follows e.outline (checkNested n e)) (s : Option Stmt) :
    Follows (Stmt.outline? s) (checkStmt? (checkNested n) s) := by
  match s with
  | none =>
    rw [checkStmt?]
    exact (still_pure _).follows
  | some s =>
    rw [checkStmt?]
    exact follows_checkStmt hr s

theorem follows_checkStmts (hr : ∀ e, Follows e.outline (checkNested n e)) (ss : List Stmt) :
    Follows (Stmt.outlineOf ss) (checkStmts (checkNested n) ss) := by
  match ss with
  | [] =>
    rw [checkStmts]
    exact (still_pure _).follows
  | s :: ss =>
    rw [checkStmts, Stmt.outlineOf]
    exact (follows_checkStmt hr s).bind fun _ => follows_checkStmts hr ss

end

end Tree

theorem follows_checkNested (n : Nat) (e : Expr) : Follows e.outline (checkNested n e) := by
  induction n generalizing e with
  | zero => exact follows_throw _ _
  | succ n ih => exact follows_checkExpr ih e

end Typing

/-- A program that is accepted is well scoped. Every name is declared before it is used, in the body
that uses it; `this` stands in classes and `return` in functions; constants are not assigned to;
modules are known and imported once; and classes are declared before they are named, or else in the
value of a field of a class around, of which a member of `this` has been mentioned before. -/
theorem wellScoped_of_typecheck {program : Block} {c : Typing.Context}
    (h : typecheck program = .ok () c) : program.WellScoped := by
  have hpasses := Typing.follows_checkStmts (Typing.follows_checkNested _) program.body _ () c h
  obtain ⟨p, haccepts, -⟩ := hpasses.accepts .start Typing.Context.reflects_fresh
  exact haccepts.wellScoped

/-- `class C { function m() { this.f; let d = new D(); } let f = function() { class D {} }; }` -/
def ahead : Block :=
  .mk [.classDecl "C" (.mk
    [.fnDecl "m" [] none (.mk
      [.expression (.member (.symbol "this" default) "f" default) default,
        .varDecl "d" false none (some (.construct "D" [] default)) default] default) default,
      .varDecl "f" false none (some (.function [] none
        [.classDecl "D" (.mk [] default) default] default)) default]
    default) default] default

/-- The program is accepted, though a class is named before its declaration. -/
theorem wellScoped_of_typecheck_ahead :
    ∃ c, typecheck ahead = .ok () c ∧ ahead.WellScoped ∧
      ahead.marks = [.introduces "C", .foresees ["D"], .names "D", .introduces "D"] := by
  have haccepted : (match typecheck ahead with
      | .ok .. => true
      | .error .. => false) = true := by
    decide +kernel
  cases h : typecheck ahead with
  | ok u c => exact ⟨c, rfl, wellScoped_of_typecheck h, rfl⟩
  | error d c =>
    rw [h] at haccepted
    cases haccepted

end Scriptlet
