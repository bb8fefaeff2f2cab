import Scriptlet.Proofs.Typing.Annotation
import Scriptlet.Proofs.Typing.Visit

namespace Scriptlet.Typing

/-- The expression has the type, with fields checked again down to the depth. -/
def HasType (depth : Nat) (c : Context) (e : Expr) (t : Ty) : Prop :=
  ∃ c', checkNested depth e c = .ok t c'

/-- The annotation stands for the type. -/
def Stands (c : Context) (written t : Ty) : Prop :=
  ∃ position, resolve position written c = .ok t c

/-- Where the type of a member is taken from, it is the given one. An annotation is looked at when
the class is complete, a value where the member is mentioned. -/
inductive Origin.Agrees (depth : Nat) (mentioned complete : Context) (type : Ty) : Origin → Prop
  | typed {written t : Ty} (h : Stands complete written t) (ht : (t == type) = true) :
      Agrees depth mentioned complete type (.typed written)
  | value {e : Expr} {t : Ty} (h : HasType depth mentioned e t) (ht : (t == type) = true) :
      Agrees depth mentioned complete type (.value e)

theorem HasType.unique {depth : Nat} {c : Context} {e : Expr} {t u : Ty}
    (h : HasType depth c e t) (h' : HasType depth c e u) : t = u := by
  obtain ⟨c₁, h⟩ := h
  obtain ⟨c₂, h'⟩ := h'
  rw [h] at h'
  cases h'
  rfl

theorem Stands.known {c d : Context} {written t : Ty} (h : Stands c written t)
    (hknown : c.KnownIn d) (position : Position) :
    ∃ u, resolve position written d = .ok u d ∧ t.same u = true := by
  obtain ⟨place, hplace⟩ := h
  exact resolve_known hknown written hplace position

theorem Stands.mono {c d : Context} {written t : Ty} (h : Stands c written t)
    (hknown : c.KnownIn d) : ∃ u, Stands d written u ∧ t.same u = true := by
  obtain ⟨place, hplace⟩ := h
  obtain ⟨u, hu, hsame⟩ := resolve_known hknown written hplace place
  exact ⟨u, ⟨place, hu⟩, hsame⟩

variable {reread : Expr → Check Ty}

/-- A declaration that is accepted gives its member's type an origin, and an annotation there stands
for a type. -/
theorem origin_of_checkStmt {s : Stmt} {f : String} {c c' : Context}
    (hf : memberName? s = some f) (h : checkStmt reread s c = .ok () c') :
    ∃ origin, origin? s = some origin ∧
      ∀ written, origin = .typed written → ∃ t, Stands c written t := by
  match s with
  | .varDecl name constant (some written) value span =>
    refine ⟨_, rfl, ?_⟩
    intro _ heq
    cases heq
    rw [checkStmt] at h
    obtain ⟨annotated, c₁, hannotated, h⟩ := bind_run_eq_ok_iff.mp h
    obtain ⟨t, ht, -⟩ := (still_resolve _ _).bind_eq_ok hannotated
    exact ⟨t, span.start, ht⟩
  | .varDecl name constant none (some e) span =>
    refine ⟨_, rfl, ?_⟩
    intro _ heq
    cases heq
  | .varDecl name constant none none span =>
    rw [checkStmt] at h
    cases h
  | .fnDecl name parameters result (.mk body _) span =>
    refine ⟨_, rfl, ?_⟩
    intro _ heq
    cases heq
    rw [checkStmt] at h
    obtain ⟨s, hs, -⟩ := (still_signature _ _ _).bind_eq_ok h
    refine ⟨s.type, span.start, ?_⟩
    rw [← signature_type, bind_run_ok hs]
    rfl

/-- The type that a member has from there, with its declaration at the position. -/
def Origin.check (reread : Expr → Check Ty) (position : Position) : Origin → Check Ty
  | .typed written => resolve position written
  | .value e => reread e

/-- A member of `this` has the type of its annotation, or of its value where it is mentioned. -/
theorem checkOwnMember_eq (reread : Expr → Check Ty) {opened : OpenClass} {f : String}
    {d : Context} {origin : Origin} (hopened : d.enclosing = some opened)
    (horigin : originOf? f opened.body.body = some origin) (place span : Span) :
    ∃ position, checkOwnMember reread f place span d = origin.check reread position d := by
  rw [originOf?, Option.bind_eq_some_iff] at horigin
  obtain ⟨s, hs, horigin⟩ := horigin
  rw [checkOwnMember, get_bind_run, hopened]
  dsimp only
  rw [hs]
  cases s with
  | varDecl _ _ annotation value declared =>
    refine ⟨declared.start, ?_⟩
    cases annotation with
    | some type =>
      cases horigin
      rfl
    | none =>
      cases value with
      | some e =>
        cases horigin
        rfl
      | none => cases horigin
  | block _ | expression _ _ | classDecl _ _ _ | branch _ _ _ _ | loop _ _ _ _ _ | ret _ _
  | importDecl _ _ _ => cases horigin
  | fnDecl _ parameters result _ declared =>
    cases horigin
    refine ⟨declared.start, ?_⟩
    rw [Origin.check, ← signature_type]

/-- When the class is complete, values of it have the members with the types in the scope. -/
theorem checkMember_registered {opened : OpenClass} {f : String} {s : Symbol} {c c' : Context}
    {scope : Scope} (hf : f ∈ opened.body.body.filterMap memberName?) (hs : scope[f]? = some s)
    (h : registerClass opened.name (members opened.body.body scope) c = .ok () c')
    (known : List (String × Ty)) (start : Position) (span : Span) :
    checkMember (.struct opened.name known) f start span c' = .ok s.type c' := by
  cases h
  have hclass : (c.classes.insert opened.name
      (.struct opened.name (members opened.body.body scope)))[opened.name]? =
      some (.struct opened.name (members opened.body.body scope)) :=
    Std.TreeMap.getElem?_insert_self
  rw [checkMember, get_bind_run]
  dsimp only
  rw [hclass, Option.getD_some, member?_members hf hs]
  rfl

/-- A body whose check has come past a declaration of a member has an origin for the member's type,
and an annotation there stands for a type. -/
theorem origin_of_body {n : Nat} {f : String} {pre : List Stmt} {declaration : Stmt}
    {c c' : Context} (post : List Stmt) (hnamed : c.Named) (hf : memberName? declaration = some f)
    (h : checkStmts (checkNested n) (pre ++ [declaration]) c = .ok () c') :
    ∃ origin, originOf? f (pre ++ declaration :: post) = some origin ∧
      ∀ written, origin = .typed written → ∃ t, Stands c' written t := by
  have hsome : ((pre ++ [declaration]).find? (memberName? · == some f)).isSome := by
    rw [List.find?_isSome]
    exact ⟨declaration, List.mem_append_right _ (List.mem_singleton_self _), by simp [hf]⟩
  obtain ⟨first, hfirst⟩ := Option.isSome_iff_exists.mp hsome
  have hfind : (pre ++ declaration :: post).find? (memberName? · == some f) = some first := by
    rw [List.append_cons, List.find?_append, hfirst, Option.some_or]
  -- The first declaration was checked on the way, in a context that `c'` knows the classes of.
  obtain ⟨hname, earlier, later, hsplit, -⟩ := List.find?_eq_some_iff_append.mp hfirst
  rw [hsplit, checkStmts_append] at h
  obtain ⟨_, before, hearlier, h⟩ := bind_run_eq_ok_iff.mp h
  rw [checkStmts] at h
  obtain ⟨_, after, hdeclaration, hlater⟩ := bind_run_eq_ok_iff.mp h
  have hn := steady_checkNested n
  have hleads : c.Leads before := ((steady_checkStmts hn earlier).of_ok hearlier).toLeads
  have hleads' : before.Leads c' :=
    ((steady_checkStmt hn first).of_ok hdeclaration).toLeads.trans
      ((steady_checkStmts hn later).of_ok hlater).toLeads
  obtain ⟨origin, horigin, hstands⟩ := origin_of_checkStmt (beq_iff_eq.mp hname) hdeclaration
  refine ⟨origin, ?_, ?_⟩
  · rw [originOf?, hfind, Option.bind_some, horigin]
  · intro written heq
    obtain ⟨t, ht⟩ := hstands written heq
    obtain ⟨u, hu, -⟩ := ht.mono (hleads'.knownIn (hleads.named hnamed))
    exact ⟨u, hu⟩

/-- Mentioning a member of `this`. -/
def ownMember (f : String) (place span : Span) : Expr := .member (.symbol "this" place) f span

/-- A member with an annotation has the type the annotation stands for, wherever it is mentioned. -/
theorem hasType_ownMember_typed {m : Nat} {opened : OpenClass} {f : String} {c d : Context}
    {written t : Ty} (hopened : d.enclosing = some opened)
    (horigin : originOf? f opened.body.body = some (.typed written))
    (hstands : Stands c written t) (hknown : c.KnownIn d) (place span : Span) :
    ∃ u, HasType (m + 1) d (ownMember f place span) u ∧ t.same u = true := by
  obtain ⟨position, hrun⟩ :=
    checkOwnMember_eq (checkNested m) hopened horigin place span
  obtain ⟨u, hu, hsame⟩ := hstands.known hknown position
  refine ⟨u, ⟨d, ?_⟩, hsame⟩
  rw [checkNested, ownMember, checkExpr, hrun, Origin.check]
  exact hu

/-- One without has the type that its value has where it is mentioned. -/
theorem hasType_ownMember_value {m : Nat} {opened : OpenClass} {f : String} {d : Context}
    {e : Expr} {t : Ty} (hopened : d.enclosing = some opened)
    (horigin : originOf? f opened.body.body = some (.value e)) (place span : Span) :
    HasType (m + 1) d (ownMember f place span) t ↔ HasType m d e t := by
  obtain ⟨position, hrun⟩ :=
    checkOwnMember_eq (checkNested m) hopened horigin place span
  rw [HasType, HasType, checkNested, ownMember, checkExpr, hrun, Origin.check]

section Origin

variable {m : Nat} {opened : OpenClass} {f : String} {c d : Context} {origin : Origin}

/-- Mentioning a member of `this` fails only where its value has no type. -/
theorem ownMember_hasType_iff (hopened : d.enclosing = some opened)
    (horigin : originOf? f opened.body.body = some origin)
    (hstands : ∀ written, origin = .typed written → ∃ t, Stands c written t)
    (hd : c.KnownIn d) (place span : Span) :
    (∃ t, HasType (m + 1) d (ownMember f place span) t) ↔
      ∀ e, origin = .value e → ∃ t, HasType m d e t := by
  constructor
  · rintro ⟨t, ht⟩ e rfl
    exact ⟨t, (hasType_ownMember_value hopened horigin place span).mp ht⟩
  · intro hvalue
    cases origin with
    | typed written =>
      obtain ⟨t, ht⟩ := hstands written rfl
      obtain ⟨u, hu, -⟩ := hasType_ownMember_typed hopened horigin ht hd place span
      exact ⟨u, hu⟩
    | value e =>
      obtain ⟨t, ht⟩ := hvalue e rfl
      exact ⟨t, (hasType_ownMember_value hopened horigin place span).mpr ht⟩

/-- A member of `this` agrees with a type exactly if its origin does. -/
theorem ownMember_agrees_iff {c' : Context} {type : Ty} (hopened : d.enclosing = some opened)
    (horigin : originOf? f opened.body.body = some origin)
    (hstands : ∀ written, origin = .typed written → ∃ t, Stands c written t)
    (hd : c.KnownIn d) (hc' : c.KnownIn c') (place span : Span) :
    (∃ t, HasType (m + 1) d (ownMember f place span) t ∧ (t == type) = true) ↔
      origin.Agrees m d c' type := by
  cases origin with
  | typed written =>
    -- The annotation stands for the same type wherever its names are known.
    obtain ⟨t, ht⟩ := hstands written rfl
    obtain ⟨u, hu, hsame⟩ := hasType_ownMember_typed hopened horigin ht hd place span
    constructor
    · rintro ⟨u', hu', htype⟩
      rw [hu'.unique hu, ← Ty.beq_congr_left hsame] at htype
      obtain ⟨v, hv, hsame'⟩ := ht.mono hc'
      rw [Ty.beq_congr_left hsame'] at htype
      exact .typed hv htype
    · rintro (⟨⟨position, hv⟩, htype⟩ | _)
      obtain ⟨v, hv', hsame'⟩ := ht.known hc' position
      rw [hv] at hv'
      cases hv'
      refine ⟨u, hu, ?_⟩
      rw [← Ty.beq_congr_left hsame, Ty.beq_congr_left hsame']
      exact htype
  | value e =>
    constructor
    · rintro ⟨t, ht, htype⟩
      rw [hasType_ownMember_value hopened horigin] at ht
      exact .value ht htype
    · rintro (_ | ⟨ht, htype⟩)
      rw [← hasType_ownMember_value hopened horigin place span] at ht
      exact ⟨_, ht, htype⟩

end Origin

/-- A declaration puts the name in scope, with the type that the annotation stands for, or that the
value has. -/
theorem declared_of_checkStmt {n : Nat} {f : String} {constant : Bool} {written : Option Ty}
    {value : Option Expr} {span : Span} {c c' : Context}
    (h : checkStmt (checkNested n) (.varDecl f constant written value span) c = .ok () c') :
    ∃ s, c'.scope[f]? = some s ∧ (∀ type, written = some type → Stands c type s.type) ∧
      ∀ e, written = none → value = some e → HasType (n + 1) c e s.type := by
  rw [checkStmt] at h
  obtain ⟨annotated, c₁, hannotated, h⟩ := bind_run_eq_ok_iff.mp h
  obtain ⟨received, c₂, hreceived, h⟩ := bind_run_eq_ok_iff.mp h
  obtain ⟨type, c₃, htype, h⟩ := bind_run_eq_ok_iff.mp h
  cases h
  refine ⟨⟨type, constant⟩, Std.TreeMap.getElem?_insert_self, ?_, ?_⟩
  · rintro written rfl
    obtain ⟨t, ht, hpure⟩ := (still_resolve _ _).bind_eq_ok hannotated
    cases hpure
    have heq : type = t := by
      cases received with
      | none =>
        cases htype
        rfl
      | some received =>
        obtain ⟨_, c₅, -, hpure⟩ := bind_run_eq_ok_iff.mp htype
        cases hpure
        rfl
    rw [heq]
    exact ⟨span.start, ht⟩
  · rintro e rfl rfl
    cases hannotated
    rw [checkExpr?] at hreceived
    obtain ⟨t, c₄, ht, hpure⟩ := bind_run_eq_ok_iff.mp hreceived
    cases hpure
    cases htype
    exact ⟨_, ht⟩

/-- The rest of a class's body keeps what is known at a field, and the complete class has the type
in the scope for it. -/
theorem complete_of_checkClass {n : Nat} {opened : OpenClass} {f : String} {declaration : Stmt}
    {pre post : List Stmt} {classSpan : Span} {s : Symbol} {c c₀ c₁ c' : Context}
    (hbody : opened.body.body = pre ++ declaration :: post)
    (hf : memberName? declaration = some f) (hopen : enterClass opened c = .ok () c₀)
    (hfield : checkStmts (checkNested n) (pre ++ [declaration]) c₀ = .ok () c₁)
    (hnamed : c₁.Named) (hs : c₁.scope[f]? = some s)
    (h : checkStmt (checkNested n) (.classDecl opened.name opened.body classSpan) c = .ok () c') :
    c₁.KnownIn c' ∧ ∃ last, (f ∉ Stmt.declaredOf post → last = s) ∧
      ∀ known start span,
        checkMember (.struct opened.name known) f start span c' = .ok last.type c' := by
  obtain ⟨_, c₂, hopen', hrest, hregister⟩ := checkClass_ok h
  rw [hopen] at hopen'
  cases hopen'
  rw [hbody, List.append_cons, checkStmts_append, bind_run_ok hfield] at hrest
  have hgrows := (steady_checkStmts (steady_checkNested n) post).of_ok hrest
  -- On leaving the class only the scope and the class around change, not what is registered.
  have hleave : c₂.KnownIn { c₂ with scope := c.scope, enclosing := c.enclosing } :=
    ⟨fun _ hname => hname, hgrows.named hnamed, hgrows.named hnamed⟩
  have hcomplete := ((steady_registerClass _ _).of_ok hregister).toLeads
  refine ⟨?_, ?_⟩
  · apply (hgrows.toLeads.knownIn hnamed).trans
    exact hleave.trans (hcomplete.knownIn (hgrows.named hnamed))
  -- What is declared stays declared. The last declaration of the name has the say in the type.
  · have hmem : f ∈ c₁.scope := by
      rw [Std.TreeMap.mem_iff_isSome_getElem?, hs]
      rfl
    have hmem' := hgrows.scope f hmem
    rw [Std.TreeMap.mem_iff_isSome_getElem?, Option.isSome_iff_exists] at hmem'
    obtain ⟨last, hlast⟩ := hmem'
    refine ⟨last, ?_, ?_⟩
    · intro hpost
      rw [hgrows.others f hpost, hs] at hlast
      exact (Option.some.inj hlast).symm
    · have hf' : f ∈ opened.body.body.filterMap memberName? := by
        rw [hbody, List.mem_filterMap]
        exact ⟨declaration, by simp, hf⟩
      exact checkMember_registered hf' hlast hregister

theorem mem_declaredOf {f : String} {s : Stmt} {ss : List Stmt} (hs : s ∈ ss)
    (hf : f ∈ s.declared) : f ∈ Stmt.declaredOf ss := by
  induction ss with
  | nil => exact absurd hs List.not_mem_nil
  | cons first ss ih =>
    rw [Stmt.declaredOf, List.mem_append]
    cases hs with
    | head => exact .inl hf
    | tail _ hs => exact .inr (ih hs)

theorem declared_of_memberName? {f : String} {s : Stmt} (h : memberName? s = some f) :
    f ∈ s.declared := by
  cases s with
  | varDecl | fnDecl =>
    cases h
    exact List.mem_singleton_self f
  | _ => cases h

/-- The first declaration of a name that is not declared before is the one at hand. -/
theorem originOf?_of_not_declared {f : String} {declaration : Stmt} {pre post : List Stmt}
    (hf : memberName? declaration = some f) (hpre : f ∉ Stmt.declaredOf pre) :
    originOf? f (pre ++ declaration :: post) = origin? declaration := by
  have hnone : pre.find? (memberName? · == some f) = none := by
    rw [List.find?_eq_none]
    intro s hs hname
    exact hpre (mem_declaredOf hs (declared_of_memberName? (beq_iff_eq.mp hname)))
  rw [originOf?, List.find?_append, hnone, Option.none_or, List.find?_cons_of_pos (by simp [hf])]
  rfl

/-- Inside its class, a field is typed by its first declaration. Mentioning it succeeds, unless that
has no annotation and its value cannot be checked where the field is mentioned. When the class is
complete, the type is the one registered for the field exactly if the first declaration agrees with
it. This is so for every field that has an annotation and is declared once; for one that has none,
the registered type is that of its value where it is declared. -/
theorem ownMember_field {n m : Nat} {opened : OpenClass} {f : String} {constant : Bool}
    {written : Option Ty} {value : Option Expr} {span : Span} {pre post : List Stmt}
    {c c₀ c₁ d : Context} (hc : Visited c)
    (hbody : opened.body.body = pre ++ .varDecl f constant written value span :: post)
    (hopen : enterClass opened c = .ok () c₀)
    (hfield : checkStmts (checkNested n) (pre ++ [.varDecl f constant written value span]) c₀ =
      .ok () c₁)
    (hd : Comes c₁ d) (place here : Span) :
    ∃ origin, originOf? f opened.body.body = some origin ∧
      ((∃ t, HasType (m + 1) d (ownMember f place here) t) ↔
        ∀ e, origin = .value e → ∃ t, HasType m d e t) ∧
      ∀ c' classSpan,
        checkStmt (checkNested n) (.classDecl opened.name opened.body classSpan) c = .ok () c' →
        ∃ registered,
          (∀ known start outside, checkMember (.struct opened.name known) f start outside c' =
            .ok registered c') ∧
          ((∃ t, HasType (m + 1) d (ownMember f place here) t ∧ (t == registered) = true) ↔
            origin.Agrees m d c' registered) ∧
          (f ∉ Stmt.declaredOf pre → f ∉ Stmt.declaredOf post →
            (written.isSome → origin.Agrees m d c' registered) ∧
            ∀ e, written = none → value = some e →
              ∃ before, checkStmts (checkNested n) pre c₀ = .ok () before ∧
                HasType (n + 1) before e registered) := by
  have hentered := enterClass_ok hopen
  have hnamed : c₀.Named := hentered.2 hc.named
  have hleads := ((steady_checkStmts (steady_checkNested n) _).of_ok hfield).toLeads
  have hopened : d.enclosing = some opened := by
    rw [hd.leads.enclosing, hleads.enclosing, hentered.1]
  have hknown : c₁.KnownIn d := hd.leads.knownIn (hleads.named hnamed)
  obtain ⟨origin, horigin, hstands⟩ := origin_of_body post hnamed rfl hfield
  rw [← hbody] at horigin
  refine ⟨origin, horigin, ownMember_hasType_iff hopened horigin hstands hknown place here, ?_⟩
  intro c' classSpan hclass
  -- The field's own declaration is the last step of the check up to `c₁`.
  have hfield' := hfield
  rw [checkStmts_append] at hfield'
  obtain ⟨_, before, hbefore, hlast⟩ := bind_run_eq_ok_iff.mp hfield'
  rw [checkStmts] at hlast
  obtain ⟨_, after, hdeclaration, hafter⟩ := bind_run_eq_ok_iff.mp hlast
  have hafter' : after = c₁ := by
    cases hafter
    rfl
  subst hafter'
  obtain ⟨s, hs, htype, hvalue⟩ := declared_of_checkStmt hdeclaration
  have hbeforeNamed : before.Named :=
    ((steady_checkStmts (steady_checkNested n) pre).of_ok hbefore).named hnamed
  have hbeforeKnown : before.KnownIn after :=
    ((steady_checkStmt (steady_checkNested n) _).of_ok hdeclaration).toLeads.knownIn hbeforeNamed
  obtain ⟨hcomplete, last, honce, hmember⟩ :=
    complete_of_checkClass hbody rfl hopen hfield (hleads.named hnamed) hs hclass
  refine ⟨last.type, hmember, ?_, ?_⟩
  · exact ownMember_agrees_iff hopened horigin hstands hknown hcomplete place here
  · intro hpre hpost
    -- What is declared once keeps the type that its declaration gave it.
    rw [honce hpost]
    constructor
    · intro hannotation
      obtain ⟨type, rfl⟩ := Option.isSome_iff_exists.mp hannotation
      rw [hbody, originOf?_of_not_declared rfl hpre] at horigin
      cases horigin
      obtain ⟨u, hu, hsame⟩ := (htype type rfl).mono (hbeforeKnown.trans hcomplete)
      rw [Ty.same_comm] at hsame
      exact .typed hu hsame
    · intro e hnone he
      exact ⟨before, hbefore, hvalue e hnone he⟩

/-- `class C { let a = 1; let b = a; function m(a: string): string { return this.b; } }` -/
def shadowed : OpenClass where
  name := "C"
  body := .mk
    [.varDecl "a" false none (some (.int 1 default)) default,
      .varDecl "b" false none (some (.symbol "a" default)) default,
      .fnDecl "m" [⟨"a", .string⟩] (some .string)
        (.mk [.ret (some (ownMember "b" default default)) default] default) default]
    default

/-- In a method with a parameter of the name that a field's value mentions, the field has another
type than outside. -/
theorem ownMember_field_shadowed :
    ∃ c₀ c₁ d c', enterClass shadowed .fresh = .ok () c₀ ∧
      checkStmts (checkNested 3) (shadowed.body.body.take 2) c₀ = .ok () c₁ ∧ Comes c₁ d ∧
      checkStmt (checkNested 3) (.classDecl "C" shadowed.body default) .fresh = .ok () c' ∧
      (∀ known start outside,
        checkMember (.struct "C" known) "b" start outside c' = .ok .int c') ∧
      HasType 4 d (ownMember "b" default default) .string ∧
      ¬ ∃ t, HasType 4 d (ownMember "b" default default) t ∧ (t == .int) = true := by
  let c₀ := stateAfter (enterClass shadowed .fresh)
  let c₁ := stateAfter (checkStmts (checkNested 3) (shadowed.body.body.take 2) c₀)
  let parameters : Scope := ({} : Scope).insert "a" ⟨.string, false⟩
  let d : Context := { c₁ with scope := parameters, returns := .function (some .string) }
  let c' := stateAfter (checkStmt (checkNested 3) (.classDecl "C" shadowed.body default) .fresh)
  have hbody : shadowed.body.body = shadowed.body.body.take 1 ++
      .varDecl "b" false none (some (.symbol "a" default)) default :: shadowed.body.body.drop 2 :=
    rfl
  have hopen : enterClass shadowed .fresh = .ok () c₀ := rfl
  have hfield : checkStmts (checkNested 3) (shadowed.body.body.take 1 ++
      [.varDecl "b" false none (some (.symbol "a" default)) default]) c₀ = .ok () c₁ := rfl
  have hd : Comes c₁ d := Comes.refl.function parameters (.function (some .string))
  have hstring : HasType 3 d (.symbol "a" default) .string := ⟨d, rfl⟩
  obtain ⟨origin, horigin, -, hagrees⟩ :=
    ownMember_field (m := 3) .fresh hbody hopen hfield hd default default
  cases horigin
  obtain ⟨registered, hregistered, hiff, -⟩ := hagrees c' default rfl
  have hint : checkMember (.struct shadowed.name []) "b" default default c' = .ok .int c' := rfl
  have hregistered' : registered = .int := by
    have hrun := (hregistered [] default default).symm.trans hint
    injection hrun
  subst hregistered'
  refine ⟨c₀, c₁, d, c', rfl, rfl, hd, rfl, hregistered, ⟨d, rfl⟩, ?_⟩
  rw [hiff]
  rintro (_ | ⟨ht, hsame⟩)
  rw [← hstring.unique ht] at hsame
  exact absurd hsame (by decide)

end Scriptlet.Typing
