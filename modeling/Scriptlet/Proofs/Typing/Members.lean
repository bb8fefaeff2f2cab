import Mathlib.Data.List.Forall2
import Scriptlet.Proofs.Typing.Field
import Scriptlet.Proofs.Typing.Speech

namespace Scriptlet.Typing

/-- The name and the annotation of a member that has one. -/
def annotation? : Stmt → Option (String × Ty)
  | .varDecl name _ (some type) _ _ => some (name, type)
  | _ => none

/-- None of the statements declares a class of this name. -/
def Spares (name : String) (ss : List Stmt) : Prop := ∀ s ∈ ss, s.className? ≠ some name

instance (name : String) (ss : List Stmt) : Decidable (Spares name ss) :=
  inferInstanceAs (Decidable (∀ s ∈ ss, s.className? ≠ some name))

/-- Where its declaration stands, a member has this type: what its annotation stands for, or else
what its value has. A function has the types of its parameters and of its result, which is `void` if
none is declared. -/
inductive Declared (n : Nat) (c : Context) : Stmt → Ty → Prop
  | annotated {name : String} {constant : Bool} {written t : Ty} {value : Option Expr} {span : Span}
    (h : Stands c written t) : Declared n c (.varDecl name constant (some written) value span) t
  | value {name : String} {constant : Bool} {e : Expr} {t : Ty} {span : Span}
    (h : HasType (n + 1) c e t) : Declared n c (.varDecl name constant none (some e) span) t
  | function {name : String} {parameters : List Parameter} {result : Option Ty} {body : Block}
    {ts : List Ty} {t : Ty} {span : Span}
    (hparameters : resolveAll span.start (parameters.map (·.type)) c = .ok ts c)
    (hresult : Stands c (result.getD .void) t) :
    Declared n c (.fnDecl name parameters result body span) (.function ts t)

/-- The check comes from the first context to the second without declaring a class of this name: by
statements and expressions, whether they are accepted or not, by registering other classes, and into
bodies and out of them, where any names can be in scope. -/
inductive Within (name : String) (c : Context) : Context → Prop
  | refl : Within name c c
  | statement {d : Context} {n : Nat} {s : Stmt} (h : Within name c d)
    (hs : Spares name (s :: s.inner)) : Within name c (stateAfter (checkStmt (checkNested n) s d))
  | expression {d : Context} {n : Nat} {e : Expr} (h : Within name c d) (he : Spares name e.inner) :
    Within name c (stateAfter (checkNested n e d))
  | registered {d : Context} {other : String} (h : Within name c d) (hother : other ≠ name)
    (members : List (String × Ty)) : Within name c (stateAfter (registerClass other members d))
  | body {d : Context} {enclosing : Option OpenClass} (h : Within name c d)
    (hopened : ∀ opened, enclosing = some opened → Spares name opened.body.nodes) (scope : Scope)
    (returns : ReturnContext) : Within name c { d with scope, returns, enclosing }

/-- Any types, and any classes but those of one name. -/
def Vocabulary.sparing (name : String) : Vocabulary where
  type _ := True
  annotation _ := True
  declares other := other ≠ name
  primitive _ _ := trivial
  list := .rfl
  function := by simp
  member _ _ _ := trivial
  registered _ _ := trivial
  annotation_list := id
  annotation_function _ := ⟨fun _ _ => trivial, trivial⟩
  annotation_struct _ := trivial

section Within

variable {name : String} {c d : Context}

theorem Spares.allows {ss : List Stmt} (h : Spares name ss) :
    ∀ s ∈ ss, (Vocabulary.sparing name).Allows s := by
  refine fun s hs => ⟨?_, False.elim⟩
  rintro other hother rfl
  exact h s hs hother

theorem Spares.admits {body : Block} (h : Spares name body.nodes) :
    (Vocabulary.sparing name).AdmitsStmts body.body := by
  rw [Block.nodes_eq] at h
  exact ⟨Stmt.everyOf_of_forall (fun _ => trivial) trivial _, h.allows⟩

/-- Without a declaration of the class, it stays what it is known to be. -/
theorem Within.fits (h : Within name c d) (hc : (Vocabulary.sparing name).Fits c.classes c) :
    (Vocabulary.sparing name).Fits c.classes d := by
  induction h with
  | refl => exact hc
  | @statement d n s _ hs ih =>
    have hadmits : (Vocabulary.sparing name).AdmitsStmt s :=
      ⟨Stmt.every_of_forall (fun _ => trivial) trivial s, hs.allows⟩
    exact (Vocabulary.speaks_checkStmt (Vocabulary.speaks_checkNested n) s hadmits d ih).fits
  | @expression d n e _ he ih =>
    have hadmits : (Vocabulary.sparing name).AdmitsExpr e :=
      ⟨Expr.every_of_forall (fun _ => trivial) trivial e, he.allows⟩
    exact (Vocabulary.speaks_checkNested n e hadmits d ih).fits
  | registered _ hother members ih =>
    exact (Vocabulary.speaks_registerClass hother (fun _ _ => trivial) _ ih).fits
  | body _ hopened scope returns ih =>
    refine ⟨fun _ _ _ => trivial, fun _ _ => trivial, ih.classes, fun opened ho => ?_, ih.others⟩
    exact (hopened opened ho).admits

/-- While the body of a class is checked that does not declare the class again, it stays what it is
known to be where the body begins. -/
theorem Within.class_kept {opened : OpenClass} {c₀ : Context} (h : Within opened.name c₀ d)
    (henter : enterClass opened c = .ok () c₀) (hspares : Spares opened.name opened.body.nodes) :
    d.classes[opened.name]? = c₀.classes[opened.name]? := by
  have hfits : (Vocabulary.sparing opened.name).Fits c₀.classes c₀ := by
    refine ⟨fun _ _ _ => trivial, fun _ _ => trivial, fun _ _ _ => trivial, fun o ho => ?_,
      fun _ _ => rfl⟩
    rw [(enterClass_ok henter).1] at ho
    cases ho
    exact hspares.admits
  exact (h.fits hfits).others opened.name fun hne => hne rfl

theorem Within.knownIn (h : Within name c d) (hc : c.Named) : c.KnownIn d := by
  have hstep {d d' : Context} (hd : c.KnownIn d) (hleads : d.Leads d') : c.KnownIn d' :=
    hd.trans (hleads.knownIn hd.named')
  induction h with
  | refl => exact (Context.Leads.refl c).knownIn hc
  | @statement d n s _ _ ih => exact hstep ih (steady_checkStmt (steady_checkNested n) s d).toLeads
  | @expression d n e _ _ ih => exact hstep ih (steady_checkNested n e d).toLeads
  | @registered d other _ _ members ih =>
    exact hstep ih (steady_registerClass other members d).toLeads
  | body _ _ _ _ ih => exact ⟨ih.classes, ih.named, ih.named'⟩

end Within

section Annotated

/-- The members with annotations, in their order, each with the type its annotation stands for. -/
theorem annotatedMembers_ok {body : List Stmt} {members : List (String × Ty)} {c c' : Context}
    (h : annotatedMembers body c = .ok members c') :
    List.Forall₂ (fun m a => m.1 = a.1 ∧ Stands c a.2 m.2) members (body.filterMap annotation?) := by
  fun_induction annotatedMembers body generalizing members c with
  | case1 =>
    cases h
    exact .nil
  | case2 name constant type value span rest ih =>
    obtain ⟨t, ht, h⟩ := (still_resolve _ _).bind_eq_ok h
    obtain ⟨others, c₂, hothers, h⟩ := bind_run_eq_ok_iff.mp h
    cases h
    exact .cons ⟨rfl, span.start, ht⟩ (ih hothers)
  | case3 s rest hs ih =>
    have hnone : annotation? s = none := by
      rw [annotation?.eq_def]
      split
      · exact absurd rfl (hs _ _ _ _ _)
      · rfl
    rw [List.filterMap_cons_none hnone]
    exact ih h

/-- What a value of the class has is what the class is known to have, whatever the value's own type
says. -/
theorem checkMember_known {name : String} {known : List (String × Ty)} {d : Context}
    (h : d.classes[name]? = some (.struct name known)) (view : List (String × Ty)) (f : String)
    (start : Position) (outside : Span) :
    checkMember (.struct name view) f start outside d =
      match known.lookup f with
      | some t => .ok t d
      | none => .error ⟨.unknownProperty f name, outside.stop⟩ d := by
  rw [checkMember, get_bind_run, h, Option.getD_some, Ty.member?]
  cases known.lookup f <;> rfl

/-- Where the body begins, the class is known with the members that have annotations. -/
theorem known_of_enterClass {opened : OpenClass} {c d : Context} (hc : c.Named)
    (h : enterClass opened c = .ok () d) :
    ∃ known, d.classes[opened.name]? = some (.struct opened.name known) ∧
      ∃ c₁ : Context, c₁.KnownIn d ∧ List.Forall₂ (fun m a => m.1 = a.1 ∧ Stands c₁ a.2 m.2) known
        (opened.body.body.filterMap annotation?) := by
  obtain ⟨_, c₁, hempty, h⟩ := bind_run_eq_ok_iff.mp h
  obtain ⟨known, hknown, h⟩ := (still_annotatedMembers _).bind_eq_ok h
  obtain ⟨_, c₂, hregister, h⟩ := bind_run_eq_ok_iff.mp h
  have hnamed : c₁.Named := ((steady_registerClass _ _).of_ok hempty).named hc
  have hleads : c₁.KnownIn c₂ := ((steady_registerClass _ _).of_ok hregister).toLeads.knownIn hnamed
  cases hregister
  cases h
  refine ⟨known, Std.TreeMap.getElem?_insert_self, c₁, ?_, annotatedMembers_ok hknown⟩
  exact ⟨hleads.classes, hnamed, hleads.named'⟩

end Annotated

section Registered

/-- A function has the types that its parameters and its result stand for. -/
theorem type_of_signature {parameters : List Parameter} {result : Option Ty} {position : Position}
    {s : Signature} {c : Context} (h : signature parameters result position c = .ok s c) :
    ∃ ts t, resolveAll position (parameters.map (·.type)) c = .ok ts c ∧
      resolve position (result.getD .void) c = .ok t c ∧ s.type = .function ts t := by
  -- The type is the one that the whole signature stands for as an annotation.
  have hresolve : resolve position (annotationOf parameters result) c = .ok s.type c := by
    rw [← signature_type, bind_run_ok h]
    rfl
  rw [annotationOf, resolve] at hresolve
  obtain ⟨ts, hts, hresolve⟩ := (still_resolveAll _ _).bind_eq_ok hresolve
  obtain ⟨t, ht, hresolve⟩ := (still_resolve _ _).bind_eq_ok hresolve
  injection hresolve with htype
  exact ⟨ts, t, hts, ht, htype.symm⟩

/-- A declaration that is accepted puts its name in scope, with the type it declares. -/
theorem declared_of_member {n : Nat} {s : Stmt} {f : String} {c c' : Context}
    (hf : memberName? s = some f) (h : checkStmt (checkNested n) s c = .ok () c') :
    ∃ symbol, c'.scope[f]? = some symbol ∧ Declared n c s symbol.type := by
  match s with
  | .varDecl name constant written value span =>
    cases hf
    obtain ⟨symbol, hsymbol, htype, hvalue⟩ := declared_of_checkStmt h
    refine ⟨symbol, hsymbol, ?_⟩
    match written, value with
    | some type, value => exact .annotated (htype type rfl)
    | none, some e => exact .value (hvalue e rfl rfl)
    | none, none =>
      rw [checkStmt] at h
      cases h
  | .fnDecl name parameters result (.mk body _) span =>
    cases hf
    rw [checkStmt] at h
    obtain ⟨signature, hsignature, h⟩ := (still_signature _ _ _).bind_eq_ok h
    obtain ⟨_, c₁, hdeclare, h⟩ := bind_run_eq_ok_iff.mp h
    obtain ⟨c₂, -, rfl⟩ := inFunction_ok h
    cases hdeclare
    obtain ⟨ts, t, hparameters, hresult, htype⟩ := type_of_signature hsignature
    refine ⟨⟨signature.type, true⟩, Std.TreeMap.getElem?_insert_self, ?_⟩
    rw [htype]
    exact .function hparameters ⟨span.start, hresult⟩

/-- The names of direct declarations are in scope behind a body that is accepted. -/
theorem mem_scope_of_checkStmts {n : Nat} {body : List Stmt} {c c' : Context}
    (h : checkStmts (checkNested n) body c = .ok () c') :
    ∀ f ∈ body.filterMap memberName?, f ∈ c'.scope := by
  intro f hf
  obtain ⟨s, hs, hname⟩ := List.mem_filterMap.mp hf
  obtain ⟨pre, post, rfl⟩ := List.append_of_mem hs
  rw [checkStmts_append] at h
  obtain ⟨_, before, -, h⟩ := bind_run_eq_ok_iff.mp h
  rw [checkStmts] at h
  obtain ⟨_, after, hdeclaration, hpost⟩ := bind_run_eq_ok_iff.mp h
  obtain ⟨symbol, hsymbol, -⟩ := declared_of_member hname hdeclaration
  have hgrows := (steady_checkStmts (steady_checkNested n) post).of_ok hpost
  apply hgrows.scope
  rw [Std.TreeMap.mem_iff_isSome_getElem?, hsymbol]
  rfl

/-- With all names in scope, no member is lost. -/
theorem map_fst_members {body : List Stmt} {scope : Scope}
    (h : ∀ f ∈ body.filterMap memberName?, f ∈ scope) :
    (members body scope).map (·.1) = body.filterMap memberName? := by
  rw [members]
  generalize body.filterMap memberName? = names at h
  induction names with
  | nil => rfl
  | cons f names ih =>
    rw [List.forall_mem_cons] at h
    have hf := h.1
    rw [Std.TreeMap.mem_iff_isSome_getElem?, Option.isSome_iff_exists] at hf
    obtain ⟨symbol, hsymbol⟩ := hf
    rw [List.filterMap_cons, hsymbol, Option.map_some, List.map_cons, ih h.2]

/-- A struct has exactly the members that are listed. -/
theorem member?_isSome_iff (name f : String) (members : List (String × Ty)) :
    ((Ty.struct name members).member? f).isSome ↔ f ∈ members.map (·.1) := by
  rw [Ty.member?]
  induction members with
  | nil => simp
  | cons m members ih =>
    rw [List.lookup_cons, List.map_cons, List.mem_cons]
    by_cases hf : f = m.1
    · simp [hf]
    · have hne : (f == m.1) = false := beq_eq_false_iff_ne.mpr hf
      simp [hne, hf, ih]

end Registered

/-- A class that is accepted, in a context that has classes under their own names, as every context
has that a check comes to. Registered in the end are the direct declarations of the body in their
order, and nothing else; one that no later statement of the body declares again has the type of its
declaration, where it stands. While the body is checked and no class of the name is declared in it,
values of the class have the members with annotations, with the types that these stand for. -/
theorem members_of_checkClass {n : Nat} {opened : OpenClass} {span : Span} {c c' : Context}
    (hc : c.Named)
    (h : checkStmt (checkNested n) (.classDecl opened.name opened.body span) c = .ok () c') :
    ∃ c₀ registered known, enterClass opened c = .ok () c₀ ∧
      (c'.classes[opened.name]? = some (.struct opened.name registered) ∧
        registered.map (·.1) = opened.body.body.filterMap memberName? ∧
        (∀ f, ((Ty.struct opened.name registered).member? f).isSome ↔
          f ∈ opened.body.body.filterMap memberName?) ∧
        ∀ pre declaration post f, opened.body.body = pre ++ declaration :: post →
          memberName? declaration = some f → f ∉ Stmt.declaredOf post →
          ∃ before t, checkStmts (checkNested n) pre c₀ = .ok () before ∧
            (Ty.struct opened.name registered).member? f = some t ∧
            Declared n before declaration t) ∧
      (Spares opened.name opened.body.nodes → ∀ d, Within opened.name c₀ d →
        d.classes[opened.name]? = some (.struct opened.name known) ∧
        List.Forall₂ (fun m a => m.1 = a.1 ∧ ∃ t, Stands d a.2 t ∧ (m.2 == t) = true) known
          (opened.body.body.filterMap annotation?) ∧
        ∀ view f start outside, checkMember (.struct opened.name view) f start outside d =
          match known.lookup f with
          | some t => .ok t d
          | none => .error ⟨.unknownProperty f opened.name, outside.stop⟩ d) := by
  obtain ⟨c₀, c₂, henter, hbody, hregister⟩ := checkClass_ok h
  obtain ⟨known, hknown, c₁, hc₁, hannotated⟩ := known_of_enterClass hc henter
  have hnames := map_fst_members (mem_scope_of_checkStmts hbody)
  refine ⟨c₀, members opened.body.body c₂.scope, known, henter, ⟨?_, hnames, fun f => ?_, ?_⟩, ?_⟩
  · cases hregister
    exact Std.TreeMap.getElem?_insert_self
  · rw [member?_isSome_iff, hnames]
  · intro pre declaration post f hsplit hf hpost
    rw [hsplit, checkStmts_append] at hbody
    obtain ⟨_, before, hbefore, hbody⟩ := bind_run_eq_ok_iff.mp hbody
    rw [checkStmts] at hbody
    obtain ⟨_, after, hdeclaration, hrest⟩ := bind_run_eq_ok_iff.mp hbody
    obtain ⟨symbol, hsymbol, hdeclared⟩ := declared_of_member hf hdeclaration
    have hgrows := (steady_checkStmts (steady_checkNested n) post).of_ok hrest
    -- No statement behind the declaration puts another symbol in its place.
    rw [← hgrows.others f hpost] at hsymbol
    have hmem : f ∈ opened.body.body.filterMap memberName? := by
      rw [hsplit]
      exact List.mem_filterMap.mpr ⟨declaration, List.mem_append_right _ List.mem_cons_self, hf⟩
    exact ⟨before, symbol.type, hbefore, member?_members hmem hsymbol, hdeclared⟩
  · intro hspares d hd
    have hclass : d.classes[opened.name]? = some (.struct opened.name known) := by
      rw [hd.class_kept henter hspares, hknown]
    refine ⟨hclass, hannotated.imp fun m a hm => ?_, checkMember_known hclass⟩
    obtain ⟨t, ht, hsame⟩ := hm.2.mono (hc₁.trans (hd.knownIn ((enterClass_ok henter).2 hc)))
    exact ⟨hm.1, t, ht, hsame⟩

/-- `class C { let a: int = 1; let b = this.a; function m(x: C): int { return x.a; } }` -/
def annotatedFirst : OpenClass where
  name := "C"
  body := .mk
    [.varDecl "a" false (some .int) (some (.int 1 default)) default,
      .varDecl "b" false none (some (ownMember "a" default default)) default,
      .fnDecl "m" [⟨"x", .named "C"⟩] (some .int)
        (.mk [.ret (some (.member (.symbol "x" default) "a" default)) default] default) default]
    default

/-- Its three members are registered, the second one with the type of its value, but through values
of the class its body can reach only the first one of the two fields. -/
theorem members_of_checkClass_annotatedFirst :
    ∃ c₀ c' registered,
      checkStmt (checkNested 3) (.classDecl "C" annotatedFirst.body default) .fresh = .ok () c' ∧
      c'.classes["C"]? = some (.struct "C" registered) ∧
      registered.map (·.1) = ["a", "b", "m"] ∧
      (Ty.struct "C" registered).member? "b" = some .int ∧
      enterClass annotatedFirst .fresh = .ok () c₀ ∧
      ∀ d, Within "C" c₀ d → ∀ view start outside,
        checkMember (.struct "C" view) "a" start outside d = .ok .int d ∧
        checkMember (.struct "C" view) "b" start outside d =
          .error ⟨.unknownProperty "b" "C", outside.stop⟩ d := by
  let c₀ := stateAfter (enterClass annotatedFirst .fresh)
  let c' := stateAfter
    (checkStmt (checkNested 3) (.classDecl "C" annotatedFirst.body default) .fresh)
  have h : checkStmt (checkNested 3) (.classDecl annotatedFirst.name annotatedFirst.body default)
      .fresh = .ok () c' := rfl
  have hspares : Spares annotatedFirst.name annotatedFirst.body.nodes := by decide
  obtain ⟨_, registered, known, henter, ⟨hclass, hnames, -, hlast⟩, hwithin⟩ :=
    members_of_checkClass Visited.fresh.named h
  cases henter
  have hknown : known = [("a", .int)] := by
    have hbegin := (hwithin hspares c₀ .refl).1
    have hthere : c₀.classes[annotatedFirst.name]? = some (.struct "C" [("a", .int)]) := rfl
    rw [hthere] at hbegin
    injection hbegin with hbegin
    injection hbegin with _ hbegin
    exact hbegin.symm
  subst hknown
  obtain ⟨before, t, hbefore, hmember, hdeclared⟩ :=
    hlast (annotatedFirst.body.body.take 1) _ (annotatedFirst.body.body.drop 2) "b" rfl rfl
      (by decide)
  have ht : t = .int := by
    cases hbefore
    cases hdeclared with
    | value ht =>
      have hint : HasType 4 (stateAfter (checkStmts (checkNested 3)
          (annotatedFirst.body.body.take 1) c₀)) (ownMember "a" default default) .int := ⟨_, rfl⟩
      exact ht.unique hint
  subst ht
  refine ⟨c₀, c', registered, h, hclass, hnames, hmember, rfl, ?_⟩
  intro d hd view start outside
  obtain ⟨-, -, hmembers⟩ := hwithin hspares d hd
  exact ⟨hmembers view "a" start outside, hmembers view "b" start outside⟩

end Scriptlet.Typing
