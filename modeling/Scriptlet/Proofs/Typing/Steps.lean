import Scriptlet.Proofs.Typing.Comparison

namespace Scriptlet.Typing

open Comparison

variable {M : Comparison} {base : Scope} {c d : Context}

section Lookup

theorem agree_symbol (h : M.Related base c d) (name : String) (position : Position) :
    M.Agree base c d M.AlikeSymbol (symbol name position c) (symbol name position d) := by
  rw [symbol, get_bind_run, get_bind_run]
  have hname := h.scope name
  cases hs : c.scope[name]? with
  | some s =>
    rw [hs] at hname
    obtain ⟨s', hs', hsymbol⟩ := hname
    rw [hs']
    exact .pure h hsymbol
  | none =>
    by_cases hstrict : M.strict
    · rw [hs] at hname
      rw [hname.trans (h.alone hstrict name)]
      exact .throw h rfl
    · exact .refused hstrict

theorem agree_classType (h : M.Related base c d) (name : String) (position : Position) :
    M.Agree base c d M.AlikeClass (classType name position c) (classType name position d) := by
  rw [classType, get_bind_run, get_bind_run]
  have hname := h.classes name
  cases ht : c.classes[name]? with
  | some t =>
    rw [ht] at hname
    obtain ⟨u, hu, hclass⟩ := hname
    rw [hu]
    exact .pure h hclass
  | none =>
    by_cases hstrict : M.strict
    · rw [ht] at hname
      rw [hname.trans (M.alone hstrict name)]
      exact .throw h rfl
    · exact .refused hstrict

/-- A class that the first check knows is known to the second, with members that are alike. -/
theorem Comparison.Related.known (h : M.Related base c d) {name : String}
    (hname : name ∈ c.classes) :
    ∃ t u, c.classes[name]? = some t ∧ d.classes[name]? = some u ∧
      M.AlikeClass c.classes d.classes t u := by
  rw [Std.TreeMap.mem_iff_isSome_getElem?, Option.isSome_iff_exists] at hname
  obtain ⟨t, ht⟩ := hname
  have hclass := h.classes name
  rw [ht] at hclass
  obtain ⟨u, hu, hclass⟩ := hclass
  exact ⟨t, u, ht, hu, hclass⟩

end Lookup

section Annotations

mutual

theorem agree_resolve (position : Position) (t : Ty) (ht : M.Permits t) {c d : Context}
    (h : M.Related base c d) :
    M.Agree base c d M.Alike (resolve position t c) (resolve position t d) := by
  match t with
  | .named name =>
    rw [resolve]
    split
    · rename_i hprimitive
      exact .pure h (alike_primitive hprimitive)
    · exact (agree_classType h name position).mono fun _ _ _ _ hclass => hclass.toAlike
  | .list item =>
    rw [resolve]
    apply (agree_resolve position item ht h).bind
    intro t u c d h _ hitem
    exact .pure h (alike_list_iff.mpr hitem)
  | .function parameters result =>
    rw [resolve]
    apply (agree_resolveAll position parameters ht.1 h).bind
    intro ts us c d h hl hparameters
    apply (agree_resolve position result ht.2 h).bind
    intro t u c d h hl hresult
    have hparameters' := List.Forall₂.imp (fun _ _ ht => Alike.mono ht hl) hparameters
    exact .pure h (alike_function_iff.mpr ⟨hparameters', hresult⟩)
  | .struct name members =>
    rw [resolve]
    have hstruct := M.struct name members ht
    exact .pure h ⟨Ty.same_refl _, fun _ => rfl,
      hstruct.mono (fun _ h => h) fun name hname => (h.given name hname).1,
      hstruct.mono (fun _ h => h) fun name hname => (h.given name hname).2⟩

theorem agree_resolveAll (position : Position) (ts : List Ty)
    (hts : Ty.AllBuiltFrom (fun _ => True) M.given ts) {c d : Context} (h : M.Related base c d) :
    M.Agree base c d (fun K L => List.Forall₂ (M.Alike K L)) (resolveAll position ts c)
      (resolveAll position ts d) := by
  match ts with
  | [] => exact .pure h .nil
  | t :: ts =>
    rw [resolveAll]
    apply (agree_resolve position t hts.1 h).bind
    intro t u c d h hl hfirst
    apply (agree_resolveAll position ts hts.2 h).bind
    intro ts us c d h hl hrest
    exact .pure h (.cons (hfirst.mono hl) hrest)

end

theorem agree_resolve? (h : M.Related base c d) (position : Position) (t : Option Ty)
    (ht : ∀ t' ∈ t, M.Permits t') :
    M.Agree base c d (fun K L => Option.Rel (M.Alike K L)) (resolve? position t c)
      (resolve? position t d) := by
  cases t with
  | none => exact .pure h .none
  | some t =>
    rw [resolve?]
    apply (agree_resolve position t (ht t rfl) h).bind
    intro t u c d h _ hfirst
    exact .pure h (.some hfirst)

theorem alikeMembers_zip {K L : Classes} {ts us : List Ty} (h : List.Forall₂ (M.Alike K L) ts us)
    (names : List String) : M.AlikeMembers K L (names.zip ts) (names.zip us) := by
  induction h generalizing names with
  | nil =>
    rw [List.zip_nil_right]
    exact .nil
  | cons hfirst _ ih =>
    cases names with
    | nil => exact .nil
    | cons name names => exact .cons ⟨rfl, hfirst⟩ (ih names)

theorem agree_signature (h : M.Related base c d) (parameters : List Parameter)
    (result : Option Ty) (position : Position) (hparameters : ∀ p ∈ parameters, M.Permits p.type)
    (hresult : ∀ t ∈ result, M.Permits t) :
    M.Agree base c d M.AlikeSignature (signature parameters result position c)
      (signature parameters result position d) := by
  rw [signature]
  have hall : Ty.AllBuiltFrom (fun _ => True) M.given (parameters.map (·.type)) := by
    rw [Ty.allBuiltFrom_iff]
    intro t ht
    obtain ⟨p, hp, rfl⟩ := List.mem_map.mp ht
    exact hparameters p hp
  apply (agree_resolveAll position _ hall h).bind
  intro ts us c d h _ htypes
  apply (agree_resolve? h position result hresult).bind
  intro r s c d h hl hdeclared
  have htypes' := List.Forall₂.imp (fun _ _ ht => Alike.mono ht hl) htypes
  exact .pure h ⟨alikeMembers_zip htypes' _, rel_getD hdeclared, hdeclared⟩

theorem agree_annotatedMembers (h : M.Related base c d) (body : List Stmt)
    (hbody : Stmt.EveryOf M.Permits M.strict body) :
    M.Agree base c d M.AlikeMembers (annotatedMembers body c) (annotatedMembers body d) := by
  fun_induction annotatedMembers body generalizing c d with
  | case1 => exact .pure h .nil
  | case2 name _ type _ span rest ih =>
    apply (agree_resolve span.start type (hbody.1.1 type rfl) h).bind
    intro t u c d h _ htype
    apply (ih h hbody.2).bind
    intro ms ns c d h hl hrest
    exact .pure h (.cons ⟨rfl, htype.mono hl⟩ hrest)
  | case3 _ _ _ ih => exact ih h hbody.2

end Annotations

section Conditions

variable {t t' u u' : Ty}

theorem agree_expectSame (h : M.Related base c d) (fault : String → String → Fault)
    (ht : t.same t' = true) (hu : u.same u' = true) (position : Position) :
    M.Agree base c d Any (expectSame fault t u position c) (expectSame fault t' u' position d) := by
  rw [expectSame, expectSame, Ty.beq_congr ht hu, Ty.text_eq_of_same ht, Ty.text_eq_of_same hu]
  split
  · exact .pure h trivial
  · exact .throw h rfl

theorem agree_checkUnary (h : M.Related base c d) (operator : Token) (ht : t.same t' = true)
    (position : Position) :
    M.Agree base c d Any (checkUnary operator t position c)
      (checkUnary operator t' position d) := by
  rw [checkUnary, checkUnary, Ty.beq_congr ht (Ty.same_refl .float)]
  split
  · exact agree_expectSame h _ (Ty.same_refl _) ht position
  · split
    · exact .pure h trivial
    · exact agree_expectSame h _ (Ty.same_refl _) ht position

theorem agree_checkTarget (h : M.Related base c d) (target : Expr) :
    M.Agree base c d Any (checkTarget target c) (checkTarget target d) := by
  rw [checkTarget.eq_def]
  split
  · split
    · exact .throw h rfl
    · apply (agree_symbol h _ _).bind
      intro s s' c d h _ hs
      rw [hs.constant]
      split
      · exact .throw h rfl
      · exact .pure h trivial
  · exact .pure h trivial
  · exact .pure h trivial
  · exact .throw h rfl

/-- The members of a value are those of its class, which both checks know. -/
theorem agree_checkMember (h : M.Related base c d) (ht : M.Alike c.classes d.classes t t')
    (property : String) (start : Position) (span : Span) :
    M.Agree base c d M.Alike (checkMember t property start span c)
      (checkMember t' property start span d) := by
  have htext := Ty.text_eq_of_same ht.same
  cases ht.shape with
  | struct members members' hknown _ =>
    -- What the types themselves list as members is not looked at.
    obtain ⟨known, known', hc, hd, hclass⟩ := h.known hknown
    rw [checkMember, checkMember, get_bind_run, get_bind_run]
    simp only [hc, hd, Option.getD_some, Ty.text_eq_of_same hclass.same]
    have hmember := hclass.member? property
    generalize known.member? property = r, known'.member? property = s at hmember
    cases hmember with
    | none => exact .throw h rfl
    | some htype => exact .pure h htype
  | named name => exact .throw h rfl
  | list | function =>
    refine .throw h ?_
    rw [htext]

theorem agree_checkCount (h : M.Related base c d) {ps qs : List Ty}
    (hlength : ps.length = qs.length) (arguments : List Expr) (span : Span) :
    M.Agree base c d Any (checkCount ps arguments span c) (checkCount qs arguments span d) := by
  rw [checkCount, checkCount, hlength]
  cases arguments.drop qs.length with
  | cons => exact .throw h rfl
  | nil =>
    dsimp only
    split
    · exact .throw h rfl
    · exact .pure h trivial

theorem agree_resultType (h : M.Related base c d) (position : Position) :
    M.Agree base c d M.Alike (resultType position c) (resultType position d) := by
  rw [resultType, get_bind_run, get_bind_run]
  have hreturns := h.returns
  generalize c.returns = r, d.returns = s at hreturns
  cases hreturns with
  | topLevel => exact .throw h rfl
  | function hdeclared => exact .pure h (rel_getD hdeclared)

theorem agree_variableType (h : M.Related base c d) {r r' s s' : Option Ty}
    (hr : Option.Rel (M.Alike c.classes d.classes) r r')
    (hs : Option.Rel (M.Alike c.classes d.classes) s s') (place position : Position) :
    M.Agree base c d M.Alike (variableType r s place position c)
      (variableType r' s' place position d) := by
  cases hr with
  | none =>
    cases hs with
    | none => exact .throw h rfl
    | some hs => exact .pure h hs
  | some hr =>
    cases hs with
    | none => exact .pure h hr
    | some hs =>
      rw [variableType, variableType]
      apply (agree_expectSame h _ hr.same hs.same place).bind
      intro _ _ c d h hl _
      exact .pure h (hr.mono hl)

end Conditions

section Changes

theorem agree_declare (h : M.Related base c d) {t u : Ty}
    (ht : M.Alike c.classes d.classes t u) (name : String) (constant : Bool) :
    M.Agree base c d Any (declare name t constant c) (declare name u constant d) := by
  have hs : M.AlikeSymbol c.classes d.classes ⟨t, constant⟩ ⟨u, constant⟩ := ⟨ht, rfl⟩
  exact .ok (h.declare hs name) (.refl _ _) trivial

theorem agree_registerClass (h : M.Related base c d) {ms ns : List (String × Ty)}
    (hmembers : M.AlikeMembers c.classes d.classes ms ns) (name : String) :
    M.Agree base c d Any (registerClass name ms c) (registerClass name ns d) :=
  .ok (h.registerClass hmembers name) (later_insert _ _ _ _ _) trivial

theorem agree_checkImport (h : M.Related base c d) (hstrict : M.strict) (name : String)
    (position : Position) :
    M.Agree base c d Any (checkImport name position c) (checkImport name position d) := by
  rw [checkImport, get_bind_run, get_bind_run]
  have himported := h.imported hstrict
  have hmodules := h.modules hstrict
  by_cases hnew : name ∈ c.imported
  · rw [if_pos hnew, if_pos ((himported name).mpr hnew)]
    exact .throw h rfl
  · rw [if_neg hnew, if_neg (fun hmem => hnew ((himported name).mp hmem))]
    by_cases hknown : name ∈ c.modules
    · rw [if_pos hknown, if_pos ((hmodules name).mpr hknown)]
      have hinsert (_ : M.strict) (other : String) :
          other ∈ d.imported.insert name ↔ other ∈ c.imported.insert name := by
        rw [Std.TreeSet.mem_insert, Std.TreeSet.mem_insert, himported other]
      exact .ok { h with imported := hinsert } (.refl _ _) trivial
    · rw [if_neg hknown, if_neg (fun hmem => hknown ((hmodules name).mp hmem))]
      exact .throw h rfl

end Changes

section Bodies

variable {check : Check Unit}

theorem agree_inFunction (h : M.Related base c d) {s s' : Signature}
    (hs : M.AlikeSignature c.classes d.classes s s')
    (hcheck : ∀ {c d}, M.Related {} c d → M.Agree {} c d Any (check c) (check d)) :
    M.Agree base c d Any (inFunction s.scope s.declared check c)
      (inFunction s'.scope s'.declared check d) := by
  rw [inFunction_run, inFunction_run]
  have hbody := hcheck (h.enterFunction hs.scope hs.declared)
  generalize check { c with scope := s.scope, returns := .function s.declared } = result,
    check { d with scope := s'.scope, returns := .function s'.declared } = result' at hbody ⊢
  cases hbody with
  | ok h' hl _ => exact .ok (h.leaveFunction h' hl) hl trivial
  | error h' hl => exact .error (h.leaveFunction h' hl) hl
  | refused hlax =>
    cases result' <;> exact .refused hlax

theorem agree_inClass (h : M.Related base c d) (opened : OpenClass)
    (hopened : Stmt.EveryOf M.Permits M.strict opened.body.body)
    (hcheck : ∀ {c d}, M.Related {} c d → M.Agree {} c d Any (check c) (check d)) :
    M.Agree base c d (fun K L => M.AlikeScope K L {}) (inClass opened check c)
      (inClass opened check d) := by
  rw [inClass_run, inClass_run]
  have hbody := hcheck (h.enterClass hopened)
  generalize check { c with scope := {}, enclosing := some opened } = result,
    check { d with scope := {}, enclosing := some opened } = result' at hbody ⊢
  cases hbody with
  | ok h' hl _ => exact .ok (h.leaveClass h' hl) hl h'.scope
  | error h' hl => exact .error (h.leaveClass h' hl) hl
  | refused hlax =>
    cases result' <;> exact .refused hlax

end Bodies

end Scriptlet.Typing
