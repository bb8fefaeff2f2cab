import Scriptlet.Proofs.Typing.Steps

namespace Scriptlet.Typing

open Comparison

variable {M : Comparison} {reread : Expr → Check Ty}

/-- Expressions are checked again in the same way in related contexts. -/
def Comparison.Agreeing (M : Comparison) (reread : Expr → Check Ty) : Prop :=
  ∀ e : Expr, e.Every M.Permits M.strict → ∀ {base : Scope} {c d : Context},
    M.Related base c d → M.Agree base c d M.Alike (reread e c) (reread e d)

/-- A member of `this` is checked in the body of its class, which is the same in both contexts. -/
theorem agree_checkOwnMember (hr : M.Agreeing reread) (property : String) (object span : Span)
    {base : Scope} {c d : Context} (h : M.Related base c d) :
    M.Agree base c d M.Alike (checkOwnMember reread property object span c)
      (checkOwnMember reread property object span d) := by
  rw [checkOwnMember, get_bind_run, get_bind_run, h.enclosing]
  cases henclosing : c.enclosing with
  | none => exact .throw h rfl
  | some opened =>
    have hbody := h.opened opened henclosing
    dsimp only
    cases hfind : opened.body.body.find? (memberName? · == some property) with
    | none => exact .throw h rfl
    | some s =>
      have hs : s.Every M.Permits M.strict :=
        Stmt.everyOf_iff.mp hbody s (List.mem_of_find?_eq_some hfind)
      match s with
      | .varDecl _ _ (some type) _ span => exact agree_resolve span.start type (hs.1 type rfl) h
      | .varDecl _ _ none (some value) _ => exact hr value hs.2 h
      | .varDecl _ _ none none span => exact .throw h rfl
      | .fnDecl _ parameters result (.mk _ _) span =>
        apply (agree_signature h parameters result span.start hs.1 hs.2.1).bind
        intro s s' c d h _ hsignature
        exact .pure h hsignature.type
      | .block _ | .expression .. | .classDecl .. | .branch .. | .loop .. | .ret ..
      | .importDecl .. => exact .throw h rfl

-- One case for each kind of node. Types found on the way stay alike in what follows, where more
-- classes are known.
mutual

theorem agree_checkExpr (hr : M.Agreeing reread) (e : Expr) (he : e.Every M.Permits M.strict)
    {base : Scope} {c d : Context} (h : M.Related base c d) :
    M.Agree base c d M.Alike (checkExpr reread e c) (checkExpr reread e d) := by
  match e with
  | .int .. | .float .. | .string .. | .bool .. =>
    rw [checkExpr]
    exact .pure h (alike_primitive (by decide))
  | .symbol name span =>
    rw [checkExpr]
    split
    · rw [get_bind_run, get_bind_run, h.enclosing]
      cases c.enclosing with
      | none => exact .throw h rfl
      | some opened =>
        exact (agree_classType h opened.name span.start).mono fun _ _ _ _ hclass => hclass.toAlike
    · apply (agree_symbol h name span.start).bind
      intro s s' c d h _ hs
      exact .pure h hs.type
  | .binary operator left right span =>
    rw [checkExpr]
    apply (agree_checkExpr hr left he.1 h).bind
    intro t t' c d h _ hfirst
    apply (agree_checkExpr hr right he.2 h).bind
    intro u u' c d h hl hsecond
    apply (agree_expectSame h _ hfirst.same hsecond.same right.start).bind
    intro _ _ c d h hl' _
    split
    · exact .pure h (alike_primitive (by decide))
    · exact .pure h (hfirst.mono (hl.trans hl'))
  | .unary operator operand span =>
    rw [checkExpr]
    apply (agree_checkExpr hr operand he h).bind
    intro t t' c d h _ htype
    apply (agree_checkUnary h operator htype.same operand.start).bind
    intro _ _ c d h hl _
    exact .pure h (htype.mono hl)
  | .assign operator target value span =>
    rw [checkExpr]
    apply (agree_checkTarget h target).bind
    intro _ _ c d h _ _
    apply (agree_checkExpr hr target he.1 h).bind
    intro t t' c d h _ hexpected
    apply (agree_checkExpr hr value he.2 h).bind
    intro u u' c d h hl hreceived
    apply (agree_expectSame h _ hexpected.same hreceived.same value.start).bind
    intro _ _ c d h hl' _
    exact .pure h (hexpected.mono (hl.trans hl'))
  | .member object property span =>
    rcases checkExpr_member reread object property span with ⟨s, heq⟩ | heq <;> rw [heq]
    · exact agree_checkOwnMember hr property s span h
    · apply (agree_checkExpr hr object he h).bind
      intro t t' c d h _ htype
      exact agree_checkMember h htype property object.start span
  | .index object position span =>
    rw [checkExpr]
    apply (agree_checkExpr hr object he.1 h).bind
    intro t t' c d h _ hobject
    have htext := Ty.text_eq_of_same hobject.same
    -- Types that are alike are of one shape, so both checks go on or both stop, and the fault
    -- writes the type in one way.
    cases hobject.shape with
    | list hitem =>
      apply (agree_checkExpr hr position he.2 h).bind
      intro u u' c d h hl hposition
      apply (agree_expectSame h _ (Ty.same_refl _) hposition.same position.start).bind
      intro _ _ c d h hl' _
      exact .pure h (hitem.mono (hl.trans hl'))
    | named | function | struct =>
      refine .throw h ?_
      rw [htext]
  | .call callee arguments span =>
    rw [checkExpr]
    apply (agree_checkExpr hr callee he.1 h).bind
    intro t t' c d h _ hcallee
    have htext := Ty.text_eq_of_same hcallee.same
    cases hcallee.shape with
    | function hparameters hresult =>
      apply (agree_checkCount h hparameters.length_eq arguments span).bind
      intro _ _ c d h hl _
      have hparameters' := hparameters.imp fun _ _ ht => Alike.mono ht hl
      apply (agree_checkArguments hr hparameters' arguments he.2 h).bind
      intro _ _ c d h hl' _
      exact .pure h (hresult.mono (hl.trans hl'))
    | named | list | struct =>
      refine .throw h ?_
      rw [htext]
  | .range lower upper span =>
    rw [checkExpr]
    apply (agree_checkExpr hr lower he.1 h).bind
    intro t t' c d h _ hlower
    apply (agree_expectSame h _ (Ty.same_refl _) hlower.same lower.start).bind
    intro _ _ c d h _ _
    apply (agree_checkExpr hr upper he.2 h).bind
    intro u u' c d h _ hupper
    apply (agree_expectSame h _ (Ty.same_refl _) hupper.same upper.start).bind
    intro _ _ c d h _ _
    exact .pure h (alike_list_iff.mpr (alike_primitive (by decide)))
  | .function parameters result body span =>
    rw [checkExpr]
    apply (agree_signature h parameters result span.start he.1 he.2.1).bind
    intro s s' c d h _ hs
    apply (agree_inFunction h hs fun h => agree_checkStmts hr body he.2.2 h).bind
    intro _ _ c d h hl _
    exact .pure h (hs.type.mono hl)
  | .array [] span =>
    rw [checkExpr]
    exact .throw h rfl
  | .array (first :: rest) span =>
    rw [checkExpr]
    apply (agree_checkExpr hr first he.1 h).bind
    intro t t' c d h _ hitem
    apply (agree_checkItems hr hitem rest he.2 h).bind
    intro _ _ c d h hl _
    exact .pure h (alike_list_iff.mpr (hitem.mono hl))
  | .arrayOf item items span =>
    rw [checkExpr]
    apply (agree_resolve span.start item he.1 h).bind
    intro t t' c d h _ hitem
    apply (agree_checkItems hr hitem items he.2 h).bind
    intro _ _ c d h hl _
    exact .pure h (alike_list_iff.mpr (hitem.mono hl))
  | .structOf name fields span =>
    rw [checkExpr]
    apply (agree_classType h name span.start).bind
    intro t t' c d h _ hclass
    apply (agree_checkFields hr name hclass fields he h).bind
    intro _ _ c d h hl _
    exact .pure h (hclass.toAlike.mono hl)
  | .construct name arguments span =>
    rw [checkExpr]
    apply (agree_classType h name span.start).bind
    intro t t' c d h _ hclass
    apply (agree_checkExprs hr arguments he h).bind
    intro _ _ c d h hl _
    exact .pure h (hclass.toAlike.mono hl)

theorem agree_checkExpr? (hr : M.Agreeing reread) (e : Option Expr)
    (he : Expr.Every? M.Permits M.strict e) {base : Scope} {c d : Context}
    (h : M.Related base c d) :
    M.Agree base c d (fun K L => Option.Rel (M.Alike K L)) (checkExpr? reread e c)
      (checkExpr? reread e d) := by
  match e with
  | none =>
    rw [checkExpr?]
    exact .pure h .none
  | some e =>
    rw [checkExpr?]
    apply (agree_checkExpr hr e he h).bind
    intro t t' c d h _ htype
    exact .pure h (.some htype)

theorem agree_checkCondition? (hr : M.Agreeing reread) (e : Option Expr)
    (he : Expr.Every? M.Permits M.strict e) {base : Scope} {c d : Context}
    (h : M.Related base c d) :
    M.Agree base c d Any (checkCondition? reread e c) (checkCondition? reread e d) := by
  match e with
  | none =>
    rw [checkCondition?]
    exact .pure h trivial
  | some e =>
    rw [checkCondition?]
    apply (agree_checkExpr hr e he h).bind
    intro t t' c d h _ htype
    exact agree_expectSame h _ (Ty.same_refl _) htype.same e.start

theorem agree_checkExprs (hr : M.Agreeing reread) (es : List Expr)
    (hes : Expr.EveryOf M.Permits M.strict es) {base : Scope} {c d : Context}
    (h : M.Related base c d) :
    M.Agree base c d Any (checkExprs reread es c) (checkExprs reread es d) := by
  match es with
  | [] =>
    rw [checkExprs]
    exact .pure h trivial
  | e :: es =>
    rw [checkExprs]
    apply (agree_checkExpr hr e hes.1 h).bind
    intro _ _ c d h _ _
    exact agree_checkExprs hr es hes.2 h

theorem agree_checkItems (hr : M.Agreeing reread) {base : Scope} {c d : Context} {item item' : Ty}
    (hitem : M.Alike c.classes d.classes item item') (es : List Expr)
    (hes : Expr.EveryOf M.Permits M.strict es) (h : M.Related base c d) :
    M.Agree base c d Any (checkItems reread item es c) (checkItems reread item' es d) := by
  match es with
  | [] =>
    rw [checkItems, checkItems]
    exact .pure h trivial
  | e :: es =>
    rw [checkItems, checkItems]
    apply (agree_checkExpr hr e hes.1 h).bind
    intro t t' c d h hl hreceived
    apply (agree_expectSame h _ hitem.same hreceived.same e.start).bind
    intro _ _ c d h hl' _
    exact agree_checkItems hr (hitem.mono (hl.trans hl')) es hes.2 h

theorem agree_checkArguments (hr : M.Agreeing reread) {base : Scope} {c d : Context}
    {ps qs : List Ty} (hps : List.Forall₂ (M.Alike c.classes d.classes) ps qs) (es : List Expr)
    (hes : Expr.EveryOf M.Permits M.strict es) (h : M.Related base c d) :
    M.Agree base c d Any (checkArguments reread ps es c) (checkArguments reread qs es d) := by
  match ps, qs, hps, es with
  | [], [], _, es =>
    rw [checkArguments]
    · exact .pure h trivial
    · simp
  | p :: ps, q :: qs, hps, [] =>
    rw [checkArguments, checkArguments]
    · exact .pure h trivial
    · simp
    · simp
  | p :: ps, q :: qs, .cons hp hps, e :: es =>
    rw [checkArguments, checkArguments]
    apply (agree_checkExpr hr e hes.1 h).bind
    intro t t' c d h hl hreceived
    apply (agree_expectSame h _ hp.same hreceived.same e.start).bind
    intro _ _ c d h hl' _
    have hps' := hps.imp fun _ _ ht => Alike.mono ht (hl.trans hl')
    exact agree_checkArguments hr hps' es hes.2 h

theorem agree_checkFields (hr : M.Agreeing reread) (name : String) {base : Scope} {c d : Context}
    {type type' : Ty} (hclass : M.AlikeClass c.classes d.classes type type')
    (fields : List (String × Expr)) (hfields : Expr.EveryOfFields M.Permits M.strict fields)
    (h : M.Related base c d) :
    M.Agree base c d Any (checkFields reread name type fields c)
      (checkFields reread name type' fields d) := by
  match fields with
  | [] =>
    rw [checkFields, checkFields]
    exact .pure h trivial
  | (field, e) :: fields =>
    rw [checkFields, checkFields]
    have hfield := hclass.member? field
    generalize type.member? field = r, type'.member? field = s at hfield
    cases hfield with
    | none => exact .throw h rfl
    | some hexpected =>
      apply (agree_checkExpr hr e hfields.1 h).bind
      intro t t' c d h hl hreceived
      apply (agree_expectSame h _ hexpected.same hreceived.same e.start).bind
      intro _ _ c d h hl' _
      exact agree_checkFields hr name (hclass.mono (hl.trans hl')) fields hfields.2 h

theorem agree_checkStmt (hr : M.Agreeing reread) (s : Stmt) (hs : s.Every M.Permits M.strict)
    {base : Scope} {c d : Context} (h : M.Related base c d) :
    M.Agree base c d Any (checkStmt reread s c) (checkStmt reread s d) := by
  match s with
  | .block (.mk body _) =>
    rw [checkStmt]
    exact agree_checkStmts hr body hs h
  | .expression e _ =>
    rw [checkStmt]
    apply (agree_checkExpr hr e hs h).bind
    intro _ _ c d h _ _
    exact .pure h trivial
  | .varDecl name constant annotation value span =>
    rw [checkStmt]
    apply (agree_resolve? h span.start annotation hs.1).bind
    intro r r' c d h _ hannotated
    apply (agree_checkExpr? hr value hs.2 h).bind
    intro s s' c d h hl hreceived
    apply (agree_variableType h (rel_mono hannotated hl) hreceived _ span.start).bind
    intro t t' c d h _ htype
    exact agree_declare h htype name constant
  | .fnDecl name parameters result (.mk body _) span =>
    rw [checkStmt]
    apply (agree_signature h parameters result span.start hs.1 hs.2.1).bind
    intro s s' c d h _ hsignature
    apply (agree_declare h hsignature.type name true).bind
    intro _ _ c d h hl _
    exact agree_inFunction h (hsignature.mono hl) fun h => agree_checkStmts hr body hs.2.2 h
  | .classDecl name (.mk body bodySpan) _ =>
    rw [checkStmt]
    -- The class is registered three times. Views of it from before stay alike, by its name.
    apply (agree_registerClass h .nil name).bind
    intro _ _ c d h _ _
    apply (agree_annotatedMembers h body hs).bind
    intro ms ns c d h _ hmembers
    apply (agree_registerClass h hmembers name).bind
    intro _ _ c d h _ _
    apply (agree_inClass h ⟨name, .mk body bodySpan⟩ hs fun h => agree_checkStmts hr body hs h).bind
    intro scope scope' c d h _ hscope
    exact agree_registerClass h (hscope.members body) name
  | .branch condition (.mk body _) otherwise _ =>
    rw [checkStmt]
    apply (agree_checkExpr hr condition hs.1 h).bind
    intro t t' c d h _ hcondition
    apply (agree_expectSame h _ (Ty.same_refl _) hcondition.same condition.start).bind
    intro _ _ c d h _ _
    apply (agree_checkStmts hr body hs.2.1 h).bind
    intro _ _ c d h _ _
    exact agree_checkStmt? hr otherwise hs.2.2 h
  | .loop init condition post body _ =>
    rw [checkStmt]
    apply (agree_checkStmt? hr init hs.1 h).bind
    intro _ _ c d h _ _
    apply (agree_checkCondition? hr condition hs.2.1 h).bind
    intro _ _ c d h _ _
    apply (agree_checkExpr? hr post hs.2.2.1 h).bind
    intro _ _ c d h _ _
    exact agree_checkStmt hr body hs.2.2.2 h
  | .ret value span =>
    rw [checkStmt]
    apply (agree_resultType h span.start).bind
    intro t t' c d h _ hexpected
    apply (agree_checkExpr? hr value hs h).bind
    intro r r' c d h _ hreceived
    exact agree_expectSame h _ hexpected.same (rel_getD hreceived).same span.start
  | .importDecl name _ span =>
    rw [checkStmt]
    exact agree_checkImport h hs name span.start

theorem agree_checkStmt? (hr : M.Agreeing reread) (s : Option Stmt)
    (hs : Stmt.Every? M.Permits M.strict s) {base : Scope} {c d : Context}
    (h : M.Related base c d) :
    M.Agree base c d Any (checkStmt? reread s c) (checkStmt? reread s d) := by
  match s with
  | none =>
    rw [checkStmt?]
    exact .pure h trivial
  | some s =>
    rw [checkStmt?]
    exact agree_checkStmt hr s hs h

theorem agree_checkStmts (hr : M.Agreeing reread) (ss : List Stmt)
    (hss : Stmt.EveryOf M.Permits M.strict ss) {base : Scope} {c d : Context}
    (h : M.Related base c d) :
    M.Agree base c d Any (checkStmts reread ss c) (checkStmts reread ss d) := by
  match ss with
  | [] =>
    rw [checkStmts]
    exact .pure h trivial
  | s :: ss =>
    rw [checkStmts]
    apply (agree_checkStmt hr s hss.1 h).bind
    intro _ _ c d h _ _
    exact agree_checkStmts hr ss hss.2 h

end

/-- However deep fields are checked again, the checks agree. -/
theorem agreeing_checkNested (M : Comparison) (n : Nat) : M.Agreeing (checkNested n) := by
  induction n with
  | zero => exact fun _ _ _ _ _ h => .throw h rfl
  | succ n ih => exact fun e he _ _ _ h => agree_checkExpr ih e he h

end Scriptlet.Typing
