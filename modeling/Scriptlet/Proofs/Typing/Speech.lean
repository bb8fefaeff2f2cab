import Scriptlet.Proofs.Syntax.Inner
import Scriptlet.Proofs.Typing.Vocabulary

namespace Scriptlet.Typing.Vocabulary

variable {α : Type} {v : Vocabulary} {around : Classes}

/-- An expression that is checked once more keeps to the vocabulary too. -/
abbrev Rereads (v : Vocabulary) (around : Classes) (reread : Expr → Check Ty) : Prop :=
  ∀ e, v.AdmitsExpr e → v.Speaks around v.type (reread e)

section Tree

variable {reread : Expr → Check Ty}

/-- A member of the class around is checked as its declaration there, which is in the vocabulary. -/
theorem speaks_checkOwnMember (hr : v.Rereads around reread) (property : String)
    (object span : Span) : v.Speaks around v.type (checkOwnMember reread property object span) := by
  apply speaks_get
  intro c hc
  cases hopened : c.enclosing with
  | none => exact speaks_fail rfl
  | some opened =>
    dsimp only
    cases hfind : opened.body.body.find? (memberName? · == some property) with
    | none => exact speaks_fail rfl
    | some s =>
      obtain ⟨hannotations, hclasses⟩ := hc.body opened hopened
      have hmem := List.mem_of_find?_eq_some hfind
      have hs := Stmt.everyOf_iff.mp hannotations s hmem
      obtain ⟨hself, hinner⟩ := List.forall_mem_cons.mp (Stmt.forall_nodes.mp hclasses s hmem)
      match s with
      | .varDecl _ _ (some type) _ _ => exact speaks_resolve _ type (hs.1 type rfl)
      | .varDecl _ _ none (some value) _ => exact hr value ⟨hs.2, hinner⟩
      | .varDecl _ _ none none _ =>
        exact speaks_valueMissing fun hv => by simpa [Stmt.Valued] using hself.valued hv
      | .fnDecl _ parameters result (.mk _ _) _ =>
        apply (speaks_signature parameters result _ hs.1 hs.2.1).bind
        intro s hs
        exact speaks_pure hs.type
      | .block _ | .expression .. | .classDecl .. | .branch .. | .loop .. | .ret ..
      | .importDecl .. => exact speaks_fail rfl

-- One case for each kind of node. What is checked first has a type of the vocabulary, and so what
-- is expected of the parts behind it.
mutual

theorem speaks_checkExpr (hr : v.Rereads around reread) (e : Expr) (h : v.AdmitsExpr e) :
    v.Speaks around v.type (checkExpr reread e) := by
  obtain ⟨ha, hd⟩ := h
  match e with
  | .int .. =>
    rw [checkExpr]
    exact speaks_pure (v.primitive "int" (by decide))
  | .float .. =>
    rw [checkExpr]
    exact speaks_pure (v.primitive "float" (by decide))
  | .string .. =>
    rw [checkExpr]
    exact speaks_pure (v.primitive "string" (by decide))
  | .bool .. =>
    rw [checkExpr]
    exact speaks_pure (v.primitive "bool" (by decide))
  | .symbol name span =>
    rw [checkExpr]
    split
    · apply speaks_get
      intro c hc
      split
      · exact speaks_classType _ _
      · exact speaks_fail rfl
    · apply (speaks_symbol _ _).bind
      intro s hs
      exact speaks_pure hs
  | .binary operator left right span =>
    rw [Expr.inner, List.forall_mem_append] at hd
    rw [checkExpr]
    apply (speaks_checkExpr hr left ⟨ha.1, hd.1⟩).bind
    intro first hfirst
    apply (speaks_checkExpr hr right ⟨ha.2, hd.2⟩).bind
    intro second hsecond
    apply (speaks_expectType hfirst hsecond _).bind
    intro _ _
    apply speaks_pure
    split
    · exact v.primitive "bool" (by decide)
    · exact hfirst
  | .unary operator operand span =>
    rw [checkExpr]
    apply (speaks_checkExpr hr operand ⟨ha, hd⟩).bind
    intro type htype
    apply (speaks_checkUnary operator htype _).bind
    intro _ _
    exact speaks_pure htype
  | .assign operator target value span =>
    rw [Expr.inner, List.forall_mem_append] at hd
    rw [checkExpr]
    apply (speaks_checkTarget target).bind
    intro _ _
    apply (speaks_checkExpr hr target ⟨ha.1, hd.1⟩).bind
    intro expected hexpected
    apply (speaks_checkExpr hr value ⟨ha.2, hd.2⟩).bind
    intro received hreceived
    apply (speaks_expectType hexpected hreceived _).bind
    intro _ _
    exact speaks_pure hexpected
  | .member object property span =>
    -- The type of a member of `this` may come from a value that is checked again. Any other object
    -- has its members in its type.
    rcases own_or_of_value object property span with ⟨s, rfl⟩ | heq
    · rw [checkExpr]
      exact speaks_checkOwnMember hr property s span
    · rw [heq]
      apply (speaks_checkExpr hr object ⟨ha, hd⟩).bind
      intro type htype
      exact speaks_checkMember htype property _ span
  | .index object position span =>
    rw [Expr.inner, List.forall_mem_append] at hd
    rw [checkExpr]
    apply (speaks_checkExpr hr object ⟨ha.1, hd.1⟩).bind
    intro type htype
    split
    · apply (speaks_checkExpr hr position ⟨ha.2, hd.2⟩).bind
      intro received hreceived
      apply (speaks_expectType (v.primitive "int" (by decide)) hreceived _).bind
      intro _ _
      exact speaks_pure (v.list.mp htype)
    · exact speaks_fail rfl
  | .call callee arguments span =>
    rw [Expr.inner, List.forall_mem_append] at hd
    rw [checkExpr]
    apply (speaks_checkExpr hr callee ⟨ha.1, hd.1⟩).bind
    intro type htype
    split
    · obtain ⟨hparameters, hresult⟩ := v.function.mp htype
      apply (speaks_checkCount _ arguments span).bind
      intro _ _
      apply (speaks_checkArguments hr _ hparameters arguments ⟨ha.2, hd.2⟩).bind
      intro _ _
      exact speaks_pure hresult
    · exact speaks_fail rfl
  | .range lower upper span =>
    rw [Expr.inner, List.forall_mem_append] at hd
    have hint : v.type .int := v.primitive "int" (by decide)
    rw [checkExpr]
    apply (speaks_checkExpr hr lower ⟨ha.1, hd.1⟩).bind
    intro first hfirst
    apply (speaks_expectType hint hfirst _).bind
    intro _ _
    apply (speaks_checkExpr hr upper ⟨ha.2, hd.2⟩).bind
    intro second hsecond
    apply (speaks_expectType hint hsecond _).bind
    intro _ _
    exact speaks_pure (v.list.mpr hint)
  | .function parameters result body span =>
    obtain ⟨hparameters, hresult, hbody⟩ := ha
    rw [checkExpr]
    apply (speaks_signature parameters result _ hparameters hresult).bind
    intro s hs
    apply ((speaks_checkStmts hr body ⟨hbody, hd⟩).inFunction hs).bind
    intro _ _
    exact speaks_pure hs.type
  | .array [] span =>
    rw [checkExpr]
    exact speaks_fail rfl
  | .array (first :: rest) span =>
    rw [Expr.inner, Expr.innerAll, List.forall_mem_append] at hd
    rw [checkExpr]
    apply (speaks_checkExpr hr first ⟨ha.1, hd.1⟩).bind
    intro item hitem
    apply (speaks_checkItems hr hitem rest ⟨ha.2, hd.2⟩).bind
    intro _ _
    exact speaks_pure (v.list.mpr hitem)
  | .arrayOf item items span =>
    rw [checkExpr]
    apply (speaks_resolve _ item ha.1).bind
    intro item hitem
    apply (speaks_checkItems hr hitem items ⟨ha.2, hd⟩).bind
    intro _ _
    exact speaks_pure (v.list.mpr hitem)
  | .structOf name fields span =>
    rw [checkExpr]
    apply (speaks_classType name _).bind
    intro type htype
    apply (speaks_checkFields hr name htype fields ⟨ha, hd⟩).bind
    intro _ _
    exact speaks_pure htype
  | .construct name arguments span =>
    rw [checkExpr]
    apply (speaks_classType name _).bind
    intro type htype
    apply (speaks_checkExprs hr arguments ⟨ha, hd⟩).bind
    intro _ _
    exact speaks_pure htype

theorem speaks_checkExpr? (hr : v.Rereads around reread) (e : Option Expr) (h : v.AdmitsExpr? e) :
    v.Speaks around (fun r => (∀ u ∈ r, v.type u) ∧ r.isSome = e.isSome)
      (checkExpr? reread e) := by
  match e with
  | none =>
    rw [checkExpr?]
    exact speaks_pure (by simp)
  | some e =>
    rw [checkExpr?]
    apply (speaks_checkExpr hr e h).bind
    intro t ht
    refine speaks_pure ⟨?_, rfl⟩
    rintro _ ⟨⟩
    exact ht

theorem speaks_checkCondition? (hr : v.Rereads around reread) (e : Option Expr)
    (h : v.AdmitsExpr? e) : v.Speaks around Any (checkCondition? reread e) := by
  match e with
  | none =>
    rw [checkCondition?]
    exact speaks_pure trivial
  | some e =>
    rw [checkCondition?]
    apply (speaks_checkExpr hr e h).bind
    intro type _
    exact speaks_expectCondition type _

theorem speaks_checkExprs (hr : v.Rereads around reread) (es : List Expr) (h : v.AdmitsExprs es) :
    v.Speaks around Any (checkExprs reread es) := by
  obtain ⟨ha, hd⟩ := h
  match es with
  | [] =>
    rw [checkExprs]
    exact speaks_pure trivial
  | e :: es =>
    rw [Expr.innerAll, List.forall_mem_append] at hd
    rw [checkExprs]
    apply (speaks_checkExpr hr e ⟨ha.1, hd.1⟩).bind
    intro _ _
    exact speaks_checkExprs hr es ⟨ha.2, hd.2⟩

theorem speaks_checkItems (hr : v.Rereads around reread) {item : Ty} (hitem : v.type item)
    (es : List Expr) (h : v.AdmitsExprs es) : v.Speaks around Any (checkItems reread item es) := by
  obtain ⟨ha, hd⟩ := h
  match es with
  | [] =>
    rw [checkItems]
    exact speaks_pure trivial
  | e :: es =>
    rw [Expr.innerAll, List.forall_mem_append] at hd
    rw [checkItems]
    apply (speaks_checkExpr hr e ⟨ha.1, hd.1⟩).bind
    intro received hreceived
    apply (speaks_expectType hitem hreceived _).bind
    intro _ _
    exact speaks_checkItems hr hitem es ⟨ha.2, hd.2⟩

theorem speaks_checkArguments (hr : v.Rereads around reread) (parameters : List Ty)
    (hparameters : ∀ t ∈ parameters, v.type t) (es : List Expr) (h : v.AdmitsExprs es) :
    v.Speaks around Any (checkArguments reread parameters es) := by
  obtain ⟨ha, hd⟩ := h
  match parameters, es with
  | expected :: parameters, e :: es =>
    rw [List.forall_mem_cons] at hparameters
    rw [Expr.innerAll, List.forall_mem_append] at hd
    rw [checkArguments]
    apply (speaks_checkExpr hr e ⟨ha.1, hd.1⟩).bind
    intro received hreceived
    apply (speaks_expectSame (fun _ _ => rfl) hparameters.1 hreceived _).bind
    intro _ _
    exact speaks_checkArguments hr parameters hparameters.2 es ⟨ha.2, hd.2⟩
  | [], _ =>
    rw [checkArguments]
    · exact speaks_pure trivial
    · simp
  | _ :: _, [] =>
    rw [checkArguments]
    · exact speaks_pure trivial
    · simp

theorem speaks_checkFields (hr : v.Rereads around reread) (name : String) {type : Ty}
    (htype : v.type type) (fields : List (String × Expr)) (h : v.AdmitsFields fields) :
    v.Speaks around Any (checkFields reread name type fields) := by
  obtain ⟨ha, hd⟩ := h
  match fields with
  | [] =>
    rw [checkFields]
    exact speaks_pure trivial
  | (field, e) :: fields =>
    rw [Expr.innerFields, List.forall_mem_append] at hd
    rw [checkFields]
    split
    · exact speaks_fail rfl
    · rename_i expected hexpected
      apply (speaks_checkExpr hr e ⟨ha.1, hd.1⟩).bind
      intro received hreceived
      apply (speaks_expectSame (fun _ _ => rfl) (type_of_member? htype hexpected) hreceived _).bind
      intro _ _
      exact speaks_checkFields hr name htype fields ⟨ha.2, hd.2⟩

theorem speaks_checkStmt (hr : v.Rereads around reread) (s : Stmt) (h : v.AdmitsStmt s) :
    v.Speaks around Any (checkStmt reread s) := by
  obtain ⟨ha, hd⟩ := h
  obtain ⟨hself, hd⟩ := List.forall_mem_cons.mp hd
  match s with
  | .block (.mk body _) =>
    rw [checkStmt]
    exact speaks_checkStmts hr body ⟨ha, hd⟩
  | .expression e _ =>
    rw [checkStmt]
    apply (speaks_checkExpr hr e ⟨ha, hd⟩).bind
    intro _ _
    exact speaks_pure trivial
  | .varDecl name constant annotation value span =>
    rw [checkStmt]
    apply (speaks_resolve? _ annotation ha.1).bind
    rintro annotated ⟨hannotated, hgiven⟩
    apply (speaks_checkExpr? hr value ⟨ha.2, hd⟩).bind
    rintro received ⟨hreceived, hfound⟩
    -- Where every declaration is valued, the annotation or the value has given a type.
    have hvalued : v.valued → annotated.isSome ∨ received.isSome := by
      rw [hgiven, hfound]
      exact hself.valued
    apply (speaks_variableType hannotated hreceived hvalued _ _).bind
    intro type htype
    exact speaks_declare name htype constant
  | .fnDecl name parameters result (.mk body _) span =>
    obtain ⟨hparameters, hresult, hbody⟩ := ha
    rw [checkStmt]
    apply (speaks_signature parameters result _ hparameters hresult).bind
    intro s hs
    apply (speaks_declare name hs.type true).bind
    intro _ _
    exact (speaks_checkStmts hr body ⟨hbody, hd⟩).inFunction hs
  | .classDecl name (.mk body bodySpan) _ =>
    have hname : v.declares name := hself.declares name rfl
    have hbody : v.AdmitsStmts body := ⟨ha, hd⟩
    -- It is registered three times: empty, with its annotated members, and with what the body leaves.
    rw [checkStmt]
    apply (speaks_registerClass hname (List.forall_mem_nil _)).bind
    intro _ _
    apply (speaks_annotatedMembers body ha).bind
    intro annotated hannotated
    apply (speaks_registerClass hname hannotated).bind
    intro _ _
    apply ((speaks_checkStmts hr body hbody).inClass ⟨name, .mk body bodySpan⟩ hbody).bind
    intro scope hscope
    apply speaks_registerClass hname
    intro m hm
    obtain ⟨f, -, hm⟩ := List.mem_filterMap.mp hm
    obtain ⟨symbol, hsymbol, rfl⟩ := Option.map_eq_some_iff.mp hm
    exact hscope f symbol hsymbol
  | .branch condition (.mk body _) otherwise _ =>
    obtain ⟨hcondition, hbody, hotherwise⟩ := ha
    rw [Stmt.inner, List.forall_mem_append, List.forall_mem_append] at hd
    rw [checkStmt]
    apply (speaks_checkExpr hr condition ⟨hcondition, hd.1⟩).bind
    intro type _
    apply (speaks_expectCondition type _).bind
    intro _ _
    apply (speaks_checkStmts hr body ⟨hbody, hd.2.1⟩).bind
    intro _ _
    exact speaks_checkStmt? hr otherwise ⟨hotherwise, hd.2.2⟩
  | .loop init condition post body _ =>
    obtain ⟨hinit, hcondition, hpost, hbody⟩ := ha
    simp only [Stmt.inner, List.forall_mem_append] at hd
    obtain ⟨hdinit, hdcondition, hdpost, hdbody⟩ := hd
    rw [checkStmt]
    apply (speaks_checkStmt? hr init ⟨hinit, hdinit⟩).bind
    intro _ _
    apply (speaks_checkCondition? hr condition ⟨hcondition, hdcondition⟩).bind
    intro _ _
    apply (speaks_checkExpr? hr post ⟨hpost, hdpost⟩).bind
    intro _ _
    exact speaks_checkStmt hr body ⟨hbody, hdbody⟩
  | .ret value span =>
    rw [checkStmt]
    apply (speaks_resultType _).bind
    intro expected hexpected
    apply (speaks_checkExpr? hr value ⟨ha, hd⟩).bind
    rintro received ⟨hreceived, -⟩
    apply speaks_expectSame (fun _ _ => rfl) hexpected
    cases received with
    | none => exact v.primitive "void" (by decide)
    | some t => exact hreceived t rfl
  | .importDecl name _ span =>
    rw [checkStmt]
    exact speaks_checkImport name _

theorem speaks_checkStmt? (hr : v.Rereads around reread) (s : Option Stmt) (h : v.AdmitsStmt? s) :
    v.Speaks around Any (checkStmt? reread s) := by
  match s with
  | none =>
    rw [checkStmt?]
    exact speaks_pure trivial
  | some s =>
    rw [checkStmt?]
    exact speaks_checkStmt hr s h

theorem speaks_checkStmts (hr : v.Rereads around reread) (ss : List Stmt) (h : v.AdmitsStmts ss) :
    v.Speaks around Any (checkStmts reread ss) := by
  obtain ⟨ha, hd⟩ := h
  match ss with
  | [] =>
    rw [checkStmts]
    exact speaks_pure trivial
  | s :: ss =>
    rw [Stmt.nodes, ← List.cons_append, List.forall_mem_append] at hd
    rw [checkStmts]
    apply (speaks_checkStmt hr s ⟨ha.1, hd.1⟩).bind
    intro _ _
    exact speaks_checkStmts hr ss ⟨ha.2, hd.2⟩

end

/-- However deep fields are checked again, the check keeps to the vocabulary. -/
theorem speaks_checkNested (n : Nat) (e : Expr) (h : v.AdmitsExpr e) :
    v.Speaks around v.type (checkNested n e) := by
  induction n generalizing e with
  | zero => exact speaks_fail rfl
  | succ n ih => exact speaks_checkExpr ih e h

end Tree

end Scriptlet.Typing.Vocabulary
