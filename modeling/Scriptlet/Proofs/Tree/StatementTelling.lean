import Scriptlet.Proofs.Tree.ExpressionTelling

namespace Scriptlet

open Text

namespace Stmt

variable {r s : List Char} {span : Span} {a b : Stmt}

/-- The statements are of one sort. -/
inductive Alike : Stmt → Stmt → Prop
  | block {body body'} : Alike (.block body) (.block body')
  | expression {e e' span span'} : Alike (.expression e span) (.expression e' span')
  | varDecl {name constant type value span name' type' value' span'} :
    Alike (.varDecl name constant type value span) (.varDecl name' constant type' value' span')
  | fnDecl {name parameters result body span name' parameters' result' body' span'} :
    Alike (.fnDecl name parameters result body span)
      (.fnDecl name' parameters' result' body' span')
  | classDecl {name body span name' body' span'} :
    Alike (.classDecl name body span) (.classDecl name' body' span')
  | branch {condition body otherwise span condition' body' otherwise' span'} :
    Alike (.branch condition body otherwise span) (.branch condition' body' otherwise' span')
  | loop {init condition post body span init' condition' post' body' span'} :
    Alike (.loop init condition post body span) (.loop init' condition' post' body' span')
  | ret {value span value' span'} : Alike (.ret value span) (.ret value' span')
  | importDecl {name source span name' source' span'} :
    Alike (.importDecl name source span) (.importDecl name' source' span')

/-- Only an expression has the form of one. -/
theorem exists_expression {e : Expr} (h : a.form = e.form) : ∃ e' span, a = .expression e' span := by
  cases a with
  | expression e' span => exact ⟨e', span, rfl⟩
  | varDecl _ constant => cases constant <;> cases e <;> cases h
  | _ => cases e <;> cases h

/-- The form shows the sort of the statement. -/
theorem alike_of_form (h : a.form = b.form) : Alike a b := by
  cases b with
  | expression e span =>
    obtain ⟨e', span', rfl⟩ := exists_expression h
    exact .expression
  | varDecl _ constant =>
    cases a with
    | expression e span =>
      obtain ⟨_, _, heq⟩ := exists_expression h.symm
      cases heq
    | varDecl _ constant' =>
      cases constant <;> cases constant' <;> first | exact .varDecl | cases h
    | _ => cases constant <;> cases h
  | _ =>
    cases a with
    | expression e span =>
      obtain ⟨_, _, heq⟩ := exists_expression h.symm
      cases heq
    | varDecl _ constant => cases constant <;> cases h
    | _ => first | constructor | cases h

/-- What begins alike is of one sort. -/
theorem alike (ha : script.legible a) (hb : script.legible b)
    (h : script.text a ++ r = script.text b ++ s) : Alike a b :=
  alike_of_form (by rw [← of_text ha, h, of_text hb])

section Kinds

/-- No statement begins with the brace that ends a block. -/
theorem stops_brace (r : List Char) : script.Stops (' ' :: '\x7d' :: r) where
  ends := ends_cons (by decide) _
  stops b s hb _ h := by
    have hother : Form.of ('\x7d' :: r) = .other := rfl
    rw [(List.cons.inj h).2, of_text hb] at hother
    exact b.form_ne_other hother

theorem tells_block {body : List Stmt} (ha : script.legible (.block (.mk body span)))
    (ih : ∀ m ∈ (Node.statement (.block (.mk body span))).parts, m.Tells) :
    script.Tells (.block (.mk body span)) := by
  intro b r s hb hr hs h
  cases alike ha hb h with
  | @block _ body' =>
  obtain ⟨body', span'⟩ := body'
  simp only [script_block, List.append_assoc, List.cons_append, List.nil_append, List.cons.injEq,
    true_and] at h
  obtain ⟨hbody, hrs⟩ := Script.spread_append_inj
    (fun s hs => ha.part (.statement s) (List.mem_map_of_mem hs))
    (fun s hs => hb.part (.statement s) (List.mem_map_of_mem hs))
    (fun s hs => ih (.statement s) (List.mem_map_of_mem hs)) (stops_brace r) (stops_brace s) h
  refine ⟨?_, (List.cons.inj (List.cons.inj hrs).2).2⟩
  calc (block (.mk body span)).unplaced
    _ = block (.mk (body.map unplaced) _) := congrArg block (Block.respan_mk ..)
    _ = block (.mk (body'.map unplaced) _) := congrArg (fun ss => block (.mk ss _)) hbody
    _ = (block (.mk body' span')).unplaced := congrArg block (Block.respan_mk ..).symm

theorem tells_expression {e : Expr} (ha : script.legible (.expression e span))
    (ih : ∀ m ∈ (Node.statement (.expression e span)).parts, m.Tells) :
    script.Tells (.expression e span) := by
  intro b r s hb hr hs h
  cases alike ha hb h
  simp only [script_expression, List.append_assoc, List.cons_append, List.nil_append] at h
  obtain ⟨he, hrs⟩ := ih _ List.mem_cons_self (hb.part _ List.mem_cons_self)
    (ends_cons (by decide) r) (ends_cons (by decide) s) h
  exact ⟨congrArg (expression · _) he, (List.cons.inj hrs).2⟩

theorem tells_varDecl {name : String} {constant : Bool} {type : Option Ty} {value : Option Expr}
    (ha : script.legible (.varDecl name constant type value span))
    (ih : ∀ m ∈ (Node.statement (.varDecl name constant type value span)).parts, m.Tells) :
    script.Tells (.varDecl name constant type value span) := by
  intro b r s hb hr hs h
  cases alike ha hb h with
  | @varDecl _ _ _ _ _ name' type' value' span' =>
  simp only [script_varDecl, List.append_assoc, List.cons_append, List.nil_append,
    List.append_cancel_left_eq] at h
  obtain ⟨hname, htype⟩ := ha.self.legible
  obtain ⟨hname', htype'⟩ := hb.self.legible
  obtain ⟨rfl, hannotated⟩ := Ty.word_append_inj hname hname'.isWordRest
    (annotated_isWordRest _ (Script.ends_row value.toList r))
    (annotated_isWordRest _ (Script.ends_row value'.toList s)) h
  obtain ⟨rfl, hrest⟩ := annotated_append_inj htype htype' (Script.ends_row value.toList r)
    (Script.ends_row value'.toList s) hannotated
  obtain ⟨hvalue, hrs⟩ := Script.optional_inj (by decide) (by decide)
    (fun e he => ha.part (.expression e) (List.mem_map_of_mem he))
    (fun e he => hb.part (.expression e) (List.mem_map_of_mem he))
    (fun e he => ih (.expression e) (List.mem_map_of_mem he)) hrest
  refine ⟨?_, hrs⟩
  calc (varDecl name constant type value span).unplaced
    _ = varDecl name constant type (value.map Expr.unplaced) _ := respan_varDecl ..
    _ = varDecl name constant type (value'.map Expr.unplaced) _ :=
      congrArg (varDecl name constant type · _) hvalue
    _ = (varDecl name constant type value' span').unplaced := (respan_varDecl ..).symm

/-- The body of a declaration, which is a block, is told as one. -/
theorem body_inj {body body' : Block} (hbody : script.Tells (.block body))
    (hbody' : script.legible (.block body')) (hr : Ends r) (hs : Ends s)
    (h : script.spread [.block body] ++ r = script.spread [.block body'] ++ s) :
    body.unplaced = body'.unplaced ∧ r = s := by
  obtain ⟨heq, hrs⟩ := Script.singleton_append_inj hbody hbody' hr hs h
  exact ⟨Stmt.block.inj heq, hrs⟩

theorem tells_fnDecl {name : String} {parameters : List Parameter} {result : Option Ty}
    {body : Block} (ha : script.legible (.fnDecl name parameters result body span))
    (ih : ∀ m ∈ (Node.statement (.fnDecl name parameters result body span)).parts, m.Tells) :
    script.Tells (.fnDecl name parameters result body span) := by
  intro b r s hb hr hs h
  cases alike ha hb h with
  | @fnDecl _ _ _ _ _ name' parameters' result' body' span' =>
  simp only [script_fnDecl, List.append_assoc, List.cons_append, List.nil_append,
    List.append_cancel_left_eq] at h
  obtain ⟨hname, hparameters, hresult⟩ := ha.self.legible
  obtain ⟨hname', hparameters', hresult'⟩ := hb.self.legible
  obtain ⟨rfl, hsignature⟩ :=
    name_append_inj hname hname' (ends_cons (by decide) _) (ends_cons (by decide) _) h
  obtain ⟨rfl, rfl, hrest⟩ := signature_append_inj hparameters hparameters' hresult hresult'
    (Script.ends_row _ r) (Script.ends_row _ s) (List.cons.inj hsignature).2
  obtain ⟨hbody, hrs⟩ := body_inj (ih _ List.mem_cons_self) (hb.part _ List.mem_cons_self)
    (ends_cons (by decide) r) (ends_cons (by decide) s) hrest
  exact ⟨congrArg (fnDecl name parameters result · _) hbody, (List.cons.inj hrs).2⟩

theorem tells_classDecl {name : String} {body : Block}
    (ha : script.legible (.classDecl name body span))
    (ih : ∀ m ∈ (Node.statement (.classDecl name body span)).parts, m.Tells) :
    script.Tells (.classDecl name body span) := by
  intro b r s hb hr hs h
  cases alike ha hb h with
  | @classDecl _ _ _ name' body' span' =>
  simp only [script_classDecl, List.append_assoc, List.cons_append, List.nil_append,
    List.append_cancel_left_eq] at h
  obtain ⟨rfl, hrest⟩ := name_append_inj ha.self.legible hb.self.legible
    (Script.ends_row _ r) (Script.ends_row _ s) h
  obtain ⟨hbody, hrs⟩ := body_inj (ih _ List.mem_cons_self) (hb.part _ List.mem_cons_self)
    (ends_cons (by decide) r) (ends_cons (by decide) s) hrest
  exact ⟨congrArg (classDecl name · _) hbody, (List.cons.inj hrs).2⟩

section Branches

theorem ends_alternative (otherwise : Option Stmt) (r : List Char) :
    Ends (alternative otherwise ++ ')' :: r) := by
  cases otherwise with
  | none => exact ends_cons (by decide) r
  | some a => exact ends_cons (by decide) _

/-- What stands behind `else` ends with the branch. -/
theorem alternative_append_inj {o o' : Option Stmt} (htells : ∀ a ∈ o, script.Tells a)
    (ho' : ∀ a ∈ o', script.legible a)
    (h : alternative o ++ ')' :: r = alternative o' ++ ')' :: s) :
    o.map unplaced = o'.map unplaced ∧ r = s := by
  cases o with
  | none =>
    cases o' with
    | none => exact ⟨rfl, (List.cons.inj h).2⟩
    | some b => exact absurd (List.cons.inj h).1 (by decide)
  | some a =>
    cases o' with
    | none => exact absurd (List.cons.inj h).1 (by decide)
    | some b =>
      simp only [alternative, Option.toList_some, List.flatMap_singleton, List.append_assoc,
        List.append_cancel_left_eq] at h
      obtain ⟨hab, hrs⟩ :=
        htells a rfl (ho' b rfl) (ends_cons (by decide) r) (ends_cons (by decide) s) h
      exact ⟨congrArg some hab, (List.cons.inj hrs).2⟩

theorem tells_branch {condition : Expr} {body : Block} {otherwise : Option Stmt}
    (ha : script.legible (.branch condition body otherwise span))
    (ih : ∀ m ∈ (Node.statement (.branch condition body otherwise span)).parts, m.Tells) :
    script.Tells (.branch condition body otherwise span) := by
  intro b r s hb hr hs h
  cases alike ha hb h with
  | @branch _ _ _ _ condition' body' otherwise' span' =>
  simp only [script_branch, List.append_assoc, List.cons_append, List.nil_append,
    List.append_cancel_left_eq] at h
  obtain ⟨hcondition, hthen⟩ := Script.singleton_append_inj (ih _ List.mem_cons_self)
    (hb.part _ List.mem_cons_self) (Script.ends_spread_cons _ _ _) (Script.ends_spread_cons _ _ _) h
  obtain ⟨hbody, hrest⟩ := body_inj (ih _ (List.mem_cons_of_mem _ List.mem_cons_self))
    (hb.part _ (List.mem_cons_of_mem _ List.mem_cons_self)) (ends_alternative otherwise r)
    (ends_alternative otherwise' s) hthen
  obtain ⟨hotherwise, hrs⟩ := alternative_append_inj
    (fun a ha => ih (.statement a) (by cases ha; simp [Node.parts]))
    (fun a ha => hb.part (.statement a) (by cases ha; simp [Node.parts])) hrest
  refine ⟨?_, hrs⟩
  calc (branch condition body otherwise span).unplaced
    _ = branch condition.unplaced body.unplaced (otherwise.map unplaced) _ := respan_branch ..
    _ = branch condition'.unplaced body'.unplaced (otherwise'.map unplaced) _ := by
      rw [show condition.unplaced = condition'.unplaced from hcondition, hbody, hotherwise]
    _ = (branch condition' body' otherwise' span').unplaced := (respan_branch ..).symm

end Branches

section Loops

/-- What is written where a clause is missing. -/
theorem legible_blank : Expr.script.legible (clause none) := by
  have hword : Lexeme.IsWord "_" := ⟨by decide, List.all_eq_true.mp (by decide)⟩
  have hsymbol : Lexeme.IsSymbol "_" := ⟨hword, by rintro _ ⟨⟩; rfl, by decide, by decide⟩
  exact .mk ⟨hsymbol, rfl⟩ (List.forall_mem_nil _)

theorem tells_blank : Expr.script.Tells (clause none) := Expr.tells_symbol "_" legible_blank

/-- No statement is written like the missing one: even the name ends with a semicolon there. -/
theorem text_blank_ne {e : Expr} (ha : script.legible a) :
    Expr.script.text (clause none) ++ (Expr.script.spread [e] ++ r) ≠ script.text a ++ s := by
  intro h
  have hspace := Script.ends_spread_cons (w := Expr.script) e [] r
  have hform : a.form = (clause none).form := by
    rw [← of_text ha, ← h, Expr.of_text legible_blank.self hspace]
  obtain ⟨e', span, rfl⟩ := exists_expression hform
  rw [script_expression, List.append_assoc] at h
  obtain ⟨-, hrest⟩ :=
    tells_blank (ha.part _ List.mem_cons_self) hspace (ends_cons (by decide) _) h
  exact absurd (List.cons.inj hrest).1 (by decide)

/-- The first clause of a loop can be told. -/
theorem initial_append_inj {init init' : Option Stmt} {e e' : Expr}
    (hinit : ∀ a ∈ init, script.legible a) (hinit' : ∀ a ∈ init', script.legible a)
    (htells : ∀ a ∈ init, script.Tells a)
    (h : initial init ++ (Expr.script.spread [e] ++ r) =
      initial init' ++ (Expr.script.spread [e'] ++ s)) :
    init.map unplaced = init'.map unplaced ∧
      Expr.script.spread [e] ++ r = Expr.script.spread [e'] ++ s := by
  cases init with
  | none =>
    cases init' with
    | none => exact ⟨rfl, List.append_cancel_left h⟩
    | some b => exact absurd h (text_blank_ne (hinit' b rfl))
  | some a =>
    cases init' with
    | none => exact absurd h.symm (text_blank_ne (hinit a rfl))
    | some b =>
      obtain ⟨hab, hrest⟩ := htells a rfl (hinit' b rfl) (Script.ends_spread_cons e [] r)
        (Script.ends_spread_cons e' [] s) h
      exact ⟨congrArg some hab, hrest⟩

theorem isBlank_of_unplaced {e : Expr} (h : (clause none).unplaced = e.unplaced) :
    e.isBlank = true := by
  cases e with
  | symbol name span =>
    cases h
    rfl
  | _ => cases h

/-- A clause that may be missing can be told, as the name for a missing one stands for no other. -/
theorem clause_append_inj {e e' : Option Expr} (he' : ∀ x ∈ e', Expr.script.legible x)
    (htells : ∀ x ∈ e, Expr.script.Tells x) (hblank : e.any Expr.isBlank = false)
    (hblank' : e'.any Expr.isBlank = false) (hr : Ends r) (hs : Ends s)
    (h : Expr.script.spread [clause e] ++ r = Expr.script.spread [clause e'] ++ s) :
    e.map Expr.unplaced = e'.map Expr.unplaced ∧ r = s := by
  have hclause : Expr.script.Tells (clause e) := by
    cases e with
    | none => exact tells_blank
    | some x => exact htells x rfl
  have hclause' : Expr.script.legible (clause e') := by
    cases e' with
    | none => exact legible_blank
    | some x => exact he' x rfl
  obtain ⟨heq, hrs⟩ := Script.singleton_append_inj hclause hclause' hr hs h
  refine ⟨?_, hrs⟩
  cases e with
  | none =>
    cases e' with
    | none => rfl
    | some x => exact absurd (isBlank_of_unplaced heq) (Bool.eq_false_iff.mp hblank')
  | some x =>
    cases e' with
    | none => exact absurd (isBlank_of_unplaced heq.symm) (Bool.eq_false_iff.mp hblank)
    | some y => exact congrArg some heq

theorem forall_parts_loop {P : Node → Prop} {init : Option Stmt} {condition post : Option Expr}
    {body : Stmt}
    (h : ∀ m ∈ (Node.statement (.loop init condition post body span)).parts, P m) :
    (∀ a ∈ init, P (.statement a)) ∧ (∀ e ∈ condition, P (.expression e)) ∧
      (∀ e ∈ post, P (.expression e)) ∧ P (.statement body) := by
  obtain ⟨hinit, h⟩ := List.forall_mem_append.mp h
  obtain ⟨hcondition, h⟩ := List.forall_mem_append.mp h
  obtain ⟨hpost, hbody⟩ := List.forall_mem_append.mp h
  simp only [List.forall_mem_map, Option.mem_toList] at hinit hcondition hpost
  exact ⟨hinit, hcondition, hpost, List.forall_mem_singleton.mp hbody⟩

theorem any_isBlank_of_distinct {init : Option Stmt} {condition post : Option Expr} {body : Stmt}
    (h : (Node.statement (.loop init condition post body span)).Distinct) :
    condition.any Expr.isBlank = false ∧ post.any Expr.isBlank = false := by
  have hclear := h.clear
  rwa [Node.isClear, hasBlankClause, Bool.not_eq_true', Bool.or_eq_false_iff] at hclear

theorem tells_loop {init : Option Stmt} {condition post : Option Expr} {body : Stmt}
    (ha : script.legible (.loop init condition post body span))
    (ih : ∀ m ∈ (Node.statement (.loop init condition post body span)).parts, m.Tells) :
    script.Tells (.loop init condition post body span) := by
  intro b r s hb hr hs h
  cases alike ha hb h with
  | @loop _ _ _ _ _ init' condition' post' body' span' =>
  simp only [script_loop, List.append_assoc, List.cons_append, List.nil_append,
    List.append_cancel_left_eq] at h
  obtain ⟨hinit, -, -, -⟩ := forall_parts_loop ha.part
  obtain ⟨hinit', hcondition', hpost', hbody'⟩ := forall_parts_loop hb.part
  obtain ⟨ihinit, ihcondition, ihpost, ihbody⟩ := forall_parts_loop ih
  obtain ⟨hblank, hblank'⟩ := any_isBlank_of_distinct ha.self
  obtain ⟨hblank₁, hblank₁'⟩ := any_isBlank_of_distinct hb.self
  -- Each clause is told in front of the next, and the body in front of the parenthesis.
  obtain ⟨hfirst, h⟩ := initial_append_inj hinit hinit' ihinit h
  obtain ⟨hsecond, h⟩ := clause_append_inj hcondition' ihcondition hblank hblank₁
    (Script.ends_spread_cons _ _ _) (Script.ends_spread_cons _ _ _) h
  obtain ⟨hthird, h⟩ := clause_append_inj hpost' ihpost hblank' hblank₁' (Script.ends_row _ r)
    (Script.ends_row _ s) h
  obtain ⟨hbody, hrs⟩ := Script.singleton_append_inj ihbody hbody' (ends_cons (by decide) r)
    (ends_cons (by decide) s) h
  refine ⟨?_, (List.cons.inj hrs).2⟩
  calc (loop init condition post body span).unplaced
    _ = loop (init.map unplaced) (condition.map Expr.unplaced) (post.map Expr.unplaced)
        body.unplaced _ := respan_loop ..
    _ = loop (init'.map unplaced) (condition'.map Expr.unplaced) (post'.map Expr.unplaced)
        body'.unplaced _ := by
      rw [hfirst, hsecond, hthird, show body.unplaced = body'.unplaced from hbody]
    _ = (loop init' condition' post' body' span').unplaced := (respan_loop ..).symm

end Loops

theorem tells_ret {value : Option Expr} (ha : script.legible (.ret value span))
    (ih : ∀ m ∈ (Node.statement (.ret value span)).parts, m.Tells) :
    script.Tells (.ret value span) := by
  intro b r s hb hr hs h
  cases alike ha hb h with
  | @ret _ _ value' span' =>
  simp only [script_ret, List.append_assoc, List.cons_append, List.nil_append,
    List.append_cancel_left_eq] at h
  obtain ⟨hvalue, hrs⟩ := Script.optional_inj (by decide) (by decide)
    (fun e he => ha.part (.expression e) (List.mem_map_of_mem he))
    (fun e he => hb.part (.expression e) (List.mem_map_of_mem he))
    (fun e he => ih (.expression e) (List.mem_map_of_mem he)) h
  refine ⟨?_, hrs⟩
  calc (ret value span).unplaced
    _ = ret (value.map Expr.unplaced) _ := respan_ret ..
    _ = ret (value'.map Expr.unplaced) _ := congrArg (ret · _) hvalue
    _ = (ret value' span').unplaced := (respan_ret ..).symm

theorem tells_importDecl {name : String} {source : Option String}
    (ha : script.legible (.importDecl name source span)) :
    script.Tells (.importDecl name source span) := by
  intro b r s hb hr hs h
  cases alike ha hb h with
  | @importDecl _ _ _ name' source' span' =>
  simp only [script_importDecl, List.append_assoc, List.cons_append, List.nil_append,
    List.append_cancel_left_eq] at h
  obtain ⟨rfl, hrest⟩ := name_append_inj ha.self.legible hb.self.legible
    (Script.ends_row source.toList r) (Script.ends_row source'.toList s) h
  obtain ⟨hsource, hrs⟩ := Script.optional_inj (by decide) (by decide) (fun _ _ => trivial)
    (fun _ _ => trivial) (fun t _ => quoted_tells t) hrest
  have hid : quoted.meaning = id := rfl
  rw [hid, Option.map_id] at hsource
  exact ⟨congrArg (importDecl name · _) hsource, hrs⟩

end Kinds

/-- A statement can be told by its text if its parts can. -/
theorem tells_of_parts (ha : script.legible a) (ih : ∀ m ∈ (Node.statement a).parts, m.Tells) :
    script.Tells a := by
  cases a with
  | block body =>
    obtain ⟨body, span⟩ := body
    exact tells_block ha ih
  | expression => exact tells_expression ha ih
  | varDecl => exact tells_varDecl ha ih
  | fnDecl => exact tells_fnDecl ha ih
  | classDecl => exact tells_classDecl ha ih
  | branch => exact tells_branch ha ih
  | loop => exact tells_loop ha ih
  | ret => exact tells_ret ha ih
  | importDecl => exact tells_importDecl ha

end Stmt

/-- A node that shows its tokens, and has no number or name that is written like something else, can
be told from all such nodes. -/
theorem Node.tells {n : Node} (h : n.Throughout Distinct) : n.Tells := by
  induction h with
  | @mk n hn hparts ih =>
    -- By induction the parts can be told, which is all that is needed of them.
    cases n with
    | expression e => exact Expr.tells_of_parts (.mk hn hparts) ih
    | statement a => exact Stmt.tells_of_parts (.mk hn hparts) ih

end Scriptlet
