import Scriptlet.Proofs.Tree.Form

namespace Scriptlet

open Text

/-- The node can be told by its text from all nodes of its sort. -/
def Node.Tells : Node → Prop
  | .expression e => Expr.script.Tells e
  | .statement s => Stmt.script.Tells s

/-- Names are told by their texts. -/
theorem name_append_inj {name name' : String} {r s : List Char} (hname : Lexeme.IsWord name)
    (hname' : Lexeme.IsWord name') (hr : Ends r) (hs : Ends s)
    (h : name.toList ++ r = name'.toList ++ s) : name = name' ∧ r = s :=
  Ty.word_append_inj hname hname'.isWordRest (hr.not (by decide)) (hs.not (by decide)) h

section Signatures

variable {r s : List Char} {type type' : Option Ty}

theorem Ty.tells {t : Ty} (ht : t.Plain) : Ty.script.Tells t :=
  fun u _ _ hu hr hs h => text_append_inj t u ht hu hr hs h

theorem annotated_append_inj (ht : ∀ t ∈ type, t.Plain) (ht' : ∀ t ∈ type', t.Plain) (hr : Ends r)
    (hs : Ends s) (h : annotated type ++ r = annotated type' ++ s) : type = type' ∧ r = s := by
  cases type with
  | none =>
    cases type' with
    | none => exact ⟨rfl, h⟩
    | some u =>
      have hcolon := hr ':' (by rw [show r = _ from h]; rfl)
      exact absurd hcolon (by decide)
  | some t =>
    cases type' with
    | none =>
      have hcolon := hs ':' (by rw [show s = _ from h.symm]; rfl)
      exact absurd hcolon (by decide)
    | some u =>
      simp only [annotated, List.cons_append, List.cons.injEq, true_and] at h
      obtain ⟨htu, hrs⟩ := Ty.tells (ht t rfl) (ht' u rfl) hr hs h
      exact ⟨congrArg some htu, hrs⟩

/-- A name ends in front of its annotation. -/
theorem annotated_isWordRest (type : Option Ty) (hr : Ends r) :
    ∀ c ∈ (annotated type ++ r).head?, Lexeme.isWordRest c = false := by
  cases type with
  | none => exact hr.not (by decide)
  | some t =>
    rintro _ ⟨⟩
    rfl

theorem Parameter.script_text (p : Parameter) :
    script.text p = p.name.toList ++ annotated (some p.type) := by
  simp [script, text, annotated, Ty.script]

theorem Parameter.tells {p : Parameter} (hp : p.Legible) : script.Tells p := by
  intro q r s hq hr hs h
  rw [script_text, script_text, List.append_assoc, List.append_assoc] at h
  obtain ⟨hname, hrest⟩ := Ty.word_append_inj hp.name hq.name.isWordRest
    (annotated_isWordRest _ hr) (annotated_isWordRest _ hs) h
  have hplain : ∀ t ∈ some p.type, t.Plain := by
    rintro _ ⟨⟩
    exact hp.type
  have hplain' : ∀ t ∈ some q.type, t.Plain := by
    rintro _ ⟨⟩
    exact hq.type
  obtain ⟨htype, hrs⟩ := annotated_append_inj hplain hplain' hr hs hrest
  obtain ⟨name, type⟩ := p
  obtain ⟨name', type'⟩ := q
  cases hname
  cases htype
  exact ⟨rfl, hrs⟩

theorem signature_append_inj {ps ps' : List Parameter} (hps : ∀ p ∈ ps, p.Legible)
    (hps' : ∀ p ∈ ps', p.Legible) (ht : ∀ t ∈ type, t.Plain) (ht' : ∀ t ∈ type', t.Plain)
    (hr : Ends r) (hs : Ends s) (h : signature ps type ++ r = signature ps' type' ++ s) :
    ps = ps' ∧ type = type' ∧ r = s := by
  simp only [signature, List.cons_append, List.append_assoc, List.cons.injEq, true_and] at h
  -- No parameter begins with the parenthesis that ends them, since its name is a word.
  have hfirst (p : Parameter) (t u : List Char) (hp : p.Legible) (_ : Ends u) :
      ')' :: t ≠ Parameter.script.text p ++ u := by
    obtain ⟨c, cs, hcons⟩ := List.exists_cons_of_ne_nil hp.name.ne_nil
    intro heq
    rw [Parameter.script_text, hcons] at heq
    have hc := hp.name.isWordRest c (by rw [hcons]; exact List.mem_cons_self)
    rw [← (List.cons.inj heq).1] at hc
    cases hc
  obtain ⟨hmap, hrest⟩ := Script.joined_inj (by decide) (by decide) hps hps'
    (fun p hp => Parameter.tells (hps p hp)) hfirst h
  obtain ⟨htype, hrs⟩ := annotated_append_inj ht ht' hr hs hrest
  have hmeaning : Parameter.script.meaning = id := rfl
  rw [hmeaning, List.map_id, List.map_id] at hmap
  exact ⟨hmap, htype, hrs⟩

end Signatures

namespace Expr

variable {r s : List Char} {span : Span} {e e' : Expr}

/-- What begins alike is of one form. -/
theorem form_eq (he : script.legible e) (he' : script.legible e') (hr : Ends r) (hs : Ends s)
    (h : script.text e ++ r = script.text e' ++ s) : e.form = e'.form := by
  rw [← of_text he.self hr, h, of_text he'.self hs]

/-- No expression begins with a closing bracket. -/
theorem text_ne_close (he : script.legible e) (hr : Ends r) (s : List Char) :
    ']' :: s ≠ script.text e ++ r := by
  intro h
  have hother : Form.of (']' :: s) = .other := rfl
  rw [h, of_text he.self hr] at hother
  exact e.form_ne_other hother

section Atoms

theorem tells_int (value : Int64) (he : script.legible (.int value span)) :
    script.Tells (.int value span) := by
  intro e' r s he' hr hs h
  have hform := form_eq he he' hr hs h
  cases e' with
  | int value' span' =>
    obtain ⟨htext, hrs⟩ := (Form.atom_int value.toInt).append_inj (Form.atom_int value'.toInt) hr hs h
    have hvalue := Numeral.toString_int64_inj (String.toList_inj.mp htext)
    exact ⟨by rw [hvalue]; rfl, hrs⟩
  | _ => cases hform

theorem tells_float (value : Binary64) (he : script.legible (.float value span)) :
    script.Tells (.float value span) := by
  intro e' r s he' hr hs h
  have hform := form_eq he he' hr hs h
  cases e' with
  | float value' span' =>
    have hfinite := he.self.finite
    have hfinite' := he'.self.finite
    obtain ⟨htext, hrs⟩ :=
      (Binary64.atom_text hfinite).append_inj (Binary64.atom_text hfinite') hr hs h
    have hvalue := Binary64.text_inj hfinite hfinite' (String.toList_inj.mp htext)
    exact ⟨by rw [hvalue]; rfl, hrs⟩
  | _ => cases hform

theorem tells_string (value : String) (he : script.legible (.string value span)) :
    script.Tells (.string value span) := by
  intro e' r s he' hr hs h
  have hform := form_eq he he' hr hs h
  cases e' with
  | string value' span' =>
    rw [script_string, script_string] at h
    obtain ⟨hvalue, hrs⟩ := quoted_tells value trivial hr hs h
    exact ⟨congrArg (string · _) hvalue, hrs⟩
  | _ => cases hform

theorem tells_bool (value : Bool) (he : script.legible (.bool value span)) :
    script.Tells (.bool value span) := by
  intro e' r s he' hr hs h
  have hform := form_eq he he' hr hs h
  cases e' with
  | bool value' span' =>
    obtain ⟨htext, hrs⟩ := (Form.atom_bool value).append_inj (Form.atom_bool value') hr hs h
    have hvalue : value = value' := by
      revert htext
      cases value <;> cases value' <;> decide
    exact ⟨by rw [hvalue]; rfl, hrs⟩
  | _ => cases hform

theorem tells_symbol (name : String) (he : script.legible (.symbol name span)) :
    script.Tells (.symbol name span) := by
  intro e' r s he' hr hs h
  have hform := form_eq he he' hr hs h
  cases e' with
  | symbol name' span' =>
    obtain ⟨htext, hrs⟩ :=
      (Form.atom_symbol he.self.legible).append_inj (Form.atom_symbol he'.self.legible) hr hs h
    exact ⟨by rw [String.toList_inj.mp htext]; rfl, hrs⟩
  | _ => cases hform

end Atoms

section Rows

variable {es es' : List Expr}

theorem legible_parts (he : script.legible e) (hparts : (Node.expression e).parts = es.map .expression) :
    ∀ a ∈ es, script.legible a :=
  fun a ha => he.part (.expression a) (by rw [hparts]; exact List.mem_map_of_mem ha)

theorem tells_parts (ih : ∀ m ∈ (Node.expression e).parts, m.Tells)
    (hparts : (Node.expression e).parts = es.map .expression) : ∀ a ∈ es, script.Tells a :=
  fun a ha => ih (.expression a) (by rw [hparts]; exact List.mem_map_of_mem ha)

/-- Expressions in a row up to a parenthesis. -/
theorem row_inj (hes : ∀ a ∈ es, script.legible a) (hes' : ∀ a ∈ es', script.legible a)
    (htells : ∀ a ∈ es, script.Tells a)
    (h : script.spread es ++ ')' :: r = script.spread es' ++ ')' :: s) :
    es.map unplaced = es'.map unplaced ∧ r = s :=
  Script.closed_inj (by decide) (by decide) hes hes' htells h

end Rows

section Operations

variable {t t' : Token} {es es' : List Expr}

/-- The expression is an operator with its operands. -/
inductive Operates : Expr → Token → List Expr → Prop
  | binary {t left right span} : Operates (.binary t left right span) t [left, right]
  | unary {t operand span} : Operates (.unary t operand span) t [operand]
  | assign {t target value span} : Operates (.assign t target value span) t [target, value]

theorem exists_operates (h : e.form = .operation) : ∃ t es, e.Operates t es := by
  cases e with
  | binary | unary | assign => exact ⟨_, _, by constructor⟩
  | _ => cases h

theorem Operates.text_eq (h : e.Operates t es) : script.text e = operation t es := by
  cases h with
  | binary => exact script_binary ..
  | unary => exact script_unary ..
  | assign => exact script_assign ..

theorem Operates.parts_eq (h : e.Operates t es) : (Node.expression e).parts = es.map .expression := by
  cases h <;> rfl

theorem Operates.form_eq (h : e.Operates t es) : e.form = .operation := by
  cases h <;> rfl

theorem Operates.isSign (h : e.Operates t es) (he : script.legible e) :
    t.IsSign ∧ t.value.toList ≠ [] ∧ ∀ c ∈ t.value.toList, Form.isSign c = true := by
  have hlegible := he.self.legible
  cases h with
  | binary => exact ⟨hlegible.1, hlegible.1.signs (.inl hlegible.2)⟩
  | unary => exact ⟨hlegible.1, hlegible.1.signs (.inr (.inr hlegible.2))⟩
  | assign => exact ⟨hlegible.1, hlegible.1.signs (.inr (.inl hlegible.2))⟩

/-- Which operation it is, is seen from the operator and from how many operands there are. -/
theorem Operates.unplaced_eq (h : e.Operates t es) (h' : e'.Operates t' es')
    (he : script.legible e) (he' : script.legible e') (hkind : t.kind = t'.kind)
    (hvalue : t.value = t'.value) (hes : es.map unplaced = es'.map unplaced) :
    e.unplaced = e'.unplaced := by
  have ht : t.unplaced = t'.unplaced := Token.unplaced_eq hkind hvalue
  have hlegible := he.self.legible
  have hlegible' := he'.self.legible
  cases h <;> cases h'
  case binary.binary | assign.assign =>
    simp only [List.map_cons, List.map_nil, List.cons.injEq, and_true] at hes
    simp only [unplaced, respan, ht, hes.1, hes.2]
  case unary.unary =>
    simp only [List.map_cons, List.map_nil, List.cons.injEq, and_true] at hes
    simp only [unplaced, respan, ht, hes]
  case binary.assign | assign.binary =>
    have hrule := hlegible.2
    rw [hkind, hlegible'.2] at hrule
    cases hrule
  all_goals
    have hlength := congrArg List.length hes
    cases hlength

theorem tells_operation (h : e.Operates t es) (he : script.legible e)
    (ih : ∀ m ∈ (Node.expression e).parts, m.Tells) : script.Tells e := by
  intro e' r s he' hr hs heq
  have hform := form_eq he he' hr hs heq
  obtain ⟨t', es', h'⟩ := exists_operates (hform.symm.trans h.form_eq)
  obtain ⟨hsign, -, hsigns⟩ := h.isSign he
  obtain ⟨hsign', -, hsigns'⟩ := h'.isSign he'
  simp only [h.text_eq, h'.text_eq, operation, List.cons_append, List.append_assoc,
    List.nil_append, List.cons.injEq, true_and] at heq
  -- The operators end in front of their operands, which begin with a space.
  obtain ⟨htake, hdrop⟩ := Lexeme.span_run hsigns ((Script.ends_row es r).not (by decide))
  obtain ⟨htake', hdrop'⟩ := Lexeme.span_run hsigns' ((Script.ends_row es' s).not (by decide))
  rw [heq] at htake hdrop
  have hvalue : t.value.toList = t'.value.toList := htake.symm.trans htake'
  have hkind : t.kind = t'.kind := Lexeme.kind_of_mem_operators _ hsign _ hsign' hvalue
  obtain ⟨hes, hrs⟩ := row_inj (legible_parts he h.parts_eq) (legible_parts he' h'.parts_eq)
    (tells_parts ih h.parts_eq) (hdrop.symm.trans hdrop')
  exact ⟨h.unplaced_eq h' he he' hkind (String.toList_inj.mp hvalue) hes, hrs⟩

end Operations

section Compounds

theorem tells_member {object : Expr} {property : String}
    (he : script.legible (.member object property span))
    (ih : ∀ m ∈ (Node.expression (.member object property span)).parts, m.Tells) :
    script.Tells (.member object property span) := by
  intro e' r s he' hr hs h
  have hform := form_eq he he' hr hs h
  cases e' with
  | member object' property' span' =>
    simp only [script_member, List.append_assoc, List.cons_append, List.nil_append,
      List.append_cancel_left_eq] at h
    obtain ⟨hobject, hrest⟩ := ih _ List.mem_cons_self (he'.part _ List.mem_cons_self)
      (ends_cons (by decide) _) (ends_cons (by decide) _) h
    obtain ⟨hproperty, hrs⟩ := name_append_inj he.self.legible he'.self.legible
      (ends_cons (by decide) r) (ends_cons (by decide) s) (List.cons.inj hrest).2
    refine ⟨?_, (List.cons.inj hrs).2⟩
    change member object.unplaced _ _ = member object'.unplaced _ _
    rw [show object.unplaced = object'.unplaced from hobject, hproperty]
  | _ => cases hform

theorem tells_index {object position : Expr} (he : script.legible (.index object position span))
    (ih : ∀ m ∈ (Node.expression (.index object position span)).parts, m.Tells) :
    script.Tells (.index object position span) := by
  intro e' r s he' hr hs h
  have hform := form_eq he he' hr hs h
  cases e' with
  | index object' position' span' =>
    simp only [script_index, List.append_assoc, List.cons_append, List.nil_append,
      List.append_cancel_left_eq] at h
    obtain ⟨hparts, hrs⟩ :=
      row_inj (legible_parts he rfl) (legible_parts he' rfl) (tells_parts ih rfl) h
    simp only [List.map_cons, List.map_nil, List.cons.injEq, and_true] at hparts
    refine ⟨?_, hrs⟩
    change index object.unplaced position.unplaced _ = index object'.unplaced position'.unplaced _
    rw [hparts.1, hparts.2]
  | _ => cases hform

theorem tells_range {lower upper : Expr} (he : script.legible (.range lower upper span))
    (ih : ∀ m ∈ (Node.expression (.range lower upper span)).parts, m.Tells) :
    script.Tells (.range lower upper span) := by
  intro e' r s he' hr hs h
  have hform := form_eq he he' hr hs h
  cases e' with
  | range lower' upper' span' =>
    simp only [script_range, List.append_assoc, List.cons_append, List.nil_append,
      List.append_cancel_left_eq] at h
    obtain ⟨hparts, hrs⟩ :=
      row_inj (legible_parts he rfl) (legible_parts he' rfl) (tells_parts ih rfl) h
    simp only [List.map_cons, List.map_nil, List.cons.injEq, and_true] at hparts
    refine ⟨?_, hrs⟩
    change range lower.unplaced upper.unplaced _ = range lower'.unplaced upper'.unplaced _
    rw [hparts.1, hparts.2]
  | _ => cases hform

theorem tells_call {callee : Expr} {arguments : List Expr}
    (he : script.legible (.call callee arguments span))
    (ih : ∀ m ∈ (Node.expression (.call callee arguments span)).parts, m.Tells) :
    script.Tells (.call callee arguments span) := by
  intro e' r s he' hr hs h
  have hform := form_eq he he' hr hs h
  cases e' with
  | call callee' arguments' span' =>
    simp only [script_call, List.append_assoc, List.cons_append, List.nil_append,
      List.append_cancel_left_eq] at h
    obtain ⟨hparts, hrs⟩ :=
      row_inj (legible_parts he rfl) (legible_parts he' rfl) (tells_parts ih rfl) h
    simp only [List.map_cons, List.cons.injEq] at hparts
    refine ⟨?_, hrs⟩
    calc (call callee arguments span).unplaced
      _ = call callee.unplaced (arguments.map unplaced) _ := respan_call ..
      _ = call callee'.unplaced (arguments'.map unplaced) _ := by rw [hparts.1, hparts.2]
      _ = (call callee' arguments' span').unplaced := (respan_call ..).symm
  | _ => cases hform

theorem tells_array {items : List Expr} (he : script.legible (.array items span))
    (ih : ∀ m ∈ (Node.expression (.array items span)).parts, m.Tells) :
    script.Tells (.array items span) := by
  intro e' r s he' hr hs h
  have hform := form_eq he he' hr hs h
  cases e' with
  | array items' span' =>
    simp only [script_array, List.append_assoc, List.cons_append, List.nil_append, List.cons.injEq,
      true_and] at h
    obtain ⟨hparts, hrs⟩ := Script.joined_inj (by decide) (by decide) (legible_parts he rfl)
      (legible_parts he' rfl) (tells_parts ih rfl)
      (fun _ t _ ha hu => text_ne_close ha hu t) h
    refine ⟨?_, hrs⟩
    calc (array items span).unplaced
      _ = array (items.map unplaced) _ := respan_array ..
      _ = array (items'.map unplaced) _ := congrArg (array · _) hparts
      _ = (array items' span').unplaced := (respan_array ..).symm
  | _ => cases hform

theorem tells_arrayOf {item : Ty} {items : List Expr} (he : script.legible (.arrayOf item items span))
    (ih : ∀ m ∈ (Node.expression (.arrayOf item items span)).parts, m.Tells) :
    script.Tells (.arrayOf item items span) := by
  intro e' r s he' hr hs h
  have hform := form_eq he he' hr hs h
  cases e' with
  | arrayOf item' items' span' =>
    simp only [script_arrayOf, List.append_assoc, List.cons_append, List.nil_append,
      List.append_cancel_left_eq] at h
    obtain ⟨hitem, hrest⟩ := Ty.tells he.self.legible he'.self.legible
      (Script.ends_row items r) (Script.ends_row items' s) h
    obtain ⟨hparts, hrs⟩ :=
      row_inj (legible_parts he rfl) (legible_parts he' rfl) (tells_parts ih rfl) hrest
    refine ⟨?_, hrs⟩
    calc (arrayOf item items span).unplaced
      _ = arrayOf item (items.map unplaced) _ := respan_arrayOf ..
      _ = arrayOf item' (items'.map unplaced) _ := by rw [hparts, show item = item' from hitem]
      _ = (arrayOf item' items' span').unplaced := (respan_arrayOf ..).symm
  | _ => cases hform

theorem tells_construct {name : String} {arguments : List Expr}
    (he : script.legible (.construct name arguments span))
    (ih : ∀ m ∈ (Node.expression (.construct name arguments span)).parts, m.Tells) :
    script.Tells (.construct name arguments span) := by
  intro e' r s he' hr hs h
  have hform := form_eq he he' hr hs h
  cases e' with
  | construct name' arguments' span' =>
    simp only [script_construct, List.append_assoc, List.cons_append, List.nil_append,
      List.append_cancel_left_eq] at h
    obtain ⟨hname, hrest⟩ := name_append_inj he.self.legible he'.self.legible
      (Script.ends_row arguments r) (Script.ends_row arguments' s) h
    obtain ⟨hparts, hrs⟩ :=
      row_inj (legible_parts he rfl) (legible_parts he' rfl) (tells_parts ih rfl) hrest
    refine ⟨?_, hrs⟩
    calc (construct name arguments span).unplaced
      _ = construct name (arguments.map unplaced) _ := respan_construct ..
      _ = construct name' (arguments'.map unplaced) _ := by rw [hparts, hname]
      _ = (construct name' arguments' span').unplaced := (respan_construct ..).symm
  | _ => cases hform

/-- The value of a field is told behind its name. -/
theorem tells_field {field : String × Expr} (hname : Lexeme.IsWord field.1)
    (htells : script.Tells field.2) : Field.script.Tells field := by
  intro field' r s hfield' hr hs h
  simp only [Field.script, List.cons_append, List.append_assoc, List.nil_append, List.cons.injEq,
    true_and] at h
  obtain ⟨hname, hrest⟩ :=
    name_append_inj hname hfield'.1 (ends_cons (by decide) _) (ends_cons (by decide) _) h
  obtain ⟨hvalue, hrs⟩ := htells hfield'.2 (ends_cons (by decide) r) (ends_cons (by decide) s)
    (List.cons.inj hrest).2
  exact ⟨Prod.ext hname hvalue, (List.cons.inj hrs).2⟩

theorem tells_structOf {name : String} {fields : List (String × Expr)}
    (he : script.legible (.structOf name fields span))
    (ih : ∀ m ∈ (Node.expression (.structOf name fields span)).parts, m.Tells) :
    script.Tells (.structOf name fields span) := by
  intro e' r s he' hr hs h
  have hform := form_eq he he' hr hs h
  cases e' with
  | structOf name' fields' span' =>
    simp only [script_structOf, List.append_assoc, List.cons_append, List.nil_append,
      List.append_cancel_left_eq] at h
    obtain ⟨hname, hrest⟩ := name_append_inj he.self.legible.1 he'.self.legible.1
      (Script.ends_row fields r) (Script.ends_row fields' s) h
    have hlegible {name : String} {fields : List (String × Expr)} {span : Span}
        (he : script.legible (.structOf name fields span)) :
        ∀ field ∈ fields, Field.script.legible field :=
      fun field hfield => ⟨he.self.legible.2 field hfield, he.part _ (List.mem_map_of_mem hfield)⟩
    have htells : ∀ field ∈ fields, Field.script.Tells field := fun field hfield =>
      tells_field (he.self.legible.2 field hfield) (ih _ (List.mem_map_of_mem hfield))
    obtain ⟨hparts, hrs⟩ := Script.closed_inj (by decide) (by decide) (hlegible he) (hlegible he')
      htells hrest
    refine ⟨?_, hrs⟩
    calc (structOf name fields span).unplaced
      _ = structOf name (fields.map Field.script.meaning) _ := respan_structOf ..
      _ = structOf name' (fields'.map Field.script.meaning) _ := by rw [hparts, hname]
      _ = (structOf name' fields' span').unplaced := (respan_structOf ..).symm
  | _ => cases hform

/-- The statements of a body follow the signature of the function. -/
theorem tells_function {parameters : List Parameter} {result : Option Ty} {body : List Stmt}
    (he : script.legible (.function parameters result body span))
    (ih : ∀ m ∈ (Node.expression (.function parameters result body span)).parts, m.Tells) :
    script.Tells (.function parameters result body span) := by
  intro e' r s he' hr hs h
  have hform := form_eq he he' hr hs h
  cases e' with
  | function parameters' result' body' span' =>
    simp only [script_function, List.append_assoc, List.cons_append, List.nil_append,
      List.append_cancel_left_eq] at h
    obtain ⟨hparameters, hresult⟩ := he.self.legible
    obtain ⟨hparameters', hresult'⟩ := he'.self.legible
    obtain ⟨rfl, rfl, hrest⟩ := signature_append_inj hparameters hparameters' hresult hresult'
      (Script.ends_row body r) (Script.ends_row body' s) h
    obtain ⟨hbody, hrs⟩ := Script.closed_inj (by decide) (by decide)
      (fun s hs => he.part (.statement s) (List.mem_map_of_mem hs))
      (fun s hs => he'.part (.statement s) (List.mem_map_of_mem hs))
      (fun s hs => ih (.statement s) (List.mem_map_of_mem hs)) hrest
    refine ⟨?_, hrs⟩
    calc (function parameters result body span).unplaced
      _ = function parameters result (body.map Stmt.unplaced) _ :=
        congrArg (function parameters result · _) (Stmt.respanAll_eq_map ..)
      _ = function parameters result (body'.map Stmt.unplaced) _ :=
        congrArg (function parameters result · _) hbody
      _ = (function parameters result body' span').unplaced :=
        congrArg (function parameters result · _) (Stmt.respanAll_eq_map ..).symm
  | _ => cases hform

end Compounds

/-- An expression can be told by its text if its parts can. -/
theorem tells_of_parts (he : script.legible e)
    (ih : ∀ m ∈ (Node.expression e).parts, m.Tells) : script.Tells e := by
  cases e with
  | int value span => exact tells_int value he
  | float value span => exact tells_float value he
  | string value span => exact tells_string value he
  | bool value span => exact tells_bool value he
  | symbol name span => exact tells_symbol name he
  | binary => exact tells_operation .binary he ih
  | unary => exact tells_operation .unary he ih
  | assign => exact tells_operation .assign he ih
  | member => exact tells_member he ih
  | index => exact tells_index he ih
  | call => exact tells_call he ih
  | range => exact tells_range he ih
  | function => exact tells_function he ih
  | array => exact tells_array he ih
  | arrayOf => exact tells_arrayOf he ih
  | structOf => exact tells_structOf he ih
  | construct => exact tells_construct he ih

end Expr

end Scriptlet
