import Scriptlet.Proofs.Tree.Characters

namespace Scriptlet

open Text

/-- What can be seen of a node from the beginning of its text. -/
inductive Form
  | int | float | string | bool | symbol | operation | member | index | call | range | function
  | array | arrayOf | structOf | construct | block | varDecl | constDecl | fnDecl | classDecl
  | branch | loop | ret | importDecl | other
  deriving DecidableEq

namespace Form

/-- What stands behind an opening parenthesis. Of two that begin alike the longer stands first. -/
def heads : List (List Char × Form) :=
  [("..".toList, range), (".".toList, member), ("[] ".toList, index), ("[]".toList, arrayOf),
    ("call ".toList, call), ("function (".toList, function), ("function ".toList, fnDecl),
    ("struct ".toList, structOf), ("new ".toList, construct), ("let ".toList, varDecl),
    ("const ".toList, constDecl), ("class ".toList, classDecl), ("if ".toList, branch),
    ("for ".toList, loop), ("return".toList, ret), ("import ".toList, importDecl)]

/-- Where nothing of that stands, an operator does. -/
def ofHead (cs : List Char) : Form :=
  ((heads.find? fun head => head.1.isPrefixOf cs).map (·.2)).getD operation

/-- A character of a name or a number. -/
def isAtom (c : Char) : Bool := Lexeme.isWordRest c || c = '.' || c = '-'

def ofAtom : List Char → Form
  | [] => other
  | c :: cs =>
    if Lexeme.isWordStart c then
      if c :: cs = "true".toList ∨ c :: cs = "false".toList then bool else symbol
    else if '.' ∈ cs ∨ 'e' ∈ cs then float else int

/-- The form of the node that a text begins with. -/
def of : List Char → Form
  | '(' :: cs => ofHead cs
  | '[' :: _ => array
  | '"' :: _ => string
  | '\x7b' :: _ => block
  | cs => ofAtom (cs.takeWhile isAtom)

theorem isAtom_of_isWordRest {c : Char} (h : Lexeme.isWordRest c = true) : isAtom c = true := by
  rw [isAtom, h]
  rfl

theorem isAtom_of_isDigit {c : Char} (h : c.isDigit = true) : isAtom c = true :=
  isAtom_of_isWordRest (by simp [Lexeme.isWordRest, Char.isAlphanum, h])

/-- The text is that of a name or a number, and has this form. -/
structure Atom (form : Form) (cs : List Char) : Prop where
  ne_nil : cs ≠ []
  isAtom : ∀ c ∈ cs, Form.isAtom c = true
  form_eq : ofAtom cs = form

section Atoms

variable {form form' : Form} {cs ds r s : List Char}

/-- A name or a number is seen as a whole. -/
theorem Atom.of_append (h : Atom form cs) (hr : Ends r) : of (cs ++ r) = form := by
  have htake := (Lexeme.span_run h.isAtom (hr.not (by decide))).1
  obtain ⟨hne, hcs, rfl⟩ := h
  obtain ⟨c, cs, rfl⟩ := List.exists_cons_of_ne_nil hne
  have hc := hcs c List.mem_cons_self
  rw [List.cons_append] at htake ⊢
  unfold of
  split
  iterate 4
    rename_i heq
    obtain ⟨rfl, -⟩ := List.cons.inj heq
    exact absurd hc (by decide)
  · rw [htake]

theorem Atom.append_inj (h : Atom form cs) (h' : Atom form' ds) (hr : Ends r) (hs : Ends s)
    (heq : cs ++ r = ds ++ s) : cs = ds ∧ r = s := by
  obtain ⟨htake, hdrop⟩ := Lexeme.span_run h.isAtom (hr.not (by decide))
  obtain ⟨htake', hdrop'⟩ := Lexeme.span_run h'.isAtom (hs.not (by decide))
  rw [heq] at htake hdrop
  exact ⟨htake.symm.trans htake', hdrop.symm.trans hdrop'⟩

end Atoms

/-- What begins like no word is a number. -/
theorem ofAtom_number {c : Char} {cs : List Char} (hc : Lexeme.isWordStart c = false) :
    ofAtom (c :: cs) = if '.' ∈ cs ∨ 'e' ∈ cs then float else int := by
  rw [ofAtom, hc]
  rfl

theorem atom_int (n : Int) : Atom int (toString n).toList := by
  have hmem := Numeral.mem_toString_int n
  obtain ⟨c, cs, hcons⟩ := List.exists_cons_of_ne_nil (Numeral.toString_int_ne_nil n)
  rw [hcons] at hmem ⊢
  obtain ⟨hc, hcs⟩ := List.forall_mem_cons.mp hmem
  refine ⟨List.cons_ne_nil _ _, fun d hd => ?_, ?_⟩
  · rcases hmem d hd with hdigit | rfl
    · exact isAtom_of_isDigit hdigit
    · rfl
  · have hstart : Lexeme.isWordStart c = false := by
      rcases hc with hc | rfl
      · exact Lexeme.isWordStart_of_isDigit hc
      · rfl
    have hnot (d : Char) (hd : d.isDigit = false) (hminus : d ≠ '-') : d ∉ cs := by
      intro hmem
      rcases hcs d hmem with hdigit | rfl
      · rw [hd] at hdigit
        cases hdigit
      · exact hminus rfl
    rw [ofAtom_number hstart, if_neg]
    rintro (hpoint | hletter)
    · exact hnot '.' rfl (by decide) hpoint
    · exact hnot 'e' rfl (by decide) hletter

/-- The text of a magnitude that is not infinite, with or without a minus. -/
theorem atom_fractional {cs : List Char} (h : Binary64.Fractional cs) (negative : Bool) :
    Atom float ((if negative then ['-'] else []) ++ cs) := by
  obtain ⟨⟨c, ds, rfl, hc⟩, hmem, hmark⟩ := h
  have hatoms : ∀ d ∈ c :: ds, isAtom d = true := by
    have hothers : (['.', 'e', '-'].all isAtom) = true := by decide
    intro d hd
    exact (hmem d hd).elim isAtom_of_isDigit (List.all_eq_true.mp hothers d)
  cases negative with
  | false =>
    refine ⟨List.cons_ne_nil _ _, hatoms, ?_⟩
    refine (ofAtom_number (Lexeme.isWordStart_of_isDigit hc)).trans (if_pos ?_)
    -- The first character is a digit, so that the point or the letter is behind it.
    refine hmark.imp ?_ ?_ <;> intro h <;> rcases List.mem_cons.mp h with rfl | h
    · cases hc
    · exact h
    · cases hc
    · exact h
  | true =>
    refine ⟨List.cons_ne_nil _ _, List.forall_mem_cons.mpr ⟨rfl, hatoms⟩, ?_⟩
    exact (ofAtom_number rfl).trans (if_pos hmark)

theorem atom_symbol {name : String} (h : Lexeme.IsSymbol name) : Atom symbol name.toList := by
  refine ⟨h.ne_nil, fun c hc => isAtom_of_isWordRest (h.isWordRest c hc), ?_⟩
  obtain ⟨c, cs, hcons⟩ := List.exists_cons_of_ne_nil h.ne_nil
  have hstart : Lexeme.isWordStart c = true := h.isWordStart c (by rw [hcons]; rfl)
  rw [hcons, ofAtom, if_pos hstart, if_neg]
  rw [← hcons, String.toList_inj, String.toList_inj, not_or]
  exact ⟨h.ne_true, h.ne_false⟩

theorem atom_bool (value : Bool) : Atom bool (if value then "true" else "false").toList := by
  cases value <;> exact ⟨by decide, List.all_eq_true.mp (by decide), by decide⟩

/-- A character that operators are made of. -/
def isSign (c : Char) : Bool := c ∈ "=!<>|&+-*/%".toList

/-- An operator is none of what else can stand behind a parenthesis. -/
theorem ofHead_sign {cs r : List Char} (hne : cs ≠ []) (hcs : ∀ c ∈ cs, isSign c = true) :
    ofHead (cs ++ r) = operation := by
  obtain ⟨c, cs, rfl⟩ := List.exists_cons_of_ne_nil hne
  have hheads : (heads.all fun head => head.1.head?.any fun d => !isSign d) = true := by decide
  have hnone : heads.find? (fun head => head.1.isPrefixOf (c :: cs ++ r)) = none := by
    refine List.find?_eq_none.mpr fun head hmem hfront => ?_
    have hfirst := List.all_eq_true.mp hheads head hmem
    cases htext : head.1 with
    | nil =>
      rw [htext] at hfirst
      cases hfirst
    | cons d ds =>
      rw [htext] at hfirst hfront
      obtain ⟨rfl, -⟩ := List.cons_prefix_cons.mp (List.isPrefixOf_iff_prefix.mp hfront)
      simp [hcs d List.mem_cons_self] at hfirst
  rw [ofHead, hnone]
  rfl

/-- Where two heads differ in one more character, the shorter is found in front of any other one. -/
theorem ofHead_shorter (front behind : List (List Char × Form)) {text rest : List Char}
    {c d : Char} {f g : Form} (hheads : heads = front ++ (text ++ [c], f) :: (text, g) :: behind)
    (hfront : front.find? (fun head => head.1.isPrefixOf (text ++ d :: rest)) = none) (hcd : c ≠ d) :
    ofHead (text ++ d :: rest) = g := by
  have hlonger : (text ++ [c]).isPrefixOf (text ++ d :: rest) = false := by
    refine Bool.eq_false_iff.mpr fun h => ?_
    have hlast := (List.prefix_append_right_inj text).mp (List.isPrefixOf_iff_prefix.mp h)
    exact hcd (List.cons_prefix_cons.mp hlast).1
  have hshorter : text.isPrefixOf (text ++ d :: rest) = true :=
    List.isPrefixOf_iff_prefix.mpr (List.prefix_append _ _)
  have hfind : heads.find? (fun head => head.1.isPrefixOf (text ++ d :: rest)) = some (text, g) := by
    rw [hheads, List.find?_append, hfront, Option.none_or]
    simp only [List.find?_cons, hlonger, hshorter]
  rw [ofHead, hfind]
  rfl

end Form

/-- The form of the expression's text. -/
def Expr.form : Expr → Form
  | .int .. => .int
  | .float .. => .float
  | .string .. => .string
  | .bool .. => .bool
  | .symbol .. => .symbol
  | .binary .. | .unary .. | .assign .. => .operation
  | .member .. => .member
  | .index .. => .index
  | .call .. => .call
  | .range .. => .range
  | .function .. => .function
  | .array .. => .array
  | .arrayOf .. => .arrayOf
  | .structOf .. => .structOf
  | .construct .. => .construct

def Stmt.form : Stmt → Form
  | .block _ => .block
  | .expression e _ => e.form
  | .varDecl _ constant _ _ _ => if constant then .constDecl else .varDecl
  | .fnDecl .. => .fnDecl
  | .classDecl .. => .classDecl
  | .branch .. => .branch
  | .loop .. => .loop
  | .ret .. => .ret
  | .importDecl .. => .importDecl

section Reading

variable {r : List Char}

/-- The operators are made of signs. -/
theorem Token.IsSign.signs {t : Token} (h : t.IsSign)
    (hrule : Grammar.standard.operatorRule t.kind = some .binary ∨
      Grammar.standard.operatorRule t.kind = some .assign ∨
      Grammar.standard.operandRule t.kind = some .unary) :
    t.value.toList ≠ [] ∧ ∀ c ∈ t.value.toList, Form.isSign c = true := by
  have hall : ∀ entry ∈ Lexeme.operators, (Grammar.standard.operatorRule entry.2 = some .binary ∨
      Grammar.standard.operatorRule entry.2 = some .assign ∨
      Grammar.standard.operandRule entry.2 = some .unary) →
      entry.1 ≠ [] ∧ entry.1.all Form.isSign = true := by
    decide
  obtain ⟨hne, hsigns⟩ := hall _ h hrule
  exact ⟨hne, List.all_eq_true.mp hsigns⟩

theorem of_operation {t : Token} (h : t.value.toList ≠ [] ∧ ∀ c ∈ t.value.toList, Form.isSign c = true)
    (es : List Expr) : Form.of (operation t es ++ r) = .operation := by
  rw [operation, List.cons_append, List.append_assoc, Form.of, Form.ofHead_sign h.1 h.2]

/-- A numeral that can be told from a name is finite. -/
theorem Node.Distinct.finite {value : Binary64} {span : Span}
    (h : (Node.expression (.float value span)).Distinct) :
    value.magnitude < Binary64.infinity := by
  have hne : value.magnitude ≠ Binary64.infinity := by
    simpa [isClear, Expr.isInfinite] using h.clear
  exact Nat.lt_of_le_of_ne h.legible hne

theorem Binary64.atom_text {value : Binary64} (h : value.magnitude < infinity) :
    Form.Atom .float value.text.toList := by
  rw [toList_text h]
  exact Form.atom_fractional (fractional_magnitudeText h) _

/-- A word behind `function` and a space is the name of a declaration. -/
theorem of_functionWord {name : String} (h : Lexeme.IsWord name) (rest : List Char) :
    Form.of ("(function ".toList ++ (name.toList ++ rest)) = .fnDecl := by
  obtain ⟨c, cs, hcons⟩ := List.exists_cons_of_ne_nil h.ne_nil
  have hopen : '(' ≠ c := by
    rintro rfl
    exact absurd (h.isWordRest '(' (by rw [hcons]; exact List.mem_cons_self)) (by decide)
  rw [hcons]
  exact Form.ofHead_shorter (Form.heads.take 5) (Form.heads.drop 7) rfl rfl hopen

/-- A type right behind the brackets is that of the items. -/
theorem of_item {item : Ty} (h : item.Plain) (rest : List Char) :
    Form.of ("([]".toList ++ (Ty.script.text item ++ rest)) = .arrayOf := by
  obtain ⟨c, cs, hcons, hc⟩ := Ty.head_text h
  have hspace : ' ' ≠ c := by
    rintro rfl
    rcases hc with hc | hc
    · cases hc
    · exact absurd hc (by decide)
  rw [show Ty.script.text item = c :: cs from hcons]
  exact Form.ofHead_shorter (Form.heads.take 2) (Form.heads.drop 4) rfl rfl hspace

/-- The text of an expression shows its form. -/
theorem Expr.of_text {e : Expr} (he : (Node.expression e).Distinct) (hr : Ends r) :
    Form.of (script.text e ++ r) = e.form := by
  have hlegible := he.legible
  -- Names and literals are told by their own characters, everything else by its bracket and what
  -- stands behind it.
  cases e with
  | int value s => exact (Form.atom_int value.toInt).of_append hr
  | float value s =>
    exact (Binary64.atom_text he.finite).of_append hr
  | string value s =>
    rw [script_string, quoted_text, toList_quote]
    rfl
  | bool value s => exact (Form.atom_bool value).of_append hr
  | symbol name s => exact (Form.atom_symbol hlegible).of_append hr
  | binary operator left right s =>
    rw [script_binary]
    exact of_operation (hlegible.1.signs (.inl hlegible.2)) _
  | unary operator operand s =>
    rw [script_unary]
    exact of_operation (hlegible.1.signs (.inr (.inr hlegible.2))) _
  | assign operator target value s =>
    rw [script_assign]
    exact of_operation (hlegible.1.signs (.inr (.inl hlegible.2))) _
  | member object property s =>
    rw [script_member]
    rfl
  | index object position s =>
    rw [script_index]
    rfl
  | call callee arguments s =>
    rw [script_call]
    rfl
  | range lower upper s =>
    rw [script_range]
    rfl
  | function parameters result body s =>
    rw [script_function]
    rfl
  | array items s =>
    rw [script_array]
    rfl
  | arrayOf item items s =>
    rw [script_arrayOf, List.append_assoc, List.append_assoc]
    exact of_item hlegible _
  | structOf name fields s =>
    rw [script_structOf]
    rfl
  | construct name arguments s =>
    rw [script_construct]
    rfl

theorem Stmt.of_text {s : Stmt} (hs : script.legible s) :
    Form.of (script.text s ++ r) = s.form := by
  cases s with
  | block body =>
    obtain ⟨body, s⟩ := body
    rw [script_block]
    rfl
  | expression e s =>
    rw [script_expression, List.append_assoc]
    exact Expr.of_text (hs.part _ List.mem_cons_self).self (ends_cons (by decide) r)
  | varDecl name constant type value s =>
    rw [script_varDecl]
    cases constant <;> rfl
  | fnDecl name parameters result body s =>
    rw [script_fnDecl, List.append_assoc, List.append_assoc]
    exact of_functionWord hs.self.legible.1 _
  | classDecl name body s =>
    rw [script_classDecl]
    rfl
  | branch condition body otherwise s =>
    rw [script_branch]
    rfl
  | loop init condition post body s =>
    rw [script_loop]
    rfl
  | ret value s =>
    rw [script_ret]
    rfl
  | importDecl name source s =>
    rw [script_importDecl]
    rfl

/-- No node has the form of a text that begins none. -/
theorem Expr.form_ne_other (e : Expr) : e.form ≠ .other := by
  cases e <;> exact Form.noConfusion

theorem Stmt.form_ne_other (s : Stmt) : s.form ≠ .other := by
  cases s with
  | expression e s => exact e.form_ne_other
  | varDecl name constant type value s => cases constant <;> exact Form.noConfusion
  | _ => exact Form.noConfusion

end Reading

end Scriptlet
