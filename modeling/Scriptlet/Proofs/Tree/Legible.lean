import Scriptlet.Proofs.Numeral.Writing
import Scriptlet.Proofs.Syntax.Soundness
import Scriptlet.Proofs.Tree.Node
import Scriptlet.Proofs.Typing.Wording

namespace Scriptlet

/-- A word that begins with no digit and is no truth value. -/
structure Lexeme.IsSymbol (text : String) : Prop extends Lexeme.IsWord text where
  isWordStart : ∀ c ∈ text.toList.head?, Lexeme.isWordStart c = true
  ne_true : text ≠ "true"
  ne_false : text ≠ "false"

/-- The token is an operator or a delimiter, and its kind is the one that its text has. -/
def Token.IsSign (t : Token) : Prop := (t.value.toList, t.kind) ∈ Lexeme.operators

structure Parameter.Legible (p : Parameter) : Prop where
  name : Lexeme.IsWord p.name
  type : p.type.Plain

/-- What the expression itself has in writing, apart from its parts. -/
def Expr.Legible : Expr → Prop
  | .int .. | .string .. | .bool .. | .index .. | .call .. | .range .. | .array .. => True
  | .float value _ => value.magnitude ≤ Binary64.infinity
  | .symbol name _ => Lexeme.IsSymbol name
  | .binary operator _ _ _ =>
    operator.IsSign ∧ Grammar.standard.operatorRule operator.kind = some .binary
  | .unary operator _ _ =>
    operator.IsSign ∧ Grammar.standard.operandRule operator.kind = some .unary
  | .assign operator _ _ _ =>
    operator.IsSign ∧ Grammar.standard.operatorRule operator.kind = some .assign
  | .member _ property _ => Lexeme.IsWord property
  | .function parameters result _ _ => (∀ p ∈ parameters, p.Legible) ∧ ∀ t ∈ result, t.Plain
  | .arrayOf item _ _ => item.Plain
  | .structOf name fields _ => Lexeme.IsWord name ∧ ∀ field ∈ fields, Lexeme.IsWord field.1
  | .construct name _ _ => Lexeme.IsWord name

/-- The same for a statement. -/
def Stmt.Legible : Stmt → Prop
  | .block .. | .expression .. | .branch .. | .loop .. | .ret .. => True
  | .varDecl name _ type _ _ => Lexeme.IsWord name ∧ ∀ t ∈ type, t.Plain
  | .fnDecl name parameters result _ _ =>
    Lexeme.IsWord name ∧ (∀ p ∈ parameters, p.Legible) ∧ ∀ t ∈ result, t.Plain
  | .classDecl name _ _ | .importDecl name _ _ => Lexeme.IsWord name

def Node.Legible : Node → Prop
  | .expression e => e.Legible
  | .statement s => s.Legible

/-- The token has the text of a lexeme. The value of a string is not its text. -/
def Token.Lexical (t : Token) : Prop :=
  t.kind ≠ .string → t.kind ≠ .eof → t.kind.IsLexeme t.value.toList

section Tokens

variable {t : Token}

theorem Token.Lexical.of_kind (h : t.Lexical) {k : Kind} (hk : t.kind = k) (hstring : k ≠ .string)
    (heof : k ≠ .eof) : k.IsLexeme t.value.toList := by
  subst hk
  exact h hstring heof

/-- Only the table of operators has lexemes of a kind that is no word and no literal. -/
theorem Token.Lexical.isSign (h : t.Lexical) (hword : ∀ entry ∈ Lexeme.keywords, entry.2 ≠ t.kind)
    (hliteral : t.kind ∉ [.identifier, .int, .float, .string, .eof]) : t.IsSign := by
  have hlexeme : t.kind.IsLexeme t.value.toList := by
    refine h ?_ ?_ <;> intro hk <;> simp [hk] at hliteral
  rw [IsSign]
  generalize t.kind = k, t.value.toList = text at *
  cases hlexeme with
  | operator hmem => exact hmem
  | keyword hmem => exact absurd rfl (hword _ hmem)
  | name | int | float | closed | unclosed => simp at hliteral

theorem Token.isSign_of_operatorRule (h : t.Lexical) {rule : OperatorRule}
    (hrule : Grammar.standard.operatorRule t.kind = some rule) : t.IsSign := by
  refine h.isSign ?_ ?_
  · have hnone : ∀ entry ∈ Lexeme.keywords, Grammar.standard.operatorRule entry.2 = none := by decide
    rintro entry hentry hk
    rw [← hk, hnone entry hentry] at hrule
    cases hrule
  · intro hk
    simp only [List.mem_cons, List.not_mem_nil, or_false] at hk
    rcases hk with hk | hk | hk | hk | hk <;> rw [hk] at hrule <;> cases hrule

theorem Token.isSign_of_unary (h : t.Lexical)
    (hrule : Grammar.standard.operandRule t.kind = some .unary) : t.IsSign := by
  refine h.isSign ?_ ?_
  · have hnot : ∀ entry ∈ Lexeme.keywords,
        Grammar.standard.operandRule entry.2 ≠ some .unary := by
      decide
    rintro entry hentry hk
    exact hnot entry hentry (by rw [hk, hrule])
  · intro hk
    simp only [List.mem_cons, List.not_mem_nil, or_false] at hk
    rcases hk with hk | hk | hk | hk | hk <;> rw [hk] at hrule <;> cases hrule

/-- The operator of a tree is the token it was read from, in another place or not. -/
theorem Token.IsSign.congr {u : Token} (h : t.IsSign) (hk : t.kind = u.kind)
    (hv : t.value = u.value) : u.IsSign := by
  rwa [IsSign, hk, hv] at h

theorem Token.IsName.isSymbol (h : t.IsName) (ht : t.Lexical) : Lexeme.IsSymbol t.value := by
  have hlexeme := ht.of_kind h.kind (by decide) (by decide)
  have hword := Lexeme.isWord_of_isLexeme hlexeme
  rw [String.ofList_toList] at hword
  have hkeyword {word : String} (hlookup : (Lexeme.keywords.lookup word).isSome) :
      t.value ≠ word := by
    rintro rfl
    have hname : Lexeme.keywords.lookup t.value = none := h.name
    rw [hname] at hlookup
    cases hlookup
  refine ⟨hword, ?_, hkeyword rfl, hkeyword rfl⟩
  generalize t.value.toList = text at hlexeme
  have hnone : Kind.identifier.spelling? = none := rfl
  cases hlexeme with
  | operator hmem =>
    exact absurd rfl (Lexeme.ne_of_spelling? (Lexeme.spelling?_of_mem_operators _ hmem) hnone)
  | keyword hmem =>
    exact absurd rfl (Lexeme.ne_of_spelling? (Lexeme.spelling?_of_mem_keywords _ hmem) hnone)
  | name hstart =>
    rintro _ ⟨⟩
    exact hstart

theorem Token.IsName.isWord (h : t.IsName) (ht : t.Lexical) : Lexeme.IsWord t.value :=
  (h.isSymbol ht).toIsWord

theorem Token.Is.isSymbol_this (h : t.Is .thisWord) : Lexeme.IsSymbol t.value := by
  have hvalue : t.value = "this" := by
    have hspelling := h.spelling
    rw [show Kind.thisWord.spelling? = some "this" from rfl, Option.some.injEq] at hspelling
    exact hspelling.symm
  rw [hvalue]
  refine ⟨⟨by decide, List.all_eq_true.mp (by decide)⟩, ?_, by decide, by decide⟩
  rintro _ ⟨⟩
  rfl

/-- The names of types are words, those of primitive ones too. -/
theorem Token.isWord_of_typeRule (h : t.Lexical)
    (hrule : Grammar.standard.typeRule t.kind = some .named) : Lexeme.IsWord t.value := by
  have hlexeme : t.kind.IsLexeme t.value.toList := by
    refine h ?_ ?_ <;> intro hk <;> rw [hk] at hrule <;> cases hrule
  suffices hword : t.value.toList ≠ [] ∧ ∀ c ∈ t.value.toList, Lexeme.isWordRest c = true from
    ⟨hword.1, hword.2⟩
  generalize t.kind = k, t.value.toList = text at *
  cases hlexeme with
  | operator hmem =>
    have hnone : ∀ entry ∈ Lexeme.operators,
        Grammar.standard.typeRule entry.2 ≠ some .named := by
      decide
    exact absurd hrule (hnone _ hmem)
  | keyword hmem =>
    obtain ⟨c, cs, htext, hstart, hrest⟩ := Lexeme.isWord_of_mem_keywords _ hmem
    rw [htext]
    exact ⟨List.cons_ne_nil _ _,
      List.forall_mem_cons.mpr ⟨Lexeme.isWordRest_of_isWordStart hstart, hrest⟩⟩
  | name hstart hrest =>
    exact ⟨List.cons_ne_nil _ _,
      List.forall_mem_cons.mpr ⟨Lexeme.isWordRest_of_isWordStart hstart, hrest⟩⟩
  | int | float | closed | unclosed => cases hrule

/-- What is read from a numeral is a number, if an infinite one. -/
theorem Token.magnitude_le (h : t.Lexical) (hk : t.kind = .float) {value : Binary64}
    (hvalue : Numeral.binary64? t.value.toList = some value) :
    value.magnitude ≤ Binary64.infinity := by
  have hlexeme := h.of_kind hk (by decide) (by decide)
  generalize t.value.toList = text at hlexeme hvalue
  have hnone : Kind.float.spelling? = none := rfl
  cases hlexeme with
  | operator hmem =>
    exact absurd rfl (Lexeme.ne_of_spelling? (Lexeme.spelling?_of_mem_operators _ hmem) hnone)
  | keyword hmem =>
    exact absurd rfl (Lexeme.ne_of_spelling? (Lexeme.spelling?_of_mem_keywords _ hmem) hnone)
  | @float digits fraction hne hdigits _ =>
    obtain ⟨c, cs, rfl⟩ := List.exists_cons_of_ne_nil hne
    exact Numeral.magnitude_le_of_binary64? (hdigits c List.mem_cons_self) hvalue

end Tokens

/-- The tokens have the texts of lexemes. -/
abbrev Lexical (ts : List Token) : Prop := ∀ t ∈ ts, t.Lexical

theorem lexical_append {ts us : List Token} : Lexical (ts ++ us) ↔ Lexical ts ∧ Lexical us :=
  List.forall_mem_append

theorem lexical_cons {t : Token} {ts : List Token} : Lexical (t :: ts) ↔ t.Lexical ∧ Lexical ts :=
  List.forall_mem_cons

theorem Ty.Spelled.plain {t : Ty} {ts : List Token} (h : t.Spelled ts) (hts : Lexical ts) :
    t.Plain := by
  induction h with
  | named ht =>
    exact Token.isWord_of_typeRule (hts _ List.mem_cons_self) (by rw [ht.kind]; rfl)
  | primitive ht hrule =>
    exact Token.isWord_of_typeRule (hts _ List.mem_cons_self) (by rw [ht.kind, hrule])
  | list _ _ _ ih => exact ih (lexical_cons.mp (lexical_cons.mp hts).2).2

theorem plain_of_introduced {k : Kind} {type : Option Ty} {ts : List Token}
    (h : Introduced k Ty.Spelled type ts) (hts : Lexical ts) : ∀ t ∈ type, t.Plain := by
  rintro t ⟨⟩
  cases h with
  | some _ h => exact h.plain (lexical_cons.mp hts).2

theorem Parameter.Spelled.legible {p : Parameter} {ts : List Token} (h : p.Spelled ts)
    (hts : Lexical ts) : p.Legible := by
  cases h with
  | mk hname _ htype =>
    obtain ⟨hfirst, hrest⟩ := lexical_cons.mp hts
    exact ⟨hname.isWord hfirst, htype.plain (lexical_cons.mp hrest).2⟩

theorem legible_of_listed {parameters : List Parameter} {ts : List Token}
    (h : Listed Parameter.Spelled parameters ts) (hts : Lexical ts) :
    ∀ p ∈ parameters, p.Legible := by
  induction h with
  | nil => simp
  | last h => simpa using h.legible hts
  | cons h _ _ ih =>
    obtain ⟨hfirst, hrest⟩ := lexical_append.mp hts
    simpa using ⟨h.legible hfirst, ih (lexical_cons.mp hrest).2⟩

section Trees

variable {m : Manner}

/-- A node that the tokens spell, with all below it. -/
abbrev Node.Shown (n : Node) : Prop := n.Throughout Node.Legible

mutual

theorem Expr.Bare.shown {e : Expr} {ts : List Token} (h : Expr.Bare m e ts) (hts : Lexical ts) :
    (Node.expression e).Shown := by
  -- What the node spells itself is among the tokens, and the tokens of its parts lie between.
  match h with
  | .int _ _ | .string _ | .bool _ => exact .mk trivial (List.forall_mem_nil _)
  | .float hk hvalue =>
    exact .mk (Token.magnitude_le (hts _ List.mem_cons_self) hk hvalue) (List.forall_mem_nil _)
  | .symbol (.inl ht) =>
    exact .mk (ht.isSymbol (hts _ List.mem_cons_self)) (List.forall_mem_nil _)
  | .symbol (.inr ht) => exact .mk ht.isSymbol_this (List.forall_mem_nil _)
  | .binary hrule hk hv hleft hright =>
    simp only [lexical_append, lexical_cons] at hts
    obtain ⟨ha, ht, hb⟩ := hts
    refine .mk ⟨(Token.isSign_of_operatorRule ht hrule).congr hk hv, by rwa [hk] at hrule⟩ ?_
    exact List.forall_mem_cons.mpr ⟨hleft.shown ha, List.forall_mem_singleton.mpr (hright.shown hb)⟩
  | .unary hrule hk hv hoperand =>
    obtain ⟨ht, ha⟩ := lexical_cons.mp hts
    refine .mk ⟨(Token.isSign_of_unary ht hrule).congr hk hv, by rwa [hk] at hrule⟩ ?_
    exact List.forall_mem_singleton.mpr (hoperand.shown ha)
  | .assign hrule hk hv htarget hvalue =>
    simp only [lexical_append, lexical_cons] at hts
    obtain ⟨ha, ht, hb⟩ := hts
    refine .mk ⟨(Token.isSign_of_operatorRule ht hrule).congr hk hv, by rwa [hk] at hrule⟩ ?_
    exact List.forall_mem_cons.mpr
      ⟨htarget.shown ha, List.forall_mem_singleton.mpr (hvalue.shown hb)⟩
  | .member hobject _ hproperty =>
    simp only [lexical_append, lexical_cons] at hts
    obtain ⟨ha, _, ht, _⟩ := hts
    exact .mk (hproperty.isWord ht) (List.forall_mem_singleton.mpr (hobject.shown ha))
  | .index hobject _ hposition _ =>
    simp only [lexical_append, lexical_cons] at hts
    obtain ⟨ha, _, hb, _⟩ := hts
    refine .mk trivial ?_
    exact List.forall_mem_cons.mpr
      ⟨hobject.shown ha, List.forall_mem_singleton.mpr (hposition.shown hb)⟩
  | .call hcallee _ harguments _ =>
    simp only [lexical_append, lexical_cons] at hts
    obtain ⟨ha, _, hb, _⟩ := hts
    exact .mk trivial (List.forall_mem_cons.mpr ⟨hcallee.shown ha, shown_of_listed harguments hb⟩)
  | .range _ hlower hupper =>
    simp only [lexical_append, lexical_cons] at hts
    obtain ⟨ha, _, hb⟩ := hts
    refine .mk trivial ?_
    exact List.forall_mem_cons.mpr
      ⟨hlower.shown ha, List.forall_mem_singleton.mpr (hupper.shown hb)⟩
  | .function _ _ hparameters _ hresult (.mk _ hbody _) =>
    simp only [lexical_append, lexical_cons] at hts
    obtain ⟨_, _, ha, _, hb, _, hd, _⟩ := hts
    exact .mk ⟨legible_of_listed hparameters ha, plain_of_introduced hresult hb⟩
      (shown_of_chained hbody hd)
  | .array _ hitems _ =>
    simp only [lexical_append, lexical_cons] at hts
    obtain ⟨_, ha, _⟩ := hts
    exact .mk trivial (shown_of_listed hitems ha)
  | .arrayOf _ _ hitem _ hitems _ =>
    simp only [lexical_append, lexical_cons] at hts
    obtain ⟨_, _, ha, _, hb, _⟩ := hts
    exact .mk (hitem.plain ha) (shown_of_listed hitems hb)
  | .structOf _ hname _ hfields _ =>
    simp only [lexical_append, lexical_cons] at hts
    obtain ⟨_, ht, _, ha, _⟩ := hts
    obtain ⟨hnames, hvalues⟩ := shown_of_fields hfields ha
    exact .mk ⟨hname.isWord ht, hnames⟩ (List.forall_mem_map.mpr hvalues)
  | .construct _ hname _ harguments _ =>
    simp only [lexical_append, lexical_cons] at hts
    obtain ⟨_, ht, _, ha, _⟩ := hts
    exact .mk (hname.isWord ht) (shown_of_listed harguments ha)

theorem Expr.Spelled.shown {n : Nat} {e : Expr} {ts : List Token} (h : Expr.Spelled m n e ts)
    (hts : Lexical ts) : (Node.expression e).Shown := by
  match h with
  | .bare _ h => exact h.shown hts
  | .group _ h _ => exact h.shown (lexical_append.mp (lexical_cons.mp hts).2).1

theorem shown_of_listed {es : List Expr} {ts : List Token}
    (h : Listed (Expr.Spelled m Power.default.rank) es ts) (hts : Lexical ts) :
    ∀ n ∈ es.map Node.expression, n.Shown := by
  match h with
  | .nil => exact List.forall_mem_nil _
  | .last h => exact List.forall_mem_singleton.mpr (h.shown hts)
  | .cons h _ hrest =>
    simp only [lexical_append, lexical_cons] at hts
    obtain ⟨ha, _, hb⟩ := hts
    exact List.forall_mem_cons.mpr ⟨h.shown ha, shown_of_listed hrest hb⟩

theorem shown_of_fields {fields : List (String × Expr)} {ts : List Token}
    (h : Listed (Field.Spelled m) fields ts) (hts : Lexical ts) :
    (∀ field ∈ fields, Lexeme.IsWord field.1) ∧
      ∀ field ∈ fields, (Node.expression field.2).Shown := by
  match h with
  | .nil => exact ⟨List.forall_mem_nil _, List.forall_mem_nil _⟩
  | .last h =>
    obtain ⟨hname, hvalue⟩ := h.shown hts
    exact ⟨List.forall_mem_singleton.mpr hname, List.forall_mem_singleton.mpr hvalue⟩
  | .cons h _ hrest =>
    simp only [lexical_append, lexical_cons] at hts
    obtain ⟨ha, _, hb⟩ := hts
    obtain ⟨hname, hvalue⟩ := h.shown ha
    obtain ⟨hnames, hvalues⟩ := shown_of_fields hrest hb
    exact ⟨List.forall_mem_cons.mpr ⟨hname, hnames⟩, List.forall_mem_cons.mpr ⟨hvalue, hvalues⟩⟩

theorem Field.Spelled.shown {field : String × Expr} {ts : List Token}
    (h : Field.Spelled m field ts) (hts : Lexical ts) :
    Lexeme.IsWord field.1 ∧ (Node.expression field.2).Shown := by
  match h with
  | .mk hname _ h =>
    obtain ⟨hfirst, hrest⟩ := lexical_cons.mp hts
    exact ⟨hname.isWord hfirst, h.shown (lexical_cons.mp hrest).2⟩

theorem shown_of_optional {e : Option Expr} {ts : List Token}
    (h : Optional (Expr.Spelled m Power.default.rank) e ts) (hts : Lexical ts) :
    ∀ n ∈ e.toList.map Node.expression, n.Shown := by
  match h with
  | .none => exact List.forall_mem_nil _
  | .some h => exact List.forall_mem_singleton.mpr (h.shown hts)

theorem shown_of_value {value : Option Expr} {ts : List Token}
    (h : Introduced .assign (Expr.Spelled m Power.default.rank) value ts) (hts : Lexical ts) :
    ∀ n ∈ value.toList.map Node.expression, n.Shown := by
  match h with
  | .none => exact List.forall_mem_nil _
  | .some _ h => exact List.forall_mem_singleton.mpr (h.shown (lexical_cons.mp hts).2)

theorem Stmt.Spelled.shown {s : Stmt} {ts : List Token} (h : Stmt.Spelled m s ts)
    (hts : Lexical ts) : (Node.statement s).Shown := by
  match h with
  | .block h => exact h.shown hts
  | .expression he _ =>
    exact .mk trivial (List.forall_mem_singleton.mpr (he.shown (lexical_append.mp hts).1))
  | .varDecl _ hname htype hvalue _ _ _ =>
    simp only [lexical_append, lexical_cons] at hts
    obtain ⟨_, ht, ha, hb, _⟩ := hts
    exact .mk ⟨hname.isWord ht, plain_of_introduced htype ha⟩ (shown_of_value hvalue hb)
  | .fnDecl _ hname _ hparameters _ hresult hbody =>
    simp only [lexical_append, lexical_cons] at hts
    obtain ⟨_, ht, _, ha, _, hb, hd⟩ := hts
    exact .mk ⟨hname.isWord ht, legible_of_listed hparameters ha, plain_of_introduced hresult hb⟩
      (List.forall_mem_singleton.mpr (hbody.shown hd))
  | .classDecl _ hname hbody =>
    simp only [lexical_cons] at hts
    obtain ⟨_, ht, ha⟩ := hts
    exact .mk (hname.isWord ht) (List.forall_mem_singleton.mpr (hbody.shown ha))
  | .branch _ hcondition hbody hotherwise =>
    simp only [lexical_append, lexical_cons] at hts
    obtain ⟨_, ha, hb, hc⟩ := hts
    exact .mk trivial (List.forall_mem_cons.mpr ⟨hcondition.shown ha,
      List.forall_mem_cons.mpr ⟨hbody.shown hb, shown_of_otherwise hotherwise hc⟩⟩)
  | .forever _ _ hbody =>
    exact .mk trivial (List.forall_mem_singleton.mpr (hbody.shown (lexical_cons.mp hts).2))
  | .while _ hcondition _ hbody =>
    simp only [lexical_append, lexical_cons] at hts
    obtain ⟨_, ha, hb⟩ := hts
    exact .mk trivial (List.forall_mem_cons.mpr
      ⟨hcondition.shown ha, List.forall_mem_singleton.mpr (hbody.shown hb)⟩)
  | .loop _ hinit hcondition _ hpost _ hbody =>
    simp only [lexical_append, lexical_cons] at hts
    obtain ⟨_, ha, hb, _, hc, hd⟩ := hts
    refine .mk trivial (List.forall_mem_append.mpr ⟨hinit.shown ha, ?_⟩)
    refine List.forall_mem_append.mpr ⟨shown_of_optional hcondition hb, ?_⟩
    exact List.forall_mem_append.mpr
      ⟨shown_of_optional hpost hc, List.forall_mem_singleton.mpr (hbody.shown hd)⟩
  | .ret _ hvalue _ =>
    simp only [lexical_append, lexical_cons] at hts
    obtain ⟨_, ha, _⟩ := hts
    exact .mk trivial (shown_of_optional hvalue ha)
  | .importDecl _ hname _ _ =>
    simp only [lexical_cons] at hts
    exact .mk (hname.isWord hts.2.1) (List.forall_mem_nil _)

theorem shown_of_otherwise {otherwise : Option Stmt} {ts : List Token}
    (h : Introduced .elseWord (Otherwise.Spelled m) otherwise ts) (hts : Lexical ts) :
    ∀ n ∈ otherwise.toList.map Node.statement, n.Shown := by
  match h with
  | .none => exact List.forall_mem_nil _
  | .some _ h => exact List.forall_mem_singleton.mpr (h.shown (lexical_cons.mp hts).2)

theorem Otherwise.Spelled.shown {s : Stmt} {ts : List Token} (h : Otherwise.Spelled m s ts)
    (hts : Lexical ts) : (Node.statement s).Shown := by
  match h with
  | .block h => exact h.shown hts
  | .branch h => exact h.shown hts

theorem Init.Spelled.shown {init : Option Stmt} {ts : List Token} (h : Init.Spelled m init ts)
    (hts : Lexical ts) : ∀ n ∈ init.toList.map Node.statement, n.Shown := by
  match h with
  | .none _ => exact List.forall_mem_nil _
  | .varDecl h | .expression h => exact List.forall_mem_singleton.mpr (h.shown hts)

theorem shown_of_chained {ss : List Stmt} {ts : List Token} (h : Chained (Stmt.Spelled m) ss ts)
    (hts : Lexical ts) : ∀ n ∈ ss.map Node.statement, n.Shown := by
  match h with
  | .nil => exact List.forall_mem_nil _
  | .cons h hrest =>
    obtain ⟨ha, hb⟩ := lexical_append.mp hts
    exact List.forall_mem_cons.mpr ⟨h.shown ha, shown_of_chained hrest hb⟩

theorem Block.Spelled.shown {b : Block} {ts : List Token} (h : Block.Spelled m b ts)
    (hts : Lexical ts) : (Node.statement (.block b)).Shown := by
  match h with
  | .mk _ hbody _ =>
    simp only [lexical_append, lexical_cons] at hts
    obtain ⟨_, ha, _⟩ := hts
    exact .mk trivial (shown_of_chained hbody ha)

end

end Trees

/-- All nodes of a program that is read from a text show what its tokens are. -/
theorem legible_of_parse {source file file' : String} {b : Block} {c : Cursor}
    (h : parse (tokenize source file).1 file' = .ok b c) : b.Throughout Node.Legible := by
  obtain ⟨us, hrest, hus, -⟩ := Cursor.exists_rest_ofTokens file' (tokenize source file).1
  have hproper := Cursor.proper_ofTokens (proper_tokenize source file) file'
  obtain ⟨ts, hts, -, hspelled⟩ := Grammar.takes_program file' _ hproper b c h
  have hlexical : Lexical ts := by
    intro t ht hstring heof
    have hmem : t ∈ (tokenize source file).1 ++ us := by
      rw [← hrest, hts]
      exact List.mem_append_left _ ht
    exact (List.mem_append.mp hmem).elim (fun ht => isLexeme_tokenize ht hstring heof)
      fun ht => absurd (hus t ht).1 heof
  obtain ⟨body, span⟩ := b
  exact .mk trivial (shown_of_chained hspelled hlexical)

end Scriptlet
