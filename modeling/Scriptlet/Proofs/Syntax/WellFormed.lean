import Scriptlet.Proofs.Numeral.Digits
import Scriptlet.Proofs.Syntax.Heads

namespace Scriptlet

inductive Ty.WellFormed : Ty → Prop
  | named {name} : Lexeme.IsName name → Ty.WellFormed (.named name)
  | primitive {k text} : k.spelling? = some text → Grammar.standard.typeRule k = some .named →
    Ty.WellFormed (.named text)
  | list {item} : Ty.WellFormed item → Ty.WellFormed (.list item)

structure Parameter.WellFormed (p : Parameter) : Prop where
  name : Lexeme.IsName p.name
  type : p.type.WellFormed

/-- A statement that can stand behind `else`. -/
inductive Stmt.IsOtherwise : Stmt → Prop
  | block {b} : Stmt.IsOtherwise (.block b)
  | branch {condition body otherwise s} : Stmt.IsOtherwise (.branch condition body otherwise s)

theorem Stmt.IsOtherwise.spelled {m : Manner} {s : Stmt} (h : s.IsOtherwise) {ts : List Token}
    (hs : Stmt.Spelled m s ts) : Otherwise.Spelled m s ts := by
  cases h with
  | block =>
    cases hs with
    | block hb => exact .block hb
  | branch => exact .branch hs

/-- A statement that can be the first clause of a loop. -/
inductive Stmt.IsInit : Stmt → Prop
  | varDecl {name constant type value s} : Stmt.IsInit (.varDecl name constant type value s)
  | expression {e s} : Stmt.IsInit (.expression e s)

theorem Stmt.IsInit.spelled {m : Manner} {s : Stmt} (h : s.IsInit) {ts : List Token}
    (hs : Stmt.Spelled m s ts) : Init.Spelled m (some s) ts := by
  cases h with
  | varDecl => exact .varDecl hs
  | expression => exact .expression hs

mutual

inductive Expr.WellFormed : Expr → Prop
  | int {value s} : 0 ≤ value → Expr.WellFormed (.int value s)
  | float {value s text} : Numeral.binary64? text = some value → Expr.WellFormed (.float value s)
  | string {value s} : Expr.WellFormed (.string value s)
  | bool {value s} : Expr.WellFormed (.bool value s)
  | symbol {name s} : Lexeme.IsName name ∨ name = "this" → Expr.WellFormed (.symbol name s)
  | binary {operator left right s} :
    Grammar.standard.operatorRule operator.kind = some .binary → Expr.WellFormed left →
    Expr.WellFormed right → Expr.WellFormed (.binary operator left right s)
  | unary {operator operand s} : Grammar.standard.operandRule operator.kind = some .unary →
    Expr.WellFormed operand → Expr.WellFormed (.unary operator operand s)
  | assign {operator target value s} :
    Grammar.standard.operatorRule operator.kind = some .assign → Expr.WellFormed target →
    Expr.WellFormed value → Expr.WellFormed (.assign operator target value s)
  | member {object property s} : Expr.WellFormed object → Lexeme.IsName property →
    Expr.WellFormed (.member object property s)
  | index {object position s} : Expr.WellFormed object → Expr.WellFormed position →
    Expr.WellFormed (.index object position s)
  | call {callee arguments s} : Expr.WellFormed callee → (∀ e ∈ arguments, Expr.WellFormed e) →
    Expr.WellFormed (.call callee arguments s)
  | range {lower upper s} : Expr.WellFormed lower → Expr.WellFormed upper →
    Expr.WellFormed (.range lower upper s)
  | function {parameters result body s} : (∀ p ∈ parameters, p.WellFormed) →
    (∀ t ∈ result, t.WellFormed) → (∀ s ∈ body, Stmt.WellFormed s) →
    Expr.WellFormed (.function parameters result body s)
  | array {items s} : (∀ e ∈ items, Expr.WellFormed e) → Expr.WellFormed (.array items s)
  | arrayOf {item items s} : item.WellFormed → (∀ e ∈ items, Expr.WellFormed e) →
    Expr.WellFormed (.arrayOf item items s)
  | structOf {name fields s} : Lexeme.IsName name → (∀ f ∈ fields, Lexeme.IsName f.1) →
    (∀ f ∈ fields, Expr.WellFormed f.2) → Expr.WellFormed (.structOf name fields s)
  | construct {name arguments s} : Lexeme.IsName name → (∀ e ∈ arguments, Expr.WellFormed e) →
    Expr.WellFormed (.construct name arguments s)

inductive Stmt.WellFormed : Stmt → Prop
  | block {b} : Block.WellFormed b → Stmt.WellFormed (.block b)
  | expression {e s} : Expr.WellFormed e → Stmt.WellFormed (.expression e s)
  | varDecl {name constant type value s} : Lexeme.IsName name → (∀ t ∈ type, t.WellFormed) →
    (∀ e ∈ value, Expr.WellFormed e) → type.isSome ∨ value.isSome →
    (constant = true → value.isSome) → Stmt.WellFormed (.varDecl name constant type value s)
  | fnDecl {name parameters result body s} : Lexeme.IsName name →
    (∀ p ∈ parameters, p.WellFormed) → (∀ t ∈ result, t.WellFormed) → Block.WellFormed body →
    Stmt.WellFormed (.fnDecl name parameters result body s)
  | classDecl {name body s} : Lexeme.IsName name → Block.WellFormed body →
    Stmt.WellFormed (.classDecl name body s)
  | branch {condition body otherwise s} : Expr.WellFormed condition → Block.WellFormed body →
    (∀ s ∈ otherwise, Stmt.WellFormed s) → (∀ s ∈ otherwise, s.IsOtherwise) →
    Stmt.WellFormed (.branch condition body otherwise s)
  | loop {init condition post b s} : (∀ s ∈ init, Stmt.WellFormed s) → (∀ s ∈ init, s.IsInit) →
    (∀ e ∈ condition, Expr.WellFormed e) → (∀ e ∈ post, Expr.WellFormed e) →
    Block.WellFormed b → Stmt.WellFormed (.loop init condition post (.block b) s)
  | ret {value s} : (∀ e ∈ value, Expr.WellFormed e) → Stmt.WellFormed (.ret value s)
  | importDecl {name source s} : Lexeme.IsName name → Stmt.WellFormed (.importDecl name source s)

inductive Block.WellFormed : Block → Prop
  | mk {body s} : (∀ s ∈ body, Stmt.WellFormed s) → Block.WellFormed (.mk body s)

end

namespace Token

/-- The word, operator or delimiter of a kind. -/
def word (k : Kind) : Token := ⟨k, k.spelling?.getD "", default⟩

theorem is_word {k : Kind} (hk : k.spelling?.isSome) : (word k).Is k := by
  refine ⟨rfl, ?_⟩
  rw [word, Option.eq_some_of_isSome hk]
  rfl

/-- The token of a name. -/
def named (name : String) : Token := ⟨.identifier, name, default⟩

theorem isName_named {name : String} (h : Lexeme.IsName name) : (named name).IsName := ⟨rfl, h⟩

end Token

section Writing

variable {α : Type} {R : α → List Token → Prop}

theorem exists_listed {as : List α} (h : ∀ a ∈ as, ∃ ts, R a ts) : ∃ ts, Listed R as ts := by
  induction as with
  | nil => exact ⟨_, .nil⟩
  | cons a as ih =>
    obtain ⟨ts, hts⟩ := h a List.mem_cons_self
    obtain ⟨us, hus⟩ := ih fun b hb => h b (List.mem_cons_of_mem a hb)
    exact ⟨_, .cons hts (Token.is_word (by decide)) hus⟩

theorem exists_chained {as : List α} (h : ∀ a ∈ as, ∃ ts, R a ts) :
    ∃ ts, Chained R as ts := by
  induction as with
  | nil => exact ⟨_, .nil⟩
  | cons a as ih =>
    obtain ⟨ts, hts⟩ := h a List.mem_cons_self
    obtain ⟨us, hus⟩ := ih fun b hb => h b (List.mem_cons_of_mem a hb)
    exact ⟨_, .cons hts hus⟩

theorem exists_optional {o : Option α} (h : ∀ a ∈ o, ∃ ts, R a ts) :
    ∃ ts, Optional R o ts := by
  cases o with
  | none => exact ⟨_, .none⟩
  | some a =>
    obtain ⟨ts, hts⟩ := h a rfl
    exact ⟨_, .some hts⟩

theorem exists_introduced {k : Kind} (hk : k.spelling?.isSome) {o : Option α}
    (h : ∀ a ∈ o, ∃ ts, R a ts) : ∃ ts, Introduced k R o ts := by
  cases o with
  | none => exact ⟨_, .none⟩
  | some a =>
    obtain ⟨ts, hts⟩ := h a rfl
    exact ⟨_, .some (Token.is_word hk) hts⟩

end Writing

theorem Ty.WellFormed.exists_spelled {t : Ty} (h : t.WellFormed) : ∃ ts, Ty.Spelled t ts := by
  induction h with
  | named hname => exact ⟨_, .named (Token.isName_named hname)⟩
  | @primitive k text hk hrule =>
    exact ⟨_, .primitive (t := ⟨k, text, default⟩) ⟨rfl, hk⟩ hrule⟩
  | list _ ih =>
    obtain ⟨ts, hts⟩ := ih
    exact ⟨_, .list (Token.is_word (by decide)) (Token.is_word (by decide)) hts⟩

theorem Parameter.WellFormed.exists_spelled {p : Parameter} (h : p.WellFormed) :
    ∃ ts, Parameter.Spelled p ts := by
  obtain ⟨ts, hts⟩ := h.type.exists_spelled
  exact ⟨_, .mk (Token.isName_named h.name) (Token.is_word (by decide)) hts⟩

/-- Whatever place an expression stands in, parentheses make it fit. -/
theorem Expr.WellFormed.exists_group {e : Expr} (h : e.WellFormed)
    (hbare : ∃ ts, Expr.Bare .strict e ts) (n : Nat) : ∃ ts, Expr.Spelled .strict n e ts := by
  obtain ⟨ts, hts⟩ := hbare
  have hpos : Power.default.rank < e.strength := by
    cases h with
    | binary ho =>
      exact Nat.lt_of_le_of_lt (Nat.zero_le _) (Grammar.standard_binary ho).1
    | @array items => cases items <;> exact Nat.succ_pos _
    | _ => exact Nat.succ_pos _
  exact ⟨_, .group (Token.is_word (by decide)) (.bare hpos hts) (Token.is_word (by decide))⟩

-- Parentheses are put around every part, so that the places of the parts do not matter.
mutual

theorem Expr.WellFormed.exists_spelled {e : Expr} (h : e.WellFormed) (n : Nat) :
    ∃ ts, Expr.Spelled .strict n e ts := by
  -- In parentheses the expression can stand at any level, so its bare spelling is enough.
  refine h.exists_group ?_ n
  match h with
  | @Expr.WellFormed.int value _ hvalue =>
    refine ⟨_, .int (t := ⟨.int, String.ofList (Nat.toDigits 10 value.toInt.toNat), default⟩) rfl
      ?_⟩
    rw [String.toList_ofList, Numeral.int64?_toDigits_toInt hvalue]
  | @Expr.WellFormed.float _ _ text hvalue =>
    refine ⟨_, .float (t := ⟨.float, String.ofList text, default⟩) rfl ?_⟩
    rw [String.toList_ofList, hvalue]
  | @Expr.WellFormed.string value _ =>
    exact ⟨_, .string (t := ⟨.string, value, default⟩) rfl⟩
  | @Expr.WellFormed.bool value _ =>
    exact ⟨_, .bool (Token.is_word (by cases value <;> decide))⟩
  | .symbol (.inl hname) => exact ⟨_, .symbol (.inl (Token.isName_named hname))⟩
  | .symbol (.inr hthis) =>
    subst hthis
    exact ⟨[Token.word .thisWord], .symbol (.inr (Token.is_word (by decide)))⟩
  | .binary ho hl hr =>
    obtain ⟨a, ha⟩ := hl.exists_spelled _
    obtain ⟨b, hb⟩ := hr.exists_spelled _
    exact ⟨_, .binary ho rfl rfl ha hb⟩
  | .unary ho he =>
    obtain ⟨a, ha⟩ := he.exists_spelled _
    exact ⟨_, .unary ho rfl rfl ha⟩
  | .assign ho ht hv =>
    obtain ⟨a, ha⟩ := ht.exists_spelled _
    obtain ⟨b, hb⟩ := hv.exists_spelled _
    exact ⟨_, .assign ho rfl rfl ha hb⟩
  | .member ho hname =>
    obtain ⟨a, ha⟩ := ho.exists_spelled _
    exact ⟨_, .member ha (Token.is_word (by decide)) (Token.isName_named hname)⟩
  | .index ho hp =>
    obtain ⟨a, ha⟩ := ho.exists_spelled _
    obtain ⟨b, hb⟩ := hp.exists_spelled _
    exact ⟨_, .index ha (Token.is_word (by decide)) hb (Token.is_word (by decide))⟩
  | .call hc harguments =>
    obtain ⟨a, ha⟩ := hc.exists_spelled _
    obtain ⟨b, hb⟩ := exists_listed fun e he => (harguments e he).exists_spelled _
    exact ⟨_, .call ha (Token.is_word (by decide)) hb (Token.is_word (by decide))⟩
  | .range hl hu =>
    obtain ⟨a, ha⟩ := hl.exists_spelled _
    obtain ⟨b, hb⟩ := hu.exists_spelled _
    exact ⟨_, .range (Token.is_word (by decide)) ha hb⟩
  | .function hparameters hresult hbody =>
    obtain ⟨a, ha⟩ := exists_listed fun p hp => (hparameters p hp).exists_spelled
    obtain ⟨b, hb⟩ := exists_introduced (k := .colon) (by decide) fun t ht =>
      (hresult t ht).exists_spelled
    obtain ⟨d, hd⟩ := exists_chained fun s hs => (hbody s hs).exists_spelled
    exact ⟨_, .function (Token.is_word (by decide)) (Token.is_word (by decide)) ha
      (Token.is_word (by decide)) hb
      (.mk (s := default) (Token.is_word (by decide)) hd (Token.is_word (by decide)))⟩
  | .array hitems =>
    obtain ⟨a, ha⟩ := exists_listed fun e he => (hitems e he).exists_spelled _
    exact ⟨_, .array (Token.is_word (by decide)) ha (Token.is_word (by decide))⟩
  | .arrayOf hitem hitems =>
    obtain ⟨a, ha⟩ := hitem.exists_spelled
    obtain ⟨b, hb⟩ := exists_listed fun e he => (hitems e he).exists_spelled _
    exact ⟨_, .arrayOf (Token.is_word (by decide)) (Token.is_word (by decide)) ha
      (Token.is_word (by decide)) hb (Token.is_word (by decide))⟩
  | .structOf hname hnames hvalues =>
    obtain ⟨a, ha⟩ := exists_listed (R := Field.Spelled .strict) fun f hf => by
      obtain ⟨ts, hts⟩ := (hvalues f hf).exists_spelled Power.default.rank
      exact ⟨_, .mk (Token.isName_named (hnames f hf)) (Token.is_word (by decide)) hts⟩
    exact ⟨_, .structOf (Token.is_word (by decide)) (Token.isName_named hname)
      (Token.is_word (by decide)) ha (Token.is_word (by decide))⟩
  | .construct hname harguments =>
    obtain ⟨a, ha⟩ := exists_listed fun e he => (harguments e he).exists_spelled _
    exact ⟨_, .construct (Token.is_word (by decide)) (Token.isName_named hname)
      (Token.is_word (by decide)) ha (Token.is_word (by decide))⟩

theorem Stmt.WellFormed.exists_spelled {s : Stmt} (h : s.WellFormed) :
    ∃ ts, Stmt.Spelled .strict s ts := by
  match h with
  | .block hb =>
    obtain ⟨a, ha⟩ := hb.exists_spelled
    exact ⟨_, .block ha⟩
  | .expression he =>
    obtain ⟨a, ha⟩ := he.exists_spelled _
    exact ⟨_, .expression ha (Token.is_word (by decide))⟩
  | @Stmt.WellFormed.varDecl _ constant _ _ _ hname htype hvalue hgiven hconstant =>
    obtain ⟨a, ha⟩ := exists_introduced (k := .colon) (by decide) fun t ht =>
      (htype t ht).exists_spelled
    obtain ⟨b, hb⟩ := exists_introduced (k := .assign) (by decide) fun e he =>
      (hvalue e he).exists_spelled _
    exact ⟨_, .varDecl (Token.is_word (by cases constant <;> decide)) (Token.isName_named hname) ha
      hb hgiven hconstant (Token.is_word (by decide))⟩
  | .fnDecl hname hparameters hresult hbody =>
    obtain ⟨a, ha⟩ := exists_listed fun p hp => (hparameters p hp).exists_spelled
    obtain ⟨b, hb⟩ := exists_introduced (k := .colon) (by decide) fun t ht =>
      (hresult t ht).exists_spelled
    obtain ⟨d, hd⟩ := hbody.exists_spelled
    exact ⟨_, .fnDecl (Token.is_word (by decide)) (Token.isName_named hname)
      (Token.is_word (by decide)) ha (Token.is_word (by decide)) hb hd⟩
  | .classDecl hname hbody =>
    obtain ⟨a, ha⟩ := hbody.exists_spelled
    exact ⟨_, .classDecl (Token.is_word (by decide)) (Token.isName_named hname) ha⟩
  | .branch hcondition hbody hotherwise hkind =>
    obtain ⟨a, ha⟩ := hcondition.exists_spelled _
    obtain ⟨b, hb⟩ := hbody.exists_spelled
    obtain ⟨d, hd⟩ := exists_introduced (k := .elseWord) (R := Otherwise.Spelled .strict)
      (by decide) fun s hs => by
        obtain ⟨ts, hts⟩ := (hotherwise s hs).exists_spelled
        exact ⟨ts, (hkind s hs).spelled hts⟩
    exact ⟨_, .branch (Token.is_word (by decide)) ha hb hd⟩
  | @Stmt.WellFormed.loop init _ _ body _ hinit hkind hcondition hpost hbody =>
    -- What stands first in a loop is a declaration or an expression, with a semicolon either way.
    have hfirst : ∀ s ∈ init, ∃ ts, Init.Spelled .strict (some s) ts := fun s hs => by
      obtain ⟨ts, hts⟩ := (hinit s hs).exists_spelled
      exact ⟨ts, (hkind s hs).spelled hts⟩
    obtain ⟨a, ha⟩ : ∃ ts, Init.Spelled .strict init ts := by
      cases init with
      | none => exact ⟨_, .none (Token.is_word (by decide))⟩
      | some s => exact hfirst s rfl
    obtain ⟨b, hb⟩ := exists_optional fun e he => (hcondition e he).exists_spelled _
    obtain ⟨d, hd⟩ := exists_optional fun e he => (hpost e he).exists_spelled _
    obtain ⟨ts, hts⟩ := hbody.exists_spelled
    exact ⟨_, .loop (Token.is_word (by decide)) ha hb (Token.is_word (by decide)) hd ⟨body, rfl⟩
      (.block hts)⟩
  | .ret hvalue =>
    obtain ⟨a, ha⟩ := exists_optional fun e he => (hvalue e he).exists_spelled _
    exact ⟨_, .ret (Token.is_word (by decide)) ha (Token.is_word (by decide))⟩
  | .importDecl hname =>
    obtain ⟨a, ha⟩ := exists_introduced (k := .fromWord) (R := SourceSpelled) (by decide)
      fun source _ => ⟨_, .mk (t := ⟨.string, source, default⟩) (.inl rfl)⟩
    exact ⟨_, .importDecl (Token.is_word (by decide)) (Token.isName_named hname) ha
      (Token.is_word (by decide))⟩

theorem Block.WellFormed.exists_spelled {b : Block} (h : b.WellFormed) :
    ∃ ts, Block.Spelled .strict b ts := by
  match h with
  | .mk hbody =>
    obtain ⟨a, ha⟩ := exists_chained fun s hs => (hbody s hs).exists_spelled
    exact ⟨_, .mk (Token.is_word (by decide)) ha (Token.is_word (by decide))⟩

end

end Scriptlet
