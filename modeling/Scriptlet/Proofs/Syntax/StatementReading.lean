import Scriptlet.Proofs.Syntax.ExpressionReading

namespace Scriptlet

open Scriptlet.Parser

namespace Level.Reads

variable {below : Level} {n : Nat} {c : Cursor} {t word name semicolon : Token}
  {ts us rest : List Token} {s : Span}

theorem readExpressionStatement (hb : below.Reads n) {e : Expr}
    (he : Expr.Spelled .strict Power.default.rank e ts) (hn : ts.length ≤ n)
    (hsemicolon : semicolon.Is .semicolon) (hrest : rest ≠ [])
    (hc : c.rest = ts ++ semicolon :: rest) :
    ReadsTo (StatementRule.readExpression below) c rest
      (fun s' => s'.unplaced = (Stmt.expression e s).unplaced) := by
  apply (readsTo_get hc).bind
  intro _ c _ hc
  apply (hb.whole he hn hc (.of_kind hsemicolon.kind rfl rfl)).bind
  intro e' c he' hc
  apply (readsTo_expect hc hsemicolon.kind hrest).next
  intro c hc
  apply (readsTo_spanFrom _ hc).bind
  intro _ c _ hc
  apply readsTo_pure hc
  simp only [Stmt.respan, he']

theorem readInitializer (hb : below.Reads n) {typed : Bool} {value : Option Expr}
    (hvalue : Introduced .assign (Expr.Spelled .strict Power.default.rank) value ts)
    (hn : ts.length ≤ n) (htyped : typed = true ∨ value.isSome) (ht : t.kind = .semicolon)
    (hc : c.rest = ts ++ t :: rest) :
    ReadsTo (StatementRule.readInitializer below typed) c (t :: rest)
      (fun value' => value'.map Expr.unplaced = value.map Expr.unplaced) := by
  cases hvalue with
  | none =>
    obtain rfl : typed = true := htyped.resolve_right (by simp)
    apply (readsTo_kind hc).next
    intro c hc
    rw [if_neg (fun h => h ht), if_pos rfl]
    exact readsTo_pure hc rfl
  | @some e u us hu he =>
    apply (readsTo_kind hc).next
    intro c hc
    rw [if_pos (by rw [hu.kind]; decide)]
    apply (readsTo_expect hc hu.kind (by simp)).next
    intro c hc
    simp only [List.length_cons] at hn
    apply (hb.whole he (by omega) hc (.of_kind ht rfl rfl)).bind
    intro e' c he' hc
    exact readsTo_pure hc (by rw [Option.map_some, Option.map_some, he'])

theorem readVarDecl (hb : below.Reads n) {constant : Bool} {type : Option Ty}
    {value : Option Expr} (hword : word.Is (if constant then .constWord else .letWord))
    (hname : name.kind = .identifier) (htype : Introduced .colon Ty.Spelled type ts)
    (hn : ts.length ≤ n)
    (hvalue : Introduced .assign (Expr.Spelled .strict Power.default.rank) value us)
    (hn' : us.length ≤ n) (hgiven : type.isSome ∨ value.isSome)
    (hconstant : constant = true → value.isSome) (hsemicolon : semicolon.Is .semicolon)
    (hrest : rest ≠ []) (hc : c.rest = word :: name :: (ts ++ (us ++ semicolon :: rest))) :
    ReadsTo (StatementRule.readVarDecl below) c rest
      (fun s' => s'.unplaced = (Stmt.varDecl name.value constant type value s).unplaced) := by
  have hword' : decide (word.kind = .constWord) = constant := by
    rw [hword.kind]
    cases constant <;> rfl
  -- The annotation ends before the value or, where there is none, before the semicolon.
  obtain ⟨u, vs, hsplit, hu⟩ : ∃ u vs, us ++ semicolon :: rest = u :: vs ∧ u.kind ≠ .colon := by
    cases hvalue with
    | none => exact ⟨_, _, rfl, by rw [hsemicolon.kind]; decide⟩
    | some hu _ => exact ⟨_, _, rfl, by rw [hu.kind]; decide⟩
  apply (readsTo_advance hc (by simp)).next
  intro c hc
  apply (readsTo_get hc).bind
  intro c' c _ hc
  apply (readsTo_expectOr hc hname (by simp [hsplit])).next
  intro c hc
  rw [hsplit] at hc
  apply (hb.annotation? htype hn hc hu).next
  intro c hc
  rw [← hsplit] at hc
  apply (hb.readInitializer hvalue hn' hgiven hsemicolon.kind hc).bind
  intro value' c hvalue' hc
  have hsome : value'.isSome = value.isSome := by
    rw [← Option.isSome_map (f := Expr.unplaced), hvalue', Option.isSome_map]
  have hrequired : (!decide (word.kind = .constWord) || value'.isSome) = true := by
    rw [hword', hsome]
    cases constant with
    | false => rfl
    | true => exact hconstant rfl
  apply (readsTo_require hc hrequired).bind
  intro _ c _ hc
  apply (readsTo_expect hc hsemicolon.kind hrest).next
  intro c hc
  apply (readsTo_spanFrom _ hc).bind
  intro _ c _ hc
  apply readsTo_pure hc
  simp only [Stmt.respan_varDecl, hvalue', hword']

theorem readsTo_readSource {source : Option String}
    (h : Introduced .fromWord SourceSpelled source ts) (ht : t.kind ≠ .fromWord)
    (hc : c.rest = ts ++ t :: rest) :
    ReadsTo StatementRule.readSource c (t :: rest) (· = source) := by
  cases h with
  | none =>
    apply (readsTo_kind hc).next
    intro c hc
    rw [if_neg ht]
    exact readsTo_pure hc rfl
  | some hw hs =>
    obtain ⟨hk⟩ := hs
    apply (readsTo_kind hc).next
    intro c hc
    rw [if_pos hw.kind]
    apply (readsTo_advance hc (by simp)).next
    intro c hc
    apply (readsTo_kind hc).next
    intro c hc
    rcases hk with hk | hk
    · rw [if_pos hk]
      apply (readsTo_advance hc (by simp)).next
      intro c hc
      exact readsTo_pure hc rfl
    · rw [if_neg (by rw [hk.kind]; decide)]
      apply (readsTo_expect hc hk.kind (by simp)).next
      intro c hc
      exact readsTo_pure hc rfl

theorem readsTo_readImport {source : Option String} (hname : name.kind = .identifier)
    (hsource : Introduced .fromWord SourceSpelled source ts) (hsemicolon : semicolon.Is .semicolon)
    (hrest : rest ≠ []) (hc : c.rest = word :: name :: (ts ++ semicolon :: rest)) :
    ReadsTo StatementRule.readImport c rest
      (fun s' => s'.unplaced = (Stmt.importDecl name.value source s).unplaced) := by
  apply (readsTo_advance hc (by simp)).next
  intro c hc
  apply (readsTo_expect hc hname (by simp)).next
  intro c hc
  apply (readsTo_readSource hsource (by rw [hsemicolon.kind]; decide) hc).next
  intro c hc
  apply (readsTo_expect hc hsemicolon.kind hrest).next
  intro c hc
  apply (readsTo_spanFrom _ hc).bind
  intro _ c _ hc
  exact readsTo_pure hc rfl

theorem readOtherwise (hb : below.Reads n) {otherwise : Option Stmt}
    (h : Introduced .elseWord (Otherwise.Spelled .strict) otherwise ts) (hn : ts.length ≤ n)
    (ht : t.kind ≠ .elseWord) (hc : c.rest = ts ++ t :: rest) :
    ReadsTo (StatementRule.readOtherwise below) c (t :: rest)
      (fun otherwise' => otherwise'.map Stmt.unplaced = otherwise.map Stmt.unplaced) := by
  cases h with
  | none =>
    apply (readsTo_kind hc).next
    intro c hc
    rw [if_neg ht]
    exact readsTo_pure hc rfl
  | some hw hs =>
    simp only [List.length_cons] at hn
    apply (readsTo_kind hc).next
    intro c hc
    rw [if_pos hw.kind]
    apply (readsTo_advance hc (by simp)).next
    intro c hc
    cases hs with
    | block hblock =>
      obtain ⟨u, vs, rfl, hu⟩ := hblock.head
      apply (readsTo_kind hc).next
      intro c hc
      rw [if_neg (by rw [hu]; decide)]
      apply (hb.block hblock (by omega) hc (by simp)).bind
      intro b c hb' hc
      apply readsTo_pure hc
      simp only [Option.map_some, Stmt.respan, hb']
    | branch hbranch =>
      obtain ⟨u, vs, rfl, hu⟩ := hbranch.head_branch
      apply (readsTo_kind hc).next
      intro c hc
      rw [if_pos hu]
      apply (hb.branch _ _ t rest c ⟨hbranch, u, vs, rfl, hu⟩ (by omega) ht hc).bind
      intro s' c hs' hc
      exact readsTo_pure hc (by rw [Option.map_some, Option.map_some, hs'])

theorem readBranch (hb : below.Reads n) {condition : Expr} {body : Block} {otherwise : Option Stmt}
    {vs : List Token} (he : Expr.Spelled .strict Power.default.rank condition ts)
    (hn : ts.length ≤ n) (hbody : Block.Spelled .strict body us) (hn' : us.length ≤ n)
    (hotherwise : Introduced .elseWord (Otherwise.Spelled .strict) otherwise vs)
    (hn'' : vs.length ≤ n) (ht : t.kind ≠ .elseWord)
    (hc : c.rest = word :: (ts ++ (us ++ (vs ++ t :: rest)))) :
    ReadsTo (StatementRule.readBranch below) c (t :: rest)
      (fun s' => s'.unplaced = (Stmt.branch condition body otherwise s).unplaced) := by
  obtain ⟨u, ws, rfl, hu⟩ := hbody.head
  apply (readsTo_advance hc (by simp)).next
  intro c hc
  apply (hb.whole he hn hc (.of_kind hu rfl rfl)).bind
  intro condition' c hcondition hc
  apply (hb.block hbody (Nat.le_succ_of_le hn') hc (by simp)).bind
  intro body' c hbody' hc
  apply (hb.readOtherwise hotherwise hn'' ht hc).bind
  intro otherwise' c hotherwise' hc
  apply (readsTo_spanFrom _ hc).bind
  intro _ c _ hc
  apply readsTo_pure hc
  simp only [Stmt.respan, Stmt.respan?_eq_map, hcondition, hbody', hotherwise']

theorem expression? (hb : below.Reads n) {e : Option Expr} {absent : Kind}
    (he : Optional (Expr.Spelled .strict Power.default.rank) e ts) (hn : ts.length ≤ n)
    (ht : t.kind = absent) (habsent : absent = .semicolon ∨ absent = .openCurly)
    (hc : c.rest = ts ++ t :: rest) :
    ReadsTo (below.expression? absent) c (t :: rest)
      (fun e' => e'.map Expr.unplaced = e.map Expr.unplaced) := by
  cases he with
  | none =>
    apply (readsTo_kind hc).next
    intro c hc
    rw [if_pos ht]
    exact readsTo_pure hc rfl
  | some he =>
    obtain ⟨u, us, rfl, hu, -⟩ := he.head
    have hne : u.kind ≠ absent := by
      rintro rfl
      rcases habsent with h | h <;> rw [h] at hu <;> cases hu
    have hend : Power.default.EndsBefore t := by
      rcases habsent with h | h <;> exact .of_kind (ht.trans h) rfl rfl
    apply (readsTo_kind hc).next
    intro c hc
    rw [if_neg hne]
    apply (hb.whole he hn hc hend).bind
    intro e' c he' hc
    exact readsTo_pure hc (by rw [Option.map_some, Option.map_some, he'])

theorem readClauses (hb : below.Reads n) {init init' : Option Stmt} {condition post : Option Expr}
    {body : Stmt} {vs : List Token} (start : Position)
    (hinit : init'.map Stmt.unplaced = init.map Stmt.unplaced)
    (hcondition : Optional (Expr.Spelled .strict Power.default.rank) condition ts)
    (hn : ts.length ≤ n) (hsemicolon : semicolon.Is .semicolon)
    (hpost : Optional (Expr.Spelled .strict Power.default.rank) post us) (hn' : us.length ≤ n)
    (hblock : Manner.strict.body body) (hbody : Stmt.Spelled .strict body vs) (hn'' : vs.length ≤ n)
    (ht : t.kind ≠ .elseWord) (hc : c.rest = ts ++ semicolon :: (us ++ (vs ++ t :: rest))) :
    ReadsTo (StatementRule.readClauses below start init') c (t :: rest)
      (fun s' => s'.unplaced = (Stmt.loop init condition post body s).unplaced) := by
  obtain ⟨u, ws, rfl, hu⟩ := hbody.head_body hblock
  apply (hb.expression? hcondition hn hsemicolon.kind (.inl rfl) hc).bind
  intro condition' c hcondition' hc
  apply (readsTo_expect hc hsemicolon.kind (by simp)).next
  intro c hc
  apply (hb.expression? hpost hn' hu (.inr rfl) hc).bind
  intro post' c hpost' hc
  apply (hb.statement body _ t rest c hbody hn'' ht hc).bind
  intro body' c hbody' hc
  apply (readsTo_spanFrom _ hc).bind
  intro _ c _ hc
  apply readsTo_pure hc
  simp only [Stmt.respan, Stmt.respan?_eq_map, Expr.respan?_eq_map, hinit, hcondition', hpost',
    hbody']

theorem readLoop_forever (hb : below.Reads n) {body : Stmt} (hblock : Manner.strict.body body)
    (hbody : Stmt.Spelled .strict body ts) (hn : ts.length ≤ n) (ht : t.kind ≠ .elseWord)
    (hc : c.rest = word :: (ts ++ t :: rest)) :
    ReadsTo (StatementRule.readLoop below) c (t :: rest)
      (fun s' => s'.unplaced = (Stmt.loop .none .none .none body s).unplaced) := by
  obtain ⟨u, ws, rfl, hu⟩ := hbody.head_body hblock
  apply (readsTo_advance hc (by simp)).next
  intro c hc
  apply (readsTo_kind hc).next
  intro c hc
  rw [hu]
  apply (hb.statement body _ t rest c hbody hn ht hc).bind
  intro body' c hbody' hc
  apply (readsTo_spanFrom _ hc).bind
  intro _ c _ hc
  apply readsTo_pure hc
  simp only [Stmt.respan, Stmt.respan?, Expr.respan?, hbody']

theorem readLoop_while (hb : below.Reads n) {condition : Expr} {body : Stmt}
    (he : Expr.Spelled .strict Power.default.rank condition ts) (hn : ts.length ≤ n)
    (hblock : Manner.strict.body body) (hbody : Stmt.Spelled .strict body us)
    (hn' : us.length ≤ n) (ht : t.kind ≠ .elseWord)
    (hc : c.rest = word :: (ts ++ (us ++ t :: rest))) :
    ReadsTo (StatementRule.readLoop below) c (t :: rest)
      (fun s' => s'.unplaced = (Stmt.loop .none (some condition) .none body s).unplaced) := by
  obtain ⟨u, ws, rfl, hu⟩ := hbody.head_body hblock
  obtain ⟨v, vs, rfl, hv, -⟩ := he.head
  apply (readsTo_advance hc (by simp)).next
  intro c hc
  apply (readsTo_kind hc).next
  intro c hc
  -- The condition begins with none of the tokens that decide for another kind of loop.
  split <;> rename_i hk
  iterate 4 (rw [hk] at hv; cases hv)
  apply (readsTo_get hc).bind
  intro _ c _ hc
  apply (hb.whole he hn hc (.of_kind hu rfl rfl)).bind
  intro condition' c hcondition hc
  apply (readsTo_kind hc).next
  intro c hc
  rw [if_pos (by rw [hu]; decide)]
  apply (hb.statement body _ t rest c hbody hn' ht hc).bind
  intro body' c hbody' hc
  apply (readsTo_spanFrom _ hc).bind
  intro _ c _ hc
  apply readsTo_pure hc
  simp only [Stmt.respan, Stmt.respan?, Expr.respan?, hcondition, hbody']

/-- The first clause decides how the loop is read. -/
theorem readLoop (hb : below.Reads n) {init : Option Stmt} {condition post : Option Expr}
    {body : Stmt} {is vs : List Token} (hinit : Init.Spelled .strict init is) (hi : is.length ≤ n)
    (hcondition : Optional (Expr.Spelled .strict Power.default.rank) condition ts)
    (hn : ts.length ≤ n) (hsemicolon : semicolon.Is .semicolon)
    (hpost : Optional (Expr.Spelled .strict Power.default.rank) post us) (hn' : us.length ≤ n)
    (hblock : Manner.strict.body body) (hbody : Stmt.Spelled .strict body vs) (hn'' : vs.length ≤ n)
    (ht : t.kind ≠ .elseWord)
    (hc : c.rest = word :: (is ++ (ts ++ semicolon :: (us ++ (vs ++ t :: rest))))) :
    ReadsTo (StatementRule.readLoop below) c (t :: rest)
      (fun s' => s'.unplaced = (Stmt.loop init condition post body s).unplaced) := by
  have hclauses {init' : Option Stmt} {c : Cursor} (start : Position)
      (hinit' : init'.map Stmt.unplaced = init.map Stmt.unplaced)
      (hc : c.rest = ts ++ semicolon :: (us ++ (vs ++ t :: rest))) :=
    hb.readClauses (s := s) start hinit' hcondition hn hsemicolon hpost hn' hblock hbody hn'' ht hc
  have hne : is ++ (ts ++ semicolon :: (us ++ (vs ++ t :: rest))) ≠ [] := by
    cases hinit <;> simp
  apply (readsTo_advance hc hne).next
  intro c hc
  cases hinit with
  | none hfirst =>
    apply (readsTo_kind hc).next
    intro c hc
    rw [hfirst.kind]
    apply (readsTo_advance hc (by simp)).next
    intro c hc
    exact hclauses _ rfl hc
  | @varDecl _ constant _ _ _ _ hs =>
    cases hs with
    | varDecl hw hname htype hvalue hgiven hconstant hlast =>
      simp only [List.length_append, List.length_cons] at hi
      simp only [List.append_assoc, List.cons_append, List.nil_append] at hc
      apply (readsTo_kind hc).next
      intro c hc
      have hread := hb.readVarDecl (s := default) hw hname.kind htype (by omega) hvalue (by omega)
        hgiven hconstant hlast (by simp) hc
      cases constant with
      | false | true =>
        rw [hw.kind]
        apply hread.bind
        intro init' c hinit' hc
        exact hclauses _ (congrArg some hinit') hc
  | expression hs =>
    cases hs with
    | expression he hlast =>
      obtain ⟨v, ws, rfl, hv, -⟩ := he.head
      simp only [List.length_append] at hi
      rw [List.append_assoc] at hc
      apply (readsTo_kind hc).next
      intro c hc
      -- An expression begins with none of the words that decide, and the semicolon behind it shows
      -- that it is no condition.
      split <;> rename_i hk
      iterate 4 (rw [hk] at hv; cases hv)
      apply (readsTo_get hc).bind
      intro _ c _ hc
      apply (hb.whole he (by omega) hc (.of_kind hlast.kind rfl rfl)).bind
      intro e' c he' hc
      apply (readsTo_kind hc).next
      intro c hc
      rw [if_neg (fun h => h hlast.kind)]
      apply (readsTo_advance hc (by simp)).next
      intro c hc
      apply (readsTo_spanFrom _ hc).bind
      intro s' c _ hc
      refine hclauses _ ?_ hc
      simp only [Option.map_some, Stmt.respan, he']

theorem readFnDecl (hb : below.Reads n) {parameters : List Parameter} {result : Option Ty}
    {body : Block} {o close : Token} {vs : List Token} (hname : name.kind = .identifier)
    (ho : o.Is .openParen) (hparameters : Listed Parameter.Spelled parameters ts)
    (hn : ts.length ≤ n) (hclose : close.Is .closeParen)
    (hresult : Introduced .colon Ty.Spelled result us) (hn' : us.length ≤ n)
    (hbody : Block.Spelled .strict body vs) (hn'' : vs.length ≤ n) (hrest : rest ≠ [])
    (hc : c.rest = word :: name :: o :: (ts ++ close :: (us ++ (vs ++ rest)))) :
    ReadsTo (StatementRule.readFnDecl below) c rest
      (fun s' => s'.unplaced = (Stmt.fnDecl name.value parameters result body s).unplaced) := by
  obtain ⟨curly, ws, rfl, hcurly⟩ := hbody.head
  apply (readsTo_get hc).bind
  intro c' c hc' hc
  rw [if_neg (fun h => h (by rw [Cursor.peek_of_rest hc', hname]))]
  apply (readsTo_advance hc (by simp)).next
  intro c hc
  apply (readsTo_expect hc hname (by simp)).next
  intro c hc
  apply (hb.parameters ho hparameters hn hclose (by simp) hc).next
  intro c hc
  apply (hb.annotation? hresult hn' hc (by rw [hcurly]; decide)).next
  intro c hc
  apply (hb.block hbody (Nat.le_succ_of_le hn'') hc hrest).bind
  intro body' c hbody' hc
  apply (readsTo_spanFrom _ hc).bind
  intro _ c _ hc
  apply readsTo_pure hc
  simp only [Stmt.respan, hbody']

theorem readClass (hb : below.Reads n) {body : Block} (hname : name.kind = .identifier)
    (hbody : Block.Spelled .strict body ts) (hn : ts.length ≤ n) (hrest : rest ≠ [])
    (hc : c.rest = word :: name :: (ts ++ rest)) :
    ReadsTo (StatementRule.readClass below) c rest
      (fun s' => s'.unplaced = (Stmt.classDecl name.value body s).unplaced) := by
  apply (readsTo_advance hc (by simp)).next
  intro c hc
  apply (readsTo_get hc).bind
  intro _ c _ hc
  apply (readsTo_expectOr hc hname (by simp [hrest])).next
  intro c hc
  apply (hb.block hbody (Nat.le_succ_of_le hn) hc hrest).bind
  intro body' c hbody' hc
  apply (readsTo_spanFrom _ hc).bind
  intro _ c _ hc
  apply readsTo_pure hc
  simp only [Stmt.respan, hbody']

theorem readReturn (hb : below.Reads n) {value : Option Expr}
    (hvalue : Optional (Expr.Spelled .strict Power.default.rank) value ts) (hn : ts.length ≤ n)
    (hsemicolon : semicolon.Is .semicolon) (hrest : rest ≠ [])
    (hc : c.rest = word :: (ts ++ semicolon :: rest)) :
    ReadsTo (StatementRule.readReturn below) c rest
      (fun s' => s'.unplaced = (Stmt.ret value s).unplaced) := by
  apply (readsTo_advance hc (by simp)).next
  intro c hc
  apply (hb.expression? hvalue hn hsemicolon.kind (.inl rfl) hc).bind
  intro value' c hvalue' hc
  apply (readsTo_expect hc hsemicolon.kind hrest).next
  intro c hc
  apply (readsTo_spanFrom _ hc).bind
  intro _ c _ hc
  apply readsTo_pure hc
  simp only [Stmt.respan_ret, hvalue']

/-- A statement is read by the rule of its first token. -/
theorem readsTo_readStatement {P : Stmt → Prop} (rule : StatementRule) (hc : c.rest = t :: ts)
    (hrule : Grammar.standard.statementRule t.kind = some rule)
    (h : ReadsTo (rule.read below) c rest P) :
    ReadsTo (Grammar.standard.readStatement below) c rest P := by
  obtain ⟨s', c', hread, hs'⟩ := h
  refine ⟨s', c', ?_, hs'⟩
  rw [Grammar.readStatement, bind_run_ok (kind_run c), Cursor.kind_of_rest hc]
  simp only [hrule, hread]

/-- No rule reads a statement that is an expression, but for a function without a name. -/
theorem readsTo_readStatement_expression {P : Stmt → Prop} (ht : t.BeginsOperand ts)
    (hc : c.rest = t :: ts) (h : ReadsTo (StatementRule.readExpression below) c rest P) :
    ReadsTo (Grammar.standard.readStatement below) c rest P := by
  obtain ⟨s', c', hread, hs'⟩ := h
  by_cases hk : t.kind = .functionWord
  · obtain ⟨u, us, rfl, hu⟩ := ht.2 hk
    have hpeek : c.peek ≠ .identifier := by
      rw [Cursor.peek_of_rest hc, hu]
      decide
    have hrun : StatementRule.fnDecl.read below c = .ok s' c' := by
      rw [StatementRule.read, StatementRule.readFnDecl, get_bind_run, if_pos hpeek, hread]
    exact readsTo_readStatement .fnDecl hc (by rw [hk]; rfl) ⟨s', c', hrun, hs'⟩
  · have hnone : Grammar.standard.statementRule t.kind = .none := by
      revert hk
      have hrule := ht.1
      revert hrule
      cases t.kind <;> decide
    refine ⟨s', c', ?_, hs'⟩
    rw [Grammar.readStatement, bind_run_ok (kind_run c), Cursor.kind_of_rest hc]
    simp only [hnone, hread]

theorem readStatement (hb : below.Reads n) :
    ReadsSpelled (Grammar.standard.readStatement below) (Stmt.Spelled .strict) Stmt.unplaced
      (fun t => t.kind ≠ .elseWord) (n + 1) := by
  intro s ts t rest c hs hn ht hc
  cases hs with
  | block hblock =>
    obtain ⟨u, us, rfl, hu⟩ := hblock.head
    apply readsTo_readStatement .block hc (by rw [hu]; rfl)
    apply (hb.block hblock hn hc (by simp)).bind
    intro b c hb' hc
    exact readsTo_pure hc (congrArg Stmt.block hb')
  | expression he hsemicolon =>
    obtain ⟨u, us, rfl, hu⟩ := he.head
    simp only [List.length_append, List.length_cons, List.length_nil] at hn
    simp only [List.append_assoc, List.cons_append, List.nil_append] at hc
    apply readsTo_readStatement_expression (hu.append _) hc
    exact hb.readExpressionStatement he (by simp; omega) hsemicolon (by simp) hc
  | @varDecl constant _ _ _ _ _ _ _ _ hw hname htype hvalue hgiven hconstant hsemicolon =>
    simp only [List.length_append, List.length_cons] at hn
    simp only [List.append_assoc, List.cons_append, List.nil_append] at hc
    apply readsTo_readStatement .varDecl hc (by rw [hw.kind]; cases constant <;> rfl)
    exact hb.readVarDecl hw hname.kind htype (by omega) hvalue (by omega) hgiven hconstant
      hsemicolon (by simp) hc
  | fnDecl hw hname ho hparameters hclose hresult hbody =>
    simp only [List.length_append, List.length_cons] at hn
    simp only [List.append_assoc, List.cons_append] at hc
    apply readsTo_readStatement .fnDecl hc (by rw [hw.kind]; rfl)
    exact hb.readFnDecl hname.kind ho hparameters (by omega) hclose hresult (by omega) hbody
      (by omega) (by simp) hc
  | classDecl hw hname hbody =>
    simp only [List.length_cons] at hn
    apply readsTo_readStatement .classDecl hc (by rw [hw.kind]; rfl)
    exact hb.readClass hname.kind hbody (by omega) (by simp) hc
  | branch hw he hbody hotherwise =>
    simp only [List.length_append, List.length_cons] at hn
    simp only [List.append_assoc, List.cons_append] at hc
    apply readsTo_readStatement .branch hc (by rw [hw.kind]; rfl)
    exact hb.readBranch he (by omega) hbody (by omega) hotherwise (by omega) ht hc
  | forever hw hblock hbody =>
    simp only [List.length_cons] at hn
    apply readsTo_readStatement .loop hc (by rw [hw.kind]; rfl)
    exact hb.readLoop_forever hblock hbody (by omega) ht hc
  | «while» hw he hblock hbody =>
    simp only [List.length_append, List.length_cons] at hn
    simp only [List.append_assoc, List.cons_append] at hc
    apply readsTo_readStatement .loop hc (by rw [hw.kind]; rfl)
    exact hb.readLoop_while he (by omega) hblock hbody (by omega) ht hc
  | loop hw hinit hcondition hsemicolon hpost hblock hbody =>
    simp only [List.length_append, List.length_cons] at hn
    simp only [List.append_assoc, List.cons_append] at hc
    apply readsTo_readStatement .loop hc (by rw [hw.kind]; rfl)
    exact hb.readLoop hinit (by omega) hcondition (by omega) hsemicolon hpost (by omega) hblock
      hbody (by omega) ht hc
  | ret hw hvalue hsemicolon =>
    simp only [List.length_append, List.length_cons] at hn
    simp only [List.append_assoc, List.cons_append, List.nil_append] at hc
    apply readsTo_readStatement .ret hc (by rw [hw.kind]; rfl)
    exact hb.readReturn hvalue (by omega) hsemicolon (by simp) hc
  | importDecl hw hname hsource hsemicolon =>
    simp only [List.append_assoc, List.cons_append, List.nil_append] at hc
    apply readsTo_readStatement .importDecl hc (by rw [hw.kind]; rfl)
    exact readsTo_readImport hname.kind hsource hsemicolon (by simp) hc

end Level.Reads

theorem Grammar.level_reads (n : Nat) : (Grammar.standard.level n).Reads n := by
  -- Nothing is spelled by no tokens; a level above reads parts that the one below it reads.
  induction n with
  | zero =>
    have hnil {ts : List Token} (hn : ts.length ≤ 0) : ts = [] :=
      List.eq_nil_of_length_eq_zero (Nat.le_zero.mp hn)
    refine ⟨?_, ?_, ?_, ?_⟩
    · intro type ts _ _ _ h hn
      obtain ⟨_, _, rfl, -⟩ := h.head
      cases hnil hn
    · intro _ _ _ _ e ts _ _ _ h hn
      obtain ⟨_, _, rfl, -⟩ := h.head
      cases hnil hn
    · intro s ts _ _ _ h hn
      obtain ⟨_, _, rfl, -⟩ := h.head
      cases hnil hn
    · rintro s ts _ _ _ ⟨-, _, _, rfl, -⟩ hn
      cases hnil hn
  | succ n ih =>
    refine ⟨ih.readType, fun power k hplace hpower => ih.readExpression hplace hpower,
      ih.readStatement, ?_⟩
    rintro s ts t rest c ⟨hs, u, us, rfl, hu⟩ hn ht hc
    obtain ⟨s', c', hread, hs'⟩ := ih.readStatement s _ t rest c hs hn ht hc
    rw [Grammar.readStatement, bind_run_ok (kind_run c), Cursor.kind_of_rest hc, hu] at hread
    exact ⟨s', c', hread, hs'⟩

/-- There are enough levels for everything that is left. -/
theorem Grammar.readsSpelled_statement (n : Nat) :
    ReadsSpelled Grammar.standard.statement (Stmt.Spelled .strict) Stmt.unplaced
      (fun t => t.kind ≠ .elseWord) n := by
  intro s ts t rest c hs _ ht hc
  have hlen : ts.length ≤ 2 * c.ahead.length + 4 := by
    have hrest := congrArg List.length hc
    rw [Cursor.length_rest, List.length_append, List.length_cons] at hrest
    omega
  have hreads := Grammar.level_reads (2 * c.ahead.length + 4)
  obtain ⟨s', c', hread, h⟩ := hreads.statement s ts t rest c hs hlen ht hc
  refine ⟨s', c', ?_, h⟩
  rw [Grammar.statement, Grammar.levelAt, hread]

end Scriptlet
