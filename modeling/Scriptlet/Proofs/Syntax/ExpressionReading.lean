import Scriptlet.Proofs.Syntax.Heads

/-!
Reading expressions that are spelled in the strict manner. What a level reads is said for parts of a
bounded number of tokens, since a rule reads parts that are shorter than what it reads itself.
-/
namespace Scriptlet

open Scriptlet.Parser

namespace Power

/-- Where an expression that is read at this power stands: it has to be stronger than that. A prefix
takes another prefix as its operand, though it reads it at the power of prefixes. -/
def place (power : Power) : Nat := min power.rank Power.multiplicative.rank

/-- An expression that is read at this power ends before the token, even if it ends in empty
brackets. -/
def EndsBefore (power : Power) (t : Token) : Prop :=
  (Grammar.standard.power t.kind).rank ≤ power.rank ∧ Grammar.standard.typeRule t.kind = none

theorem lt_of_place_lt {power q : Power} (h : power.place < q.rank)
    (hq : q.rank ≤ Power.multiplicative.rank) : power < q := by
  change power.rank < q.rank
  rw [place] at h
  omega

theorem place_le_unary (power : Power) : power.place ≤ Power.unary.rank :=
  Nat.le_trans (Nat.min_le_right _ _) (by decide)

end Power

/-- The level reads every part of at most `n` tokens as it is spelled. -/
structure Level.Reads (below : Level) (n : Nat) : Prop where
  type : ReadsSpelled (below.type .default) Ty.Spelled id (fun _ => True) n
  expression : ∀ (power : Power) (k : Nat), power.place ≤ k → power.rank ≤ Power.unary.rank →
    ReadsSpelled (below.expression power) (Expr.Spelled .strict k) Expr.unplaced
      power.EndsBefore n
  statement : ReadsSpelled below.statement (Stmt.Spelled .strict) Stmt.unplaced
    (fun t => t.kind ≠ .elseWord) n
  branch : ReadsSpelled below.branch
    (fun s ts => Stmt.Spelled .strict s ts ∧ ∃ t us, ts = t :: us ∧ t.kind = .ifWord)
    Stmt.unplaced (fun t => t.kind ≠ .elseWord) n

section Parts

variable {below : Level} {n : Nat} {c : Cursor} {t close : Token} {ts rest : List Token}

/-- A whole expression ends before any token that neither extends an expression nor begins a
type. -/
theorem Level.Reads.whole (hb : below.Reads n) {e : Expr}
    (he : Expr.Spelled .strict Power.default.rank e ts) (hn : ts.length ≤ n)
    (hc : c.rest = ts ++ t :: rest) (ht : Power.default.EndsBefore t) :
    ReadsTo (below.expression .default) c (t :: rest) (fun e' => e'.unplaced = e.unplaced) :=
  hb.expression .default 0 (Nat.le_refl 0) (by decide) e ts t rest c he hn ht hc

theorem Power.EndsBefore.of_kind {power : Power} {k : Kind} (hk : t.kind = k)
    (hp : Grammar.standard.power k = .default) (hr : Grammar.standard.typeRule k = none) :
    power.EndsBefore t := by
  subst hk
  exact ⟨by rw [hp]; exact Nat.zero_le _, hr⟩

theorem Level.Reads.annotation? (hb : below.Reads n) {type : Option Ty}
    (h : Introduced .colon Ty.Spelled type ts) (hn : ts.length ≤ n) (hc : c.rest = ts ++ t :: rest)
    (ht : t.kind ≠ .colon) : ReadsTo below.annotation? c (t :: rest) (· = type) := by
  cases h with
  | none =>
    apply (readsTo_kind hc).next
    intro c hc
    rw [if_neg ht]
    exact readsTo_pure hc rfl
  | @some type colon us hcol htype =>
    apply (readsTo_kind hc).next
    intro c hc
    rw [if_pos hcol.kind]
    apply (readsTo_advance hc (by simp)).next
    intro c hc
    apply (hb.type type us t rest c htype (Nat.le_of_succ_le hn) trivial hc).next
    intro c hc
    exact readsTo_pure hc rfl

theorem Level.Reads.parameter (hb : below.Reads n) (next : Token → Prop) :
    ReadsSpelled below.parameter Parameter.Spelled id next n := by
  rintro p ts t rest c ⟨hname, hcol, htype⟩ hn - hc
  apply (readsTo_expect hc hname.kind (by simp)).next
  intro c hc
  apply (readsTo_expect hc hcol.kind (by simp)).next
  intro c hc
  simp only [List.length_cons] at hn
  apply (hb.type _ _ t rest c htype (by omega) trivial hc).next
  intro c hc
  exact readsTo_pure hc rfl

theorem Level.Reads.parameters (hb : below.Reads n) {ps : List Parameter} {o : Token}
    (ho : o.Is .openParen) (hps : Listed Parameter.Spelled ps ts) (hn : ts.length ≤ n)
    (hclose : close.Is .closeParen) (hrest : rest ≠ []) (hc : c.rest = o :: (ts ++ close :: rest)) :
    ReadsTo below.parameters c rest (· = ps) := by
  have hfirst : Begins Parameter.Spelled (fun t => t.kind ≠ .closeParen ∧ t.kind ≠ .eof) := by
    rintro p ts ⟨hname, -, -⟩
    exact ⟨_, _, rfl, by simp [hname.kind]⟩
  apply (readsTo_expect hc ho.kind (by simp)).next
  intro c hc
  apply (readsTo_listUntil (hb.parameter _) hfirst hps hn hclose.kind (by decide) hrest hc).mono
  intro qs hqs
  rwa [List.map_id, List.map_id] at hqs

theorem Level.Reads.arguments (hb : below.Reads n) {es : List Expr} {closing : Kind}
    (hes : Listed (Expr.Spelled .strict Power.default.rank) es ts) (hn : ts.length ≤ n)
    (hclose : close.Is closing) (hrest : rest ≠ []) (hc : c.rest = ts ++ close :: rest)
    (h : closing = .closeParen ∨ closing = .closeBracket ∨ closing = .closeCurly) :
    ReadsTo (below.arguments closing) c rest
      (fun es' => es'.map Expr.unplaced = es.map Expr.unplaced) := by
  have hpower : Grammar.standard.power closing = .default ∧
      Grammar.standard.typeRule closing = Option.none ∧
      Grammar.standard.operandRule closing = Option.none ∧ closing ≠ .comma := by
    rcases h with rfl | rfl | rfl <;> decide
  have hitem : ReadsSpelled (below.expression .default)
      (Expr.Spelled .strict Power.default.rank) Expr.unplaced
      (fun t => t.kind = .comma ∨ t.kind = closing) n := by
    rintro e ts t rest c he hn (ht | ht) hc
    · exact hb.whole he hn hc (.of_kind ht rfl rfl)
    · exact hb.whole he hn hc (.of_kind ht hpower.1 hpower.2.1)
  have hfirst : Begins (Expr.Spelled .strict Power.default.rank)
      (fun t => t.kind ≠ closing ∧ t.kind ≠ .eof) := by
    apply Expr.begins_spelled
    intro t ht
    constructor
    · intro hk
      rw [hk, hpower.2.2.1] at ht
      cases ht
    · intro hk
      rw [hk] at ht
      cases ht
  exact readsTo_listUntil hitem hfirst hes hn hclose.kind hpower.2.2.2 hrest hc

theorem Level.Reads.field (hb : below.Reads n) :
    ReadsSpelled below.field (Field.Spelled .strict) (fun f => (f.1, f.2.unplaced))
      (fun t => t.kind = .comma ∨ t.kind = .closeCurly) n := by
  rintro f ts t rest c ⟨hname, hcol, he⟩ hn ht hc
  apply (readsTo_expect hc hname.kind (by simp)).next
  intro c hc
  apply (readsTo_expect hc hcol.kind (by simp)).next
  intro c hc
  have hend : Power.default.EndsBefore t := by
    rcases ht with ht | ht <;> exact .of_kind ht rfl rfl
  simp only [List.length_cons] at hn
  apply (hb.whole he (by omega) hc hend).bind
  intro e' c he hc
  exact readsTo_pure hc (Prod.ext rfl he)

theorem Level.Reads.block (hb : below.Reads n) {b : Block} (h : Block.Spelled .strict b ts)
    (hn : ts.length ≤ n + 1) (hc : c.rest = ts ++ rest) (hrest : rest ≠ []) :
    ReadsTo below.block c rest (fun b' => b'.unplaced = b.unplaced) := by
  cases h with
  | @mk body _ o us close ho hbody hclose =>
    have hfirst : Begins (Stmt.Spelled .strict) (fun t =>
        decide (t.kind = .closeCurly ∨ t.kind = .eof) = false ∧ t.kind ≠ .elseWord) := by
      intro s ts hs
      obtain ⟨t, us, rfl, heof, hcurly, helse⟩ := hs.head
      exact ⟨t, us, rfl, decide_eq_false (not_or.mpr ⟨hcurly, heof⟩), helse⟩
    rw [List.cons_append, List.append_assoc, List.singleton_append] at hc
    simp only [List.length_cons, List.length_append, List.length_nil] at hn
    apply (readsTo_expect hc ho.kind (by simp)).next
    intro c hc
    apply (readsTo_repetitions hc).next
    intro c hc
    have hstops : decide (close.kind = .closeCurly ∨ close.kind = .eof) = true :=
      decide_eq_true (.inl hclose.kind)
    have hnext : close.kind ≠ .elseWord := by
      rw [hclose.kind]
      decide
    have hlimit : c.rest.length ≤ (us ++ close :: rest).length := Nat.le_of_eq (by rw [hc])
    apply (readsTo_manyUntil hb.statement hfirst hbody (by omega) hstops hnext hc hlimit).bind
    intro body' c hbody' hc
    apply (readsTo_expect hc hclose.kind hrest).next
    intro c hc
    apply (readsTo_spanFrom _ hc).bind
    intro s c _ hc
    apply readsTo_pure hc
    simp only [Block.respan_mk, hbody']

end Parts

section Operands

variable {below : Level} {n : Nat} {c : Cursor} {t : Token} {ts rest : List Token}

theorem readsTo_readPrimary {e : Expr} (hc : c.rest = t :: rest) (ht : t.primary? = .ok e)
    (hrest : rest ≠ []) : ReadsTo OperandRule.readPrimary c rest (· = e) := by
  apply (readsTo_current hc).next
  intro c hc
  rw [ht]
  apply (readsTo_advance hc hrest).next
  intro c hc
  exact readsTo_pure hc rfl

theorem Level.Reads.readUnary (hb : below.Reads n) {operator : Token} {operand : Expr} {s : Span}
    (hk : t.kind = operator.kind) (hv : t.value = operator.value)
    (he : Expr.Spelled .strict (Power.unary.rank - 1) operand ts) (hn : ts.length ≤ n) {u : Token}
    (hc : c.rest = t :: (ts ++ u :: rest)) (hu : Power.unary.EndsBefore u) :
    ReadsTo (OperandRule.readUnary below) c (u :: rest)
      (fun e' => e'.unplaced = (Expr.unary operator operand s).unplaced) := by
  apply (readsTo_advance hc (by simp)).next
  intro c hc
  apply (hb.expression .unary _ (by decide) (by decide) operand ts u rest c he hn hu hc).bind
  intro e' c he' hc
  apply readsTo_pure hc
  simp only [Expr.respan, he', Token.unplaced_eq hk hv]

theorem Level.Reads.readGroup (hb : below.Reads n) {e : Expr} {o close : Token}
    (he : Expr.Spelled .strict Power.default.rank e ts) (hn : ts.length ≤ n)
    (hclose : close.Is .closeParen) (hc : c.rest = o :: (ts ++ close :: rest)) (hrest : rest ≠ []) :
    ReadsTo (OperandRule.readGroup below) c rest (fun e' => e'.unplaced = e.unplaced) := by
  apply (readsTo_advance hc (by simp)).next
  intro c hc
  apply (hb.whole he hn hc (.of_kind hclose.kind rfl rfl)).bind
  intro e' c he' hc
  apply (readsTo_expect hc hclose.kind hrest).next
  intro c hc
  exact readsTo_pure hc he'

/-- Brackets with items are no type, and neither are empty ones before a token that begins no
type. -/
theorem Level.Reads.readArray (hb : below.Reads n) {items : List Expr} {s : Span} {o close : Token}
    (hitems : Listed (Expr.Spelled .strict Power.default.rank) items ts) (hn : ts.length ≤ n)
    (hclose : close.Is .closeBracket) (hc : c.rest = o :: (ts ++ close :: t :: rest))
    (ht : items = [] → Grammar.standard.typeRule t.kind = Option.none) :
    ReadsTo (OperandRule.readArray Grammar.standard below) c (t :: rest)
      (fun e' => e'.unplaced = (Expr.array items s).unplaced) := by
  obtain ⟨u, us, hsplit, hno⟩ : ∃ u us, ts ++ close :: t :: rest = u :: us ∧ ∀ c' : Cursor,
      c'.rest = u :: us →
        ¬ (u.kind = .closeBracket ∧ (Grammar.standard.typeRule c'.peek).isSome) := by
    cases hitems with
    | nil =>
      refine ⟨close, t :: rest, rfl, ?_⟩
      rintro c' hc' ⟨-, hr⟩
      rw [Cursor.peek_of_rest hc', ht rfl] at hr
      cases hr
    | last he | cons he _ _ =>
      obtain ⟨u, us, rfl, hu, -⟩ := he.head
      refine ⟨u, _, rfl, ?_⟩
      rintro c' - ⟨hk, -⟩
      rw [hk] at hu
      cases hu
  apply (readsTo_advance hc (by simp)).next
  intro c hc
  rw [hsplit] at hc
  apply (readsTo_kind hc).next
  intro c hc
  apply (readsTo_get hc).bind
  intro c' c hc' hc
  rw [if_neg (hno c' hc')]
  rw [← hsplit] at hc
  apply (hb.arguments hitems hn hclose (by simp) hc (by decide)).bind
  intro items' c hitems' hc
  apply (readsTo_spanFrom _ hc).bind
  intro _ c _ hc
  apply readsTo_pure hc
  simp only [Expr.respan_array, hitems']

theorem Level.Reads.readArray_arrayOf (hb : below.Reads n) {item : Ty} {items : List Expr}
    {s : Span} {ob cb o close : Token} {us : List Token} (hcb : cb.Is .closeBracket)
    (hitem : Ty.Spelled item ts) (hn : ts.length ≤ n) (ho : o.Is .openCurly)
    (hitems : Listed (Expr.Spelled .strict Power.default.rank) items us) (hn' : us.length ≤ n)
    (hclose : close.Is .closeCurly) (hrest : rest ≠ [])
    (hc : c.rest = ob :: cb :: (ts ++ o :: (us ++ close :: rest))) :
    ReadsTo (OperandRule.readArray Grammar.standard below) c rest
      (fun e' => e'.unplaced = (Expr.arrayOf item items s).unplaced) := by
  obtain ⟨u, vs, rfl, hu⟩ := hitem.head
  apply (readsTo_advance hc (by simp)).next
  intro c hc
  apply (readsTo_kind hc).next
  intro c hc
  apply (readsTo_get hc).bind
  intro c' c hc' hc
  rw [if_pos ⟨hcb.kind, by rwa [Cursor.peek_of_rest hc']⟩]
  apply (readsTo_advance hc (by simp)).next
  intro c hc
  apply (hb.type item _ o _ c hitem hn trivial hc).next
  intro c hc
  apply (readsTo_expect hc ho.kind (by simp)).next
  intro c hc
  apply (hb.arguments hitems hn' hclose hrest hc (by decide)).bind
  intro items' c hitems' hc
  apply (readsTo_spanFrom _ hc).bind
  intro _ c _ hc
  apply readsTo_pure hc
  simp only [Expr.respan_arrayOf, hitems', id]

theorem Level.Reads.readConstruct (hb : below.Reads n) {arguments : List Expr} {s : Span}
    {word name o close : Token} (hname : name.kind = .identifier) (ho : o.Is .openParen)
    (harguments : Listed (Expr.Spelled .strict Power.default.rank) arguments ts)
    (hn : ts.length ≤ n) (hclose : close.Is .closeParen) (hrest : rest ≠ [])
    (hc : c.rest = word :: name :: o :: (ts ++ close :: rest)) :
    ReadsTo (OperandRule.readConstruct below) c rest
      (fun e' => e'.unplaced = (Expr.construct name.value arguments s).unplaced) := by
  apply (readsTo_advance hc (by simp)).next
  intro c hc
  apply (readsTo_expect hc hname (by simp)).next
  intro c hc
  apply (readsTo_kind hc).next
  intro c hc
  rw [ho.kind]
  apply (readsTo_advance hc (by simp)).next
  intro c hc
  apply (hb.arguments harguments hn hclose hrest hc (by decide)).bind
  intro arguments' c harguments' hc
  apply (readsTo_spanFrom _ hc).bind
  intro _ c _ hc
  apply readsTo_pure hc
  simp only [Expr.respan_construct, harguments']

theorem Level.Reads.readConstruct_structOf (hb : below.Reads n) {fields : List (String × Expr)}
    {s : Span} {word name o close : Token} (hname : name.kind = .identifier)
    (ho : o.Is .openCurly) (hfields : Listed (Field.Spelled .strict) fields ts)
    (hn : ts.length ≤ n) (hclose : close.Is .closeCurly) (hrest : rest ≠ [])
    (hc : c.rest = word :: name :: o :: (ts ++ close :: rest)) :
    ReadsTo (OperandRule.readConstruct below) c rest
      (fun e' => e'.unplaced = (Expr.structOf name.value fields s).unplaced) := by
  have hfirst : Begins (Field.Spelled .strict) (fun t => t.kind ≠ .closeCurly ∧ t.kind ≠ .eof) := by
    rintro f ts ⟨hname, -, -⟩
    exact ⟨_, _, rfl, by simp [hname.kind]⟩
  apply (readsTo_advance hc (by simp)).next
  intro c hc
  apply (readsTo_expect hc hname (by simp)).next
  intro c hc
  apply (readsTo_kind hc).next
  intro c hc
  rw [ho.kind]
  apply (readsTo_advance hc (by simp)).next
  intro c hc
  apply (readsTo_listUntil hb.field hfirst hfields hn hclose.kind (by decide) hrest hc).bind
  intro fields' c hfields' hc
  apply (readsTo_spanFrom _ hc).bind
  intro _ c _ hc
  apply readsTo_pure hc
  simp only [Expr.respan, Expr.respanFields_eq_map, hfields']

theorem Level.Reads.readFunction (hb : below.Reads n) {parameters : List Parameter}
    {result : Option Ty} {body : List Stmt} {s bs : Span} {word o close : Token}
    {us vs : List Token} (ho : o.Is .openParen)
    (hparameters : Listed Parameter.Spelled parameters ts) (hn : ts.length ≤ n)
    (hclose : close.Is .closeParen) (hresult : Introduced .colon Ty.Spelled result us)
    (hn' : us.length ≤ n) (hbody : Block.Spelled .strict (.mk body bs) vs)
    (hn'' : vs.length ≤ n + 1) (hrest : rest ≠ [])
    (hc : c.rest = word :: o :: (ts ++ close :: (us ++ (vs ++ rest)))) :
    ReadsTo (OperandRule.readFunction below) c rest
      (fun e' => e'.unplaced = (Expr.function parameters result body s).unplaced) := by
  obtain ⟨curly, ws, rfl, hcurly⟩ := hbody.head
  apply (readsTo_advance hc (by simp)).next
  intro c hc
  apply (hb.parameters ho hparameters hn hclose (by simp) hc).next
  intro c hc
  apply (hb.annotation? hresult hn' hc (by rw [hcurly]; decide)).next
  intro c hc
  apply (hb.block hbody hn'' hc hrest).bind
  rintro ⟨body', s'⟩ c hbody' hc
  apply (readsTo_spanFrom _ hc).bind
  intro _ c _ hc
  apply readsTo_pure hc
  injection hbody' with hbody'
  simp only [Expr.respan, Block.body, hbody']

end Operands

section Operators

variable {below : Level} {n : Nat} {c : Cursor} {t u : Token} {ts rest : List Token}
  {left left' : Expr} {s : Span}

theorem Level.Reads.readBinary (hb : below.Reads n) {operator : Token} {right : Expr}
    {power : Power} (hleft : left'.unplaced = left.unplaced) (hk : t.kind = operator.kind)
    (hv : t.value = operator.value) (hpower : power.rank ≤ Power.unary.rank)
    (he : Expr.Spelled .strict power.rank right ts) (hn : ts.length ≤ n)
    (hu : power.EndsBefore u) (hc : c.rest = t :: (ts ++ u :: rest)) :
    ReadsTo (OperatorRule.readBinary below left' power) c (u :: rest)
      (fun e' => e'.unplaced = (Expr.binary operator left right s).unplaced) := by
  apply (readsTo_advance hc (by simp)).next
  intro c hc
  apply (hb.expression power _ (Nat.min_le_left _ _) hpower right ts u rest c he hn hu hc).bind
  intro right' c hright hc
  apply readsTo_pure hc
  simp only [Expr.respan, hleft, hright, Token.unplaced_eq hk hv]

theorem Level.Reads.readRange (hb : below.Reads n) {upper : Expr} {power : Power}
    (hleft : left'.unplaced = left.unplaced) (hpower : power.rank ≤ Power.unary.rank)
    (he : Expr.Spelled .strict power.rank upper ts) (hn : ts.length ≤ n)
    (hu : power.EndsBefore u) (hc : c.rest = t :: (ts ++ u :: rest)) :
    ReadsTo (OperatorRule.readRange below left' power) c (u :: rest)
      (fun e' => e'.unplaced = (Expr.range left upper s).unplaced) := by
  apply (readsTo_advance hc (by simp)).next
  intro c hc
  apply (hb.expression power _ (Nat.min_le_left _ _) hpower upper ts u rest c he hn hu hc).bind
  intro upper' c hupper hc
  apply readsTo_pure hc
  simp only [Expr.respan, hleft, hupper]

theorem Level.Reads.readAssign (hb : below.Reads n) {operator : Token} {value : Expr}
    (hleft : left'.unplaced = left.unplaced) (hk : t.kind = operator.kind)
    (hv : t.value = operator.value) (he : Expr.Spelled .strict Power.comma.rank value ts)
    (hn : ts.length ≤ n) (hu : Power.comma.EndsBefore u) (hc : c.rest = t :: (ts ++ u :: rest)) :
    ReadsTo (OperatorRule.readAssign below left') c (u :: rest)
      (fun e' => e'.unplaced = (Expr.assign operator left value s).unplaced) := by
  apply (readsTo_advance hc (by simp)).next
  intro c hc
  apply (hb.expression .comma _ (by decide) (by decide) value ts u rest c he hn hu hc).bind
  intro value' c hvalue hc
  apply readsTo_pure hc
  simp only [Expr.respan, hleft, hvalue, Token.unplaced_eq hk hv]

theorem Level.Reads.readCall (hb : below.Reads n) {arguments : List Expr} {close : Token}
    (hleft : left'.unplaced = left.unplaced)
    (harguments : Listed (Expr.Spelled .strict Power.default.rank) arguments ts)
    (hn : ts.length ≤ n) (hclose : close.Is .closeParen) (hrest : rest ≠ [])
    (hc : c.rest = t :: (ts ++ close :: rest)) :
    ReadsTo (OperatorRule.readCall below left') c rest
      (fun e' => e'.unplaced = (Expr.call left arguments s).unplaced) := by
  apply (readsTo_advance hc (by simp)).next
  intro c hc
  apply (hb.arguments harguments hn hclose hrest hc (by decide)).bind
  intro arguments' c harguments' hc
  apply (readsTo_spanFrom _ hc).bind
  intro _ c _ hc
  apply readsTo_pure hc
  simp only [Expr.respan_call, hleft, harguments']

theorem readsTo_readMember {property : Token} (hleft : left'.unplaced = left.unplaced)
    (hproperty : property.kind = .identifier) (hrest : rest ≠ [])
    (hc : c.rest = t :: property :: rest) :
    ReadsTo (OperatorRule.readMember left') c rest
      (fun e' => e'.unplaced = (Expr.member left property.value s).unplaced) := by
  apply (readsTo_advance hc (by simp)).next
  intro c hc
  apply (readsTo_expect hc hproperty hrest).next
  intro c hc
  apply readsTo_pure hc
  simp only [Expr.respan, hleft]

theorem Level.Reads.readIndex (hb : below.Reads n) {position : Expr} {close : Token}
    (hleft : left'.unplaced = left.unplaced)
    (he : Expr.Spelled .strict Power.default.rank position ts) (hn : ts.length ≤ n)
    (hclose : close.Is .closeBracket) (hrest : rest ≠ [])
    (hc : c.rest = t :: (ts ++ close :: rest)) :
    ReadsTo (OperatorRule.readIndex below left') c rest
      (fun e' => e'.unplaced = (Expr.index left position s).unplaced) := by
  apply (readsTo_advance hc (by simp)).next
  intro c hc
  apply (hb.whole he hn hc (.of_kind hclose.kind rfl rfl)).bind
  intro position' c hposition hc
  apply (readsTo_expect hc hclose.kind hrest).next
  intro c hc
  apply (readsTo_spanFrom _ hc).bind
  intro _ c _ hc
  apply readsTo_pure hc
  simp only [Expr.respan, hleft, hposition]

end Operators

/-- Reading an expression at this power comes to where `e` has been read and `rest` is left, with as
many repetitions as there are tokens. -/
def Reaches (below : Level) (power : Power) (c : Cursor) (e : Expr) (rest : List Token) : Prop :=
  ∃ e' c' limit, e'.unplaced = e.unplaced ∧ c'.rest = rest ∧ rest.length ≤ limit ∧
    Grammar.standard.readExpression below power c =
      Grammar.standard.extend below power limit e' c'

namespace Reaches

variable {below : Level} {power : Power} {c : Cursor} {t : Token} {us rest : List Token}
  {e left : Expr}

theorem operand (rule : OperandRule) (hc : c.rest = t :: us)
    (hrule : Grammar.standard.operandRule t.kind = some rule)
    (h : ReadsTo (rule.read Grammar.standard below) c rest (fun e' => e'.unplaced = e.unplaced)) :
    Reaches below power c e rest := by
  obtain ⟨e', c', hread, hc', he⟩ := h
  refine ⟨e', c', c'.rest.length, he, hc', Nat.le_of_eq (by rw [hc']), ?_⟩
  rw [Grammar.readExpression, bind_run_ok (current_run c), Cursor.current_of_rest hc]
  simp only [hrule]
  rw [bind_run_ok hread, bind_run_ok (repetitions_run c')]

/-- An operator that binds more strongly than the power extends what has been read. -/
theorem operator (rule : OperatorRule) (hleft : Reaches below power c left (t :: us))
    (hrule : Grammar.standard.operatorRule t.kind = some rule)
    (hpower : power < Grammar.standard.power t.kind) (hlen : rest.length ≤ us.length)
    (h : ∀ left' c', left'.unplaced = left.unplaced → c'.rest = t :: us →
      ReadsTo (rule.read below left' (Grammar.standard.power t.kind)) c' rest
        (fun e' => e'.unplaced = e.unplaced)) :
    Reaches below power c e rest := by
  obtain ⟨left', c', limit, hl, hc', hlimit, hread⟩ := hleft
  have hlimit' : c'.rest.length ≤ limit := by rwa [hc']
  obtain ⟨l, rfl⟩ := Cursor.exists_eq_succ_of_length_rest_le hlimit'
  obtain ⟨e', c'', hrun, hc'', he⟩ := h left' c' hl hc'
  have hgt : ¬ Grammar.standard.power t.kind ≤ power := Nat.not_le_of_lt hpower
  refine ⟨e', c'', l, he, hc'', by simp only [List.length_cons] at hlimit; omega, ?_⟩
  rw [hread, Grammar.extend, bind_run_ok (current_run c'), Cursor.current_of_rest hc', if_neg hgt]
  simp only [hrule]
  rw [bind_run_ok hrun]

/-- Reading ends before a token that does not bind more strongly than the power. -/
theorem done (h : Reaches below power c e (t :: rest))
    (ht : Grammar.standard.power t.kind ≤ power) :
    ReadsTo (Grammar.standard.readExpression below power) c (t :: rest)
      (fun e' => e'.unplaced = e.unplaced) := by
  obtain ⟨e', c', limit, he, hc', hlimit, hread⟩ := h
  have hlimit' : c'.rest.length ≤ limit := by rwa [hc']
  obtain ⟨l, rfl⟩ := Cursor.exists_eq_succ_of_length_rest_le hlimit'
  refine ⟨e', c', ?_, hc', he⟩
  rw [hread, Grammar.extend, bind_run_ok (current_run c'), Cursor.current_of_rest hc', if_pos ht]
  rfl

end Reaches

theorem Reaches.primary {below : Level} {power : Power} {c : Cursor} {u t : Token}
    {rest : List Token} {e : Expr} (e' : Expr) (hc : c.rest = u :: t :: rest)
    (hrule : Grammar.standard.operandRule u.kind = some .primary) (hu : u.primary? = .ok e')
    (he : e'.unplaced = e.unplaced) : Reaches below power c e (t :: rest) := by
  refine .operand .primary hc hrule ((readsTo_readPrimary hc hu (by simp)).mono ?_)
  rintro _ rfl
  exact he

mutual

/-- The induction follows the left edge of the expression, since everything else is read by the
level below. -/
theorem Expr.Bare.reaches {below : Level} {n : Nat} (hb : below.Reads n) {power : Power}
    {e : Expr} {ts : List Token} (h : Expr.Bare .strict e ts) (hn : ts.length ≤ n + 1)
    (hpower : power.rank ≤ Power.unary.rank) (hplace : power.place < e.strength) {c : Cursor}
    {t : Token} {rest : List Token} (hc : c.rest = ts ++ t :: rest) (ht : e.Stops t.kind) :
    Reaches below power c e (t :: rest) := by
  match h with
  | @Expr.Bare.int _ u value _ hk hv =>
    have hu : u.primary? = .ok (.int value u.span) := by simp only [Token.primary?, hk, hv]
    exact .primary _ hc (by rw [hk]; rfl) hu rfl
  | @Expr.Bare.float _ u value _ hk hv =>
    have hu : u.primary? = .ok (.float value u.span) := by simp only [Token.primary?, hk, hv]
    exact .primary _ hc (by rw [hk]; rfl) hu rfl
  | @Expr.Bare.string _ u _ hk =>
    have hu : u.primary? = .ok (.string u.value u.span) := by simp only [Token.primary?, hk]
    exact .primary _ hc (by rw [hk]; rfl) hu rfl
  | @Expr.Bare.bool _ u value _ hw =>
    have hu : u.primary? = .ok (.bool value u.span) := by
      cases value <;> simp [Token.primary?, hw.kind]
    exact .primary _ hc (by rw [hw.kind]; cases value <;> rfl) hu rfl
  | @Expr.Bare.symbol _ u _ (.inl hw) =>
    have hu : u.primary? = .ok (.symbol u.value u.span) := by
      simp only [Token.primary?, hw.kind]
    exact .primary _ hc (by rw [hw.kind]; rfl) hu rfl
  | @Expr.Bare.symbol _ u _ (.inr hw) =>
    have hu : u.primary? = .ok (.symbol u.value u.span) := by
      simp only [Token.primary?, hw.kind]
    exact .primary _ hc (by rw [hw.kind]; rfl) hu rfl
  | .unary ho hk hv he =>
    simp only [List.length_cons] at hn
    have hend : Power.unary.EndsBefore t := ⟨ht.1, ht.2 (Nat.le_succ _)⟩
    apply Reaches.operand .unary hc ho
    exact hb.readUnary hk hv he (by omega) hc hend
  -- From here on something stands to the left. The loop comes past it, and it stops at the
  -- operator: that is `hleft`.
  | @Expr.Bare.binary _ operator left right _ a op b ho hk hv hl hr =>
    obtain ⟨hweak, hstrong, htype⟩ := Grammar.standard_binary ho
    have hunary := Nat.le_trans hstrong (show _ ≤ Power.unary.rank by decide)
    simp only [List.length_append, List.length_cons] at hn
    simp only [List.append_assoc, List.cons_append] at hc
    have hend : (Grammar.standard.power op.kind).EndsBefore t := by
      rw [hk] at hunary ⊢
      exact ⟨ht.1, ht.2 (Nat.le_succ_of_le hunary)⟩
    change power.place < (Grammar.standard.power operator.kind).rank at hplace
    rw [← hk] at hplace
    have hleft : Reaches below power c left (op :: (b ++ t :: rest)) := by
      apply hl.reaches hb (by omega) hpower (by omega) hc
      intro us hbare hlt
      exact hbare.stops (by omega) (.inl (by omega)) (fun _ => htype)
    apply hleft.operator .binary ho (Power.lt_of_place_lt hplace hstrong) (by simp)
    intro left' c' hleft hc'
    exact hb.readBinary hleft hk hv hunary hr (by omega) hend hc'
  | @Expr.Bare.assign _ operator target value _ a op b ho hk hv hl hr =>
    obtain ⟨hop, htype⟩ := Grammar.standard_assign ho
    simp only [List.length_append, List.length_cons] at hn
    simp only [List.append_assoc, List.cons_append] at hc
    have hstronger : power < Grammar.standard.power op.kind :=
      Power.lt_of_place_lt (by rwa [hop]) (by rw [hop]; decide)
    have hend : Power.comma.EndsBefore t := ⟨ht.1, ht.2 (Nat.le_of_ble_eq_true rfl)⟩
    have hleft : Reaches below power c target (op :: (b ++ t :: rest)) := by
      apply hl.reaches hb (by omega) hpower (Nat.le_of_lt hplace) hc
      intro us hbare hlt
      exact hbare.stops hlt (.inl (by rw [hop]; exact Nat.le_of_lt hlt)) (fun _ => htype)
    apply hleft.operator .assign ho hstronger (by simp)
    intro left' c' hleft hc'
    exact hb.readAssign hleft hk hv hr (by omega) hend hc'
  | @Expr.Bare.range _ lower upper _ a op b ho hl hr =>
    have hpow : Grammar.standard.power op.kind = .relational := by rw [ho.kind]; rfl
    simp only [List.length_append, List.length_cons] at hn
    simp only [List.append_assoc, List.cons_append] at hc
    have hstronger : power < Grammar.standard.power op.kind :=
      Power.lt_of_place_lt (by rwa [hpow]) (by rw [hpow]; decide)
    have hend : Power.relational.EndsBefore t := ⟨ht.1, ht.2 (Nat.le_of_ble_eq_true rfl)⟩
    have hleft : Reaches below power c lower (op :: (b ++ t :: rest)) := by
      apply hl.reaches hb (by omega) hpower (Nat.le_sub_one_of_lt hplace) hc
      intro us hbare hlt
      have hle : (Grammar.standard.power op.kind).rank ≤ lower.strength := by
        rw [hpow]
        exact Nat.le_of_pred_lt hlt
      exact hbare.stops (Nat.lt_of_le_of_lt (by decide) hlt) (.inl hle)
        (fun _ => by rw [ho.kind]; rfl)
    apply hleft.operator .range (by rw [ho.kind]; rfl) hstronger (by simp)
    intro left' c' hleft hc'
    rw [hpow]
    exact hb.readRange hleft (by decide) hr (by omega) hend hc'
  | @Expr.Bare.member _ object _ a dot property hl ho hp =>
    simp only [List.length_append, List.length_cons] at hn
    simp only [List.append_assoc, List.cons_append, List.nil_append] at hc
    have hstronger : power < Grammar.standard.power dot.kind := by
      rw [ho.kind]
      exact Nat.lt_of_le_of_lt hpower (by decide)
    have hleft : Reaches below power c object (dot :: property :: t :: rest) := by
      apply hl.reaches hb (by omega) hpower power.place_le_unary hc
      intro us hbare hlt
      exact hbare.stops (Nat.lt_trans (by decide) hlt) (.inr hlt) (fun _ => by rw [ho.kind]; rfl)
    apply hleft.operator .member (by rw [ho.kind]; rfl) hstronger (by simp)
    intro left' c' hleft hc'
    exact readsTo_readMember hleft hp.kind (by simp) hc'
  | @Expr.Bare.index _ object position _ a o b close hl ho hp hclose =>
    simp only [List.length_append, List.length_cons] at hn
    simp only [List.append_assoc, List.cons_append, List.nil_append] at hc
    have hstronger : power < Grammar.standard.power o.kind := by
      rw [ho.kind]
      exact Nat.lt_of_le_of_lt hpower (by decide)
    have hleft : Reaches below power c object (o :: (b ++ close :: t :: rest)) := by
      apply hl.reaches hb (by omega) hpower (Nat.le_trans power.place_le_unary (by decide)) hc
      intro us hbare hlt
      exact hbare.stops (Nat.lt_trans (by decide) hlt) (.inr (Nat.lt_trans (by decide) hlt))
        (fun hle => absurd hle (Nat.not_le_of_lt hlt))
    apply hleft.operator .index (by rw [ho.kind]; rfl) hstronger (by simp; omega)
    intro left' c' hleft hc'
    exact hb.readIndex hleft hp (by omega) hclose (by simp) hc'
  | @Expr.Bare.call _ callee arguments _ a o b close hl ho hp hclose =>
    simp only [List.length_append, List.length_cons] at hn
    simp only [List.append_assoc, List.cons_append, List.nil_append] at hc
    have hstronger : power < Grammar.standard.power o.kind := by
      rw [ho.kind]
      exact Nat.lt_of_le_of_lt hpower (by decide)
    have hleft : Reaches below power c callee (o :: (b ++ close :: t :: rest)) := by
      apply hl.reaches hb (by omega) hpower power.place_le_unary hc
      intro us hbare hlt
      exact hbare.stops (Nat.lt_trans (by decide) hlt) (.inr hlt) (fun _ => by rw [ho.kind]; rfl)
    apply hleft.operator .call (by rw [ho.kind]; rfl) hstronger (by simp; omega)
    intro left' c' hleft hc'
    exact hb.readCall hleft hp (by omega) hclose (by simp) hc'
  -- The other operands open with a token of their own.
  | .function hw ho hp hclose hr hbody =>
    simp only [List.length_append, List.length_cons] at hn
    simp only [List.append_assoc, List.cons_append] at hc
    apply Reaches.operand .function hc (by rw [hw.kind]; rfl)
    exact hb.readFunction ho hp (by omega) hclose hr (by omega) hbody (by omega) (by simp) hc
  | .array ho hp hclose =>
    simp only [List.length_append, List.length_cons] at hn
    simp only [List.append_assoc, List.cons_append, List.nil_append] at hc
    apply Reaches.operand .array hc (by rw [ho.kind]; rfl)
    apply hb.readArray hp (by omega) hclose hc
    -- Behind `[]` a token that begins a type would be read as the type of the items.
    rintro rfl
    exact ht.2 (Nat.le_refl _)
  | .arrayOf hob hcb hi ho hp hclose =>
    simp only [List.length_append, List.length_cons] at hn
    simp only [List.append_assoc, List.cons_append, List.nil_append] at hc
    apply Reaches.operand .array hc (by rw [hob.kind]; rfl)
    exact hb.readArray_arrayOf hcb hi (by omega) ho hp (by omega) hclose (by simp) hc
  | .structOf hw hname ho hp hclose =>
    simp only [List.length_append, List.length_cons] at hn
    simp only [List.append_assoc, List.cons_append, List.nil_append] at hc
    apply Reaches.operand .construct hc (by rw [hw.kind]; rfl)
    exact hb.readConstruct_structOf hname.kind ho hp (by omega) hclose (by simp) hc
  | .construct hw hname ho hp hclose =>
    simp only [List.length_append, List.length_cons] at hn
    simp only [List.append_assoc, List.cons_append, List.nil_append] at hc
    apply Reaches.operand .construct hc (by rw [hw.kind]; rfl)
    exact hb.readConstruct hname.kind ho hp (by omega) hclose (by simp) hc

theorem Expr.Spelled.reaches {below : Level} {n k : Nat} (hb : below.Reads n) {power : Power}
    {e : Expr} {ts : List Token} (h : Expr.Spelled .strict k e ts) (hn : ts.length ≤ n + 1)
    (hpower : power.rank ≤ Power.unary.rank) (hplace : power.place ≤ k) {c : Cursor}
    {t : Token} {rest : List Token} (hc : c.rest = ts ++ t :: rest)
    (ht : ∀ us, Expr.Bare .strict e us → k < e.strength → e.Stops t.kind) :
    Reaches below power c e (t :: rest) := by
  match h with
  | .bare hk hbare =>
    exact hbare.reaches hb hn hpower (Nat.lt_of_le_of_lt hplace hk) hc (ht _ hbare hk)
  | .group ho he hclose =>
    simp only [List.length_cons, List.length_append] at hn
    simp only [List.append_assoc, List.cons_append, List.nil_append] at hc
    apply Reaches.operand .group hc (by rw [ho.kind]; rfl)
    exact hb.readGroup he (by omega) hclose hc (by simp)

end

/-- Whatever an expression ends in, a token that ends it at this power is not part of it. -/
theorem Power.EndsBefore.stops {power : Power} {t : Token} (h : power.EndsBefore t) {e : Expr}
    (hpower : power.rank ≤ Power.unary.rank) (hplace : power.place < e.strength) :
    e.Stops t.kind := by
  refine ⟨Nat.le_trans h.1 ?_, fun _ => h.2⟩
  rw [Power.place] at hplace
  cases e <;> simp only [Expr.strength, Expr.reach, Power.rank] at * <;> omega

theorem Level.Reads.readExpression {below : Level} {n k : Nat} (hb : below.Reads n) {power : Power}
    (hplace : power.place ≤ k) (hpower : power.rank ≤ Power.unary.rank) :
    ReadsSpelled (Grammar.standard.readExpression below power) (Expr.Spelled .strict k)
      Expr.unplaced power.EndsBefore (n + 1) := by
  intro e ts t rest c he hn ht hc
  have hreaches : Reaches below power c e (t :: rest) := by
    apply he.reaches hb hn hpower hplace hc
    intro _ _ hk
    exact ht.stops hpower (Nat.lt_of_le_of_lt hplace hk)
  exact hreaches.done ht.1

theorem Level.Reads.readType {below : Level} {n : Nat} (hb : below.Reads n) :
    ReadsSpelled (Grammar.standard.readType below .default) Ty.Spelled id (fun _ => True)
      (n + 1) := by
  have hextend (type : Ty) (c : Cursor) :
      (repetitions >>= fun limit => Grammar.standard.extendType below .default limit type) c =
        .ok type c := rfl
  intro type ts t rest c htype hn _ hc
  have hnamed {u : Token} {c : Cursor} (hu : Grammar.standard.typeRule u.kind = some .named)
      (hc : c.rest = u :: t :: rest) :
      ReadsTo (Grammar.standard.readType below .default) c (t :: rest) (· = .named u.value) := by
    apply (readsTo_current hc).next
    intro c hc
    rw [hu]
    have hread : ReadsTo (TypeRule.read below .named) c (t :: rest) (· = .named u.value) := by
      apply (readsTo_advance hc (by simp)).next
      intro c hc
      exact readsTo_pure hc rfl
    apply hread.next
    intro c hc
    exact ⟨_, c, hextend _ c, hc, rfl⟩
  cases htype with
  | named hu => exact hnamed (by rw [hu.kind]; rfl) hc
  | primitive hu hrule => exact hnamed (by rw [hu.kind, hrule]) hc
  | @list item o close us ho hclose hitem =>
    apply (readsTo_current hc).next
    intro c hc
    rw [ho.kind]
    have hread : ReadsTo (TypeRule.read below .list) c (t :: rest) (· = .list item) := by
      apply (readsTo_expect hc ho.kind (by simp)).next
      intro c hc
      apply (readsTo_expect hc hclose.kind (by simp)).next
      intro c hc
      simp only [List.length_cons] at hn
      apply (hb.type item us t rest c hitem (by omega) trivial hc).next
      intro c hc
      exact readsTo_pure hc rfl
    apply hread.next
    intro c hc
    exact ⟨_, c, hextend _ c, hc, rfl⟩

end Scriptlet
