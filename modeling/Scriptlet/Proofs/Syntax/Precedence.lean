import Mathlib.Data.List.TakeWhile
import Scriptlet.Grammar.Program
import Scriptlet.Proofs.Syntax.Respan
import Scriptlet.Proofs.Syntax.Viability

namespace Scriptlet

open Scriptlet.Parser

/-- A literal or a name. Numbers must be in range. -/
inductive Token.IsOperand (t : Token) : Prop
  | int {value} : t.kind = .int → Numeral.int64? t.value.toList = some value → t.IsOperand
  | float {value} : t.kind = .float → Numeral.binary64? t.value.toList = some value → t.IsOperand
  | word : t.kind ∈ [.string, .trueWord, .falseWord, .identifier, .thisWord] → t.IsOperand

theorem Token.IsOperand.exists_primary {t : Token} (h : t.IsOperand) :
    ∃ e, t.primary? = .ok e := by
  cases h with
  | int hk hv => exact ⟨_, by rw [primary?, hk]; dsimp only; rw [hv]⟩
  | float hk hv => exact ⟨_, by rw [primary?, hk]; dsimp only; rw [hv]⟩
  | word hk =>
    rw [primary?]
    simp only [List.mem_cons, List.not_mem_nil, or_false] at hk
    rcases hk with hk | hk | hk | hk | hk <;> rw [hk] <;> exact ⟨_, rfl⟩

/-- Operators, each with the operand behind it. -/
abbrev Operations := List (Token × Token)

def Operations.tokens (ps : Operations) : List Token := ps.flatMap fun q => [q.1, q.2]

/-- The operations up to the first whose operator does not bind more strongly. -/
def Operations.above (power : Kind → Power) (p : Power) (ps : Operations) : Operations :=
  ps.takeWhile fun q => p < power q.1.kind

namespace Expr

/-- The operator at the root. -/
def operator? : Expr → Option Token
  | .binary operator _ _ _ => some operator
  | _ => none

/-- Read from left to right, the tree is the operand with the operations behind it. -/
inductive InOrder : Expr → Token → Operations → Prop
  | operand {t e} : t.primary? = .ok e → InOrder e t []
  | binary {operator left right span x y ps qs} : InOrder left x ps → InOrder right y qs →
    InOrder (.binary operator left right span) x (ps ++ (operator, y) :: qs)

/-- The root of a left side binds no less than the operator above it, and that of a right side binds
more. -/
inductive Climbs (power : Kind → Power) : Expr → Prop
  | operand {e} : e.operator? = none → Climbs power e
  | binary {operator left right span} :
    (∀ o ∈ left.operator?, power operator.kind ≤ power o.kind) →
    (∀ o ∈ right.operator?, power operator.kind < power o.kind) →
    Climbs power left → Climbs power right → Climbs power (.binary operator left right span)

end Expr

theorem Token.operator?_of_primary? {t : Token} {e : Expr} (h : t.primary? = .ok e) :
    e.operator? = none := by
  rw [Token.primary?] at h
  split at h <;> try split at h
  all_goals cases h
  all_goals rfl

/-- Two ways to single out an element of a list. -/
theorem eq_or_mem_of_append_cons {α : Type} {as bs as' bs' : List α} {a a' : α}
    (h : as ++ a :: bs = as' ++ a' :: bs') :
    (as = as' ∧ a = a' ∧ bs = bs') ∨ (a ∈ as' ∧ a' ∈ bs) ∨ (a' ∈ as ∧ a ∈ bs') := by
  rcases List.append_eq_append_iff.mp h with ⟨mid, has', hbehind⟩ | ⟨mid, has, hbehind⟩
  · cases mid with
    | nil =>
      obtain ⟨rfl, rfl⟩ := List.cons.inj hbehind
      exact .inl ⟨by rw [has', List.append_nil], rfl, rfl⟩
    | cons m mid =>
      obtain ⟨rfl, rfl⟩ := List.cons.inj hbehind
      refine .inr (.inl ⟨?_, ?_⟩)
      · rw [has']
        exact List.mem_append_right _ List.mem_cons_self
      · exact List.mem_append_right _ List.mem_cons_self
  · cases mid with
    | nil =>
      obtain ⟨rfl, rfl⟩ := List.cons.inj hbehind
      exact .inl ⟨by rw [has, List.append_nil], rfl, rfl⟩
    | cons m mid =>
      obtain ⟨rfl, rfl⟩ := List.cons.inj hbehind
      refine .inr (.inr ⟨?_, ?_⟩)
      · rw [has]
        exact List.mem_append_right _ List.mem_cons_self
      · exact List.mem_append_right _ List.mem_cons_self

namespace Expr

variable {power : Kind → Power} {e e' : Expr} {x : Token} {ps : Operations}

namespace InOrder

/-- The operator at the root is one of those that are read. -/
theorem exists_mem (h : e.InOrder x ps) : ∀ o ∈ e.operator?, ∃ y, (o, y) ∈ ps := by
  cases h with
  | operand h =>
    rw [Token.operator?_of_primary? h]
    exact fun _ ho => nomatch ho
  | binary hleft hright =>
    rintro o ⟨⟩
    exact ⟨_, List.mem_append_right _ List.mem_cons_self⟩

/-- What the root of a climbing tree reaches, all its operators do. -/
theorem rank_le (h : e.InOrder x ps) (hclimbs : e.Climbs power) {n : Nat}
    (hroot : ∀ o ∈ e.operator?, n ≤ (power o.kind).rank) :
    ∀ q ∈ ps, n ≤ (power q.1.kind).rank := by
  induction h with
  | operand => exact fun _ hq => nomatch hq
  | @binary operator left right span x y ps qs hleft hright ihleft ihright =>
    cases hclimbs with
    | operand hnone => cases hnone
    | binary hl hr hlclimbs hrclimbs =>
      have hoperator : n ≤ (power operator.kind).rank := hroot operator rfl
      intro q hq
      rcases List.mem_append.mp hq with hq | hq
      · exact ihleft hlclimbs (fun o ho => Nat.le_trans hoperator (hl o ho)) q hq
      · rcases List.mem_cons.mp hq with rfl | hq
        · exact hoperator
        · exact ihright hrclimbs
            (fun o ho => Nat.le_trans hoperator (Nat.le_of_lt (hr o ho))) q hq

/-- Only one tree reads so and climbs. Where two would have different roots, the root of each stands
on one side of the other's: on the left it would have to bind no less, on the right more. -/
theorem unique (h : e.InOrder x ps) (hclimbs : e.Climbs power) (h' : e'.InOrder x ps)
    (hclimbs' : e'.Climbs power) : e'.unplaced = e.unplaced := by
  induction h generalizing e' with
  | @operand t e ht =>
    generalize hps : ([] : Operations) = ps at h'
    cases h' with
    | operand ht' => rw [Except.ok.inj (ht'.symm.trans ht)]
    | binary => exact absurd hps.symm (List.append_ne_nil_of_right_ne_nil _ (List.cons_ne_nil _ _))
  | @binary operator left right span x y ps qs hleft hright ihleft ihright =>
    generalize hps : ps ++ (operator, y) :: qs = all at h'
    cases h' with
    | operand => exact absurd hps (List.append_ne_nil_of_right_ne_nil _ (List.cons_ne_nil _ _))
    | @binary operator' left' right' span' _ y' ps' qs' hleft' hright' =>
      cases hclimbs with
      | operand hnone => cases hnone
      | binary hl hr hlclimbs hrclimbs =>
      cases hclimbs' with
      | operand hnone => cases hnone
      | binary hl' hr' hlclimbs' hrclimbs' =>
      rcases eq_or_mem_of_append_cons hps with ⟨rfl, hq, rfl⟩ | ⟨hleftOf, hrightOf⟩ |
        ⟨hleftOf, hrightOf⟩
      · obtain ⟨rfl, rfl⟩ := Prod.mk.inj hq
        have hleft := ihleft hlclimbs hleft' hlclimbs'
        have hright := ihright hrclimbs hright' hrclimbs'
        simp only [unplaced, respan] at hleft hright ⊢
        rw [hleft, hright]
      · have hle := hleft'.rank_le hlclimbs' hl' _ hleftOf
        have hlt := hright.rank_le hrclimbs hr _ hrightOf
        exact absurd hlt (Nat.not_lt_of_le hle)
      · have hle := hleft.rank_le hlclimbs hl _ hleftOf
        have hlt := hright'.rank_le hrclimbs' hr' _ hrightOf
        exact absurd hlt (Nat.not_lt_of_le hle)

end InOrder

end Expr

namespace Operations

variable {power : Kind → Power} {p b : Power} {ps : Operations}

theorem length_tokens (ps : Operations) : ps.tokens.length = 2 * ps.length := by
  induction ps with
  | nil => rfl
  | cons q ps ih =>
    have hcons : tokens (q :: ps) = q.1 :: q.2 :: tokens ps := rfl
    rw [hcons, List.length_cons, List.length_cons, List.length_cons, ih]
    omega

theorem tokens_append (ps qs : Operations) : (ps ++ qs).tokens = ps.tokens ++ qs.tokens :=
  List.flatMap_append

theorem lt_of_mem_above {q : Token × Token} (h : q ∈ above power p ps) : p < power q.1.kind :=
  of_decide_eq_true
    (List.mem_takeWhile_imp (p := fun q : Token × Token => p < power q.1.kind) h)

/-- What is left behind the operations that bind more strongly. -/
def beyond (power : Kind → Power) (p : Power) (ps : Operations) : Operations :=
  ps.dropWhile fun q => p < power q.1.kind

theorem above_append_beyond (power : Kind → Power) (p : Power) (ps : Operations) :
    ps.above power p ++ ps.beyond power p = ps :=
  List.takeWhile_append_dropWhile

theorem beyond_head (power : Kind → Power) (p : Power) (ps : Operations) :
    ∀ q ∈ (ps.beyond power p).head?, power q.1.kind ≤ p := by
  intro q hq
  have hnot := List.head?_dropWhile_not (fun q : Token × Token => p < power q.1.kind) ps
  rw [beyond] at hq
  rw [hq] at hnot
  exact Nat.le_of_not_lt (of_decide_eq_false hnot)

/-- What binds more strongly than the stronger power is taken first, then what does than the weaker.
-/
theorem above_eq_append (h : p < b) (ps : Operations) :
    ps.above power p = ps.above power b ++ (ps.beyond power b).above power p := by
  have hall : ∀ q ∈ ps.above power b, decide (p < power q.1.kind) = true := by
    intro q hq
    exact decide_eq_true (Nat.lt_trans h (lt_of_mem_above hq))
  calc
    ps.above power p = (ps.above power b ++ ps.beyond power b).above power p := by
      rw [above_append_beyond]
    _ = ps.above power b ++ (ps.beyond power b).above power p :=
      List.takeWhile_append_of_pos hall

end Operations

/-- A token is passed if another one is behind it. -/
theorem Cursor.passes_advance {c : Cursor} {t : Token} {ts : List Token} (h : c.rest = t :: ts)
    (hts : ts ≠ []) : c.Passes [t] c.advance := by
  injection h with ht hahead
  obtain ⟨u, us, rfl⟩ := List.exists_cons_of_ne_nil hts
  rw [advance, hahead]
  exact ⟨by rw [rest, ht, hahead]; rfl, by rw [← ht]; rfl⟩

namespace Grammar

open Operations

variable {g : Grammar} {p : Power} {c : Cursor} {x last : Token} {ps : Operations}
  {more : List Token}

/-- The token is an operand, and of a kind that is registered as one. -/
structure Operand (g : Grammar) (t : Token) : Prop where
  rule : g.operandRule t.kind = some .primary
  operand : t.IsOperand

/-- The operator is of a kind that is registered as binary, and an operand is behind it. -/
structure Operation (g : Grammar) (q : Token × Token) : Prop where
  rule : g.operatorRule q.1.kind = some .binary
  operand : g.Operand q.2

/-- The tokens `u` are passed and grouped: they are the operand with these operations. -/
def Groups (g : Grammar) (c : Cursor) (u : List Token) (x : Token) (ps : Operations)
    (r : EStateM.Result Diagnostic Cursor Expr) : Prop :=
  ∃ e c', r = .ok e c' ∧ c.Passes u c' ∧ e.InOrder x ps ∧ e.Climbs g.power

/-- The level reads expressions of less than `n` operations. -/
def Reads (g : Grammar) (n : Nat) (below : Level) : Prop :=
  ∀ {p c x ps last more}, g.Operand x → (∀ q ∈ ps, g.Operation q) → ps.length < n →
    c.rest = x :: tokens ps ++ last :: more → g.power last.kind = .default →
    g.Groups c (x :: tokens (above g.power p ps)) x (above g.power p ps) (below.expression p c)

theorem above_cons (power : Kind → Power) (p : Power) (operator y : Token) (ps : Operations) :
    above power p ((operator, y) :: ps) =
      if p < power operator.kind then (operator, y) :: above power p ps else [] := by
  rw [above, List.takeWhile_cons]
  by_cases h : p < power operator.kind
  · rw [if_pos h, if_pos (decide_eq_true h)]
    rfl
  · rw [if_neg h, if_neg (by rwa [decide_eq_true_eq])]

theorem tokens_cons (operator y : Token) (ps : Operations) :
    tokens ((operator, y) :: ps) = operator :: y :: tokens ps := rfl

/-- Behind an operator stand an operand and the operations that bind more strongly, which make its
right side. -/
theorem readBinary_groups {below : Level} {n : Nat} (hbelow : g.Reads n below) {left : Expr}
    {operator y : Token} (hn : ps.length < n) (hps : ∀ q ∈ (operator, y) :: ps, g.Operation q)
    (hrest : c.rest = tokens ((operator, y) :: ps) ++ last :: more)
    (hlast : g.power last.kind = .default) (hclimbs : left.Climbs g.power)
    (hroot : ∀ o ∈ left.operator?, g.power operator.kind ≤ g.power o.kind) :
    ∃ right span c', OperatorRule.readBinary below left (g.power operator.kind) c =
        .ok (.binary operator left right span) c' ∧
      c.Passes (tokens ((operator, y) :: above g.power (g.power operator.kind) ps)) c' ∧
      right.InOrder y (above g.power (g.power operator.kind) ps) ∧
      (Expr.binary operator left right span).Climbs g.power := by
  have hcurrent : c.current = operator := Cursor.current_of_rest hrest
  have hrest₁ : c.advance.rest = y :: tokens ps ++ last :: more :=
    Cursor.rest_advance hrest (List.cons_ne_nil _ _)
  have hfirst : c.Passes [operator] c.advance :=
    Cursor.passes_advance hrest (List.cons_ne_nil _ _)
  have hoperations : ∀ q ∈ ps, g.Operation q := fun q hq => hps q (List.mem_cons_of_mem _ hq)
  obtain ⟨right, c', hrun, hpassed, horder, hright⟩ :=
    hbelow (p := g.power operator.kind) (hps _ List.mem_cons_self).operand hoperations hn hrest₁
      hlast
  refine ⟨right, left.span.cover right.span, c', ?_, hfirst.trans hpassed, horder, ?_⟩
  · rw [OperatorRule.readBinary, bind_run_ok (advance_run c), bind_run_ok hrun, hcurrent]
    rfl
  · refine .binary hroot (fun o ho => ?_) hclimbs hright
    obtain ⟨z, hz⟩ := horder.exists_mem o ho
    exact lt_of_mem_above hz

/-- One round of the loop ends before an operator that does not bind, and behind one that does it
goes on with what stands there as its right side. -/
theorem extend_groups {below : Level} {n : Nat} (hbelow : g.Reads n below) {left : Expr}
    {before : Operations} (limit : Nat) (hlimit : ps.length < limit) (hn : ps.length ≤ n)
    (hps : ∀ q ∈ ps, g.Operation q) (hrest : c.rest = tokens ps ++ last :: more)
    (hlast : g.power last.kind = .default) (hleft : left.InOrder x before)
    (hclimbs : left.Climbs g.power)
    (hnext : ∀ q ∈ ps.head?, p < g.power q.1.kind →
      ∀ o ∈ left.operator?, g.power q.1.kind ≤ g.power o.kind) :
    g.Groups c (tokens (above g.power p ps)) x (before ++ above g.power p ps)
      (g.extend below p limit left c) := by
  induction limit generalizing left before ps c with
  | zero => exact absurd hlimit (Nat.not_lt_zero _)
  | succ limit ih =>
    rw [extend, bind_run_ok (current_run c)]
    cases ps with
    | nil =>
      have hcurrent : c.current = last := Cursor.current_of_rest hrest
      have hstops : g.power c.current.kind ≤ p := by
        rw [hcurrent, hlast]
        exact Nat.zero_le _
      rw [if_pos hstops]
      exact ⟨left, c, rfl, .refl c, by rwa [above, List.takeWhile_nil, List.append_nil], hclimbs⟩
    | cons q ps =>
      obtain ⟨operator, y⟩ := q
      have hcurrent : c.current = operator := Cursor.current_of_rest hrest
      rw [hcurrent, above_cons]
      by_cases hbinds : p < g.power operator.kind
      · have hstays : ¬g.power operator.kind ≤ p := Nat.not_le_of_lt hbinds
        have hrule : g.operatorRule operator.kind = some .binary := (hps _ List.mem_cons_self).rule
        obtain ⟨right, span, c₁, hrun, hpassed, hright, hgrouped⟩ :=
          readBinary_groups hbelow hn hps hrest hlast hclimbs (hnext _ rfl hbinds)
        -- The right side takes what binds more than the operator, and the loop goes on behind it.
        have hahead := above_append_beyond g.power (g.power operator.kind) ps
        have hlength := congrArg List.length hahead
        rw [List.length_append] at hlength
        rw [List.length_cons] at hlimit hn
        have hrest₁ : c₁.rest =
            tokens (beyond g.power (g.power operator.kind) ps) ++ last :: more := by
          have htokens := congrArg tokens hahead
          rw [tokens_append] at htokens
          have hall := hpassed.rest
          rw [hrest, tokens_cons, tokens_cons, ← htokens] at hall
          simpa using hall.symm
        have hrest₂ : ∀ q ∈ beyond g.power (g.power operator.kind) ps, g.Operation q := by
          intro q hq
          refine hps q (List.mem_cons_of_mem _ ?_)
          rw [← hahead]
          exact List.mem_append_right _ hq
        obtain ⟨e, c', hrun', hpassed', horder, he⟩ :=
          ih (by omega) (by omega) hrest₂ hrest₁ (.binary hleft hright) hgrouped (by
            rintro q hq - o ⟨⟩
            exact beyond_head _ _ _ q hq)
        rw [if_neg hstays, if_pos hbinds, hrule]
        change g.Groups c _ x _ ((OperatorRule.readBinary below left _ >>= _) c)
        rw [bind_run_ok hrun, above_eq_append hbinds ps]
        refine ⟨e, c', hrun', ?_, ?_, he⟩
        · have hpasses := hpassed.trans hpassed'
          rwa [← tokens_append] at hpasses
        · simpa using horder
      · have hle : g.power operator.kind ≤ p := Nat.le_of_not_lt hbinds
        rw [if_pos hle, if_neg hbinds]
        exact ⟨left, c, rfl, .refl c, by rwa [List.append_nil], hclimbs⟩

theorem readPrimary_groups (hx : g.Operand x) {ts : List Token} (hrest : c.rest = x :: ts)
    (hts : ts ≠ []) : ∃ e, OperandRule.readPrimary c = .ok e c.advance ∧
      c.Passes [x] c.advance ∧ e.InOrder x [] ∧ e.operator? = none := by
  obtain ⟨e, he⟩ := hx.operand.exists_primary
  have hcurrent : c.current = x := Cursor.current_of_rest hrest
  refine ⟨e, ?_, Cursor.passes_advance hrest hts, .operand he, Token.operator?_of_primary? he⟩
  rw [OperandRule.readPrimary, bind_run_ok (current_run c), hcurrent, he]
  rfl

theorem readExpression_reads {below : Level} {n : Nat} (hbelow : g.Reads n below)
    {level : Level} (hlevel : ∀ power c, level.expression power c =
      g.readExpression below power c) : g.Reads (n + 1) level := by
  intro p c x ps last more hx hps hn hrest hlast
  have hts : tokens ps ++ last :: more ≠ [] :=
    List.append_ne_nil_of_right_ne_nil _ (List.cons_ne_nil _ _)
  obtain ⟨e, hrun, hpassed, horder, hnone⟩ := readPrimary_groups hx hrest hts
  have hrest₁ : c.advance.rest = tokens ps ++ last :: more :=
    Cursor.rest_advance hrest hts
  have hlimit : ps.length < c.advance.rest.length := by
    rw [hrest₁, List.length_append, length_tokens, List.length_cons]
    omega
  obtain ⟨e', c', hrun', hpassed', horder', he'⟩ :=
    extend_groups (p := p) hbelow c.advance.rest.length hlimit (Nat.le_of_lt_succ hn) hps hrest₁
      hlast horder (.operand hnone) (by
        intro _ _ _ o ho
        rw [hnone] at ho
        cases ho)
  refine ⟨e', c', ?_, hpassed.trans hpassed', horder', he'⟩
  have hcurrent : c.current = x := Cursor.current_of_rest hrest
  rw [hlevel, readExpression, bind_run_ok (current_run c), hcurrent, hx.rule]
  change (OperandRule.readPrimary >>= _) c = _
  rw [bind_run_ok hrun, bind_run_ok (repetitions_run _)]
  exact hrun'

/-- Each level leaves one operation more to read. -/
theorem level_reads_chains (g : Grammar) (n : Nat) : g.Reads n (g.level n) := by
  induction n with
  | zero => exact fun _ _ hn => absurd hn (Nat.not_lt_zero _)
  | succ n ih => exact readExpression_reads ih fun _ _ => rfl

/-- Of operands with binary operators between them, read at a power, exactly those operations are
taken that stand before the first operator which does not bind more strongly. They are grouped by
the powers of their operators, and no other tree of them is. -/
theorem expression_climbs {p : Power} (hx : g.Operand x) (hps : ∀ q ∈ ps, g.Operation q)
    (hrest : c.rest = x :: tokens ps ++ last :: more) (hlast : g.power last.kind = .default) :
    ∃ e c', g.expression p c = .ok e c' ∧ c.Passes (x :: tokens (above g.power p ps)) c' ∧
      e.InOrder x (above g.power p ps) ∧ e.Climbs g.power ∧
      ∀ e' : Expr, e'.InOrder x (above g.power p ps) → e'.Climbs g.power →
        e'.unplaced = e.unplaced := by
  have hlength : ps.length < 2 * c.ahead.length + 4 := by
    have hall := congrArg List.length hrest
    rw [Cursor.length_rest, List.length_append, List.length_cons, length_tokens] at hall
    omega
  obtain ⟨e, c', hrun, hpassed, horder, hclimbs⟩ :=
    g.level_reads_chains (2 * c.ahead.length + 4) (p := p) hx hps hlength hrest hlast
  exact ⟨e, c', hrun, hpassed, horder, hclimbs, fun e' h' hclimbs' =>
    horder.unique hclimbs h' hclimbs'⟩

/-- Where sums bind more than products, `a * b + c` is the product of `a` and a sum. -/
theorem expression_climbs_sum_in_product :
    let token (k : Kind) (value : String) : Token := ⟨k, value, default⟩
    let g := ((Grammar.empty.addOperand .identifier .primary).addOperator .star .additive .binary)
      |>.addOperator .plus .multiplicative .binary
    let a := token .identifier "a"
    let ps := [(token .star "*", token .identifier "b"), (token .plus "+", token .identifier "c")]
    let last := token .semicolon ";"
    let c : Cursor := ⟨[], a, tokens ps ++ [last]⟩
    g.Operand a ∧ (∀ q ∈ ps, g.Operation q) ∧ g.power last.kind = .default ∧
      ∃ e c', g.expression .default c = .ok e c' ∧ c.Passes (a :: tokens ps) c' ∧
        ∀ e' : Expr, e'.InOrder a ps → e'.Climbs g.power → e'.unplaced = e.unplaced := by
  intro token g a ps last c
  have ha : g.Operand a := ⟨rfl, .word (by decide)⟩
  have hps : ∀ q ∈ ps, g.Operation q := by
    intro q hq
    simp only [ps, List.mem_cons, List.not_mem_nil, or_false] at hq
    rcases hq with rfl | rfl
    · exact ⟨rfl, rfl, .word (by decide)⟩
    · exact ⟨rfl, rfl, .word (by decide)⟩
  have hlast : g.power last.kind = .default := rfl
  have hrest : c.rest = a :: tokens ps ++ last :: [] := rfl
  have habove : above g.power .default ps = ps := rfl
  obtain ⟨e, c', hrun, hpassed, -, -, hunique⟩ :=
    expression_climbs (p := .default) ha hps hrest hlast
  rw [habove] at hpassed hunique
  exact ⟨ha, hps, hlast, e, c', hrun, hpassed, hunique⟩

end Grammar

end Scriptlet
