import Scriptlet.Proofs.Syntax.Reading

namespace Scriptlet

open Scriptlet.Parser

variable {m : Manner}

/-- The token begins an expression, and is not the word before a function's name. -/
def Token.BeginsOperand (t : Token) (us : List Token) : Prop :=
  (Grammar.standard.operandRule t.kind).isSome ∧
    (t.kind = .functionWord → ∃ u vs, us = u :: vs ∧ u.kind = .openParen)

theorem Token.BeginsOperand.append {t : Token} {us : List Token} (h : t.BeginsOperand us)
    (vs : List Token) : t.BeginsOperand (us ++ vs) := by
  refine ⟨h.1, fun hk => ?_⟩
  obtain ⟨u, ws, rfl, hu⟩ := h.2 hk
  exact ⟨u, ws ++ vs, rfl, hu⟩

theorem Token.BeginsOperand.of_kind {t : Token} {k : Kind} (us : List Token) (hk : t.kind = k)
    (hr : (Grammar.standard.operandRule k).isSome) (hf : k ≠ .functionWord) :
    t.BeginsOperand us := by
  subst hk
  exact ⟨hr, fun h => absurd h hf⟩

mutual

theorem Expr.Bare.head {e : Expr} {ts : List Token} (h : Expr.Bare m e ts) :
    ∃ t us, ts = t :: us ∧ t.BeginsOperand us := by
  match h with
  | .int hk _ => exact ⟨_, _, rfl, .of_kind _ hk rfl (by decide)⟩
  | .float hk _ => exact ⟨_, _, rfl, .of_kind _ hk rfl (by decide)⟩
  | .string hk => exact ⟨_, _, rfl, .of_kind _ hk rfl (by decide)⟩
  | .bool ht =>
    refine ⟨_, _, rfl, .of_kind _ ht.kind ?_ ?_⟩
    · split <;> rfl
    · split <;> decide
  | .symbol (.inl ht) => exact ⟨_, _, rfl, .of_kind _ ht.kind rfl (by decide)⟩
  | .symbol (.inr ht) => exact ⟨_, _, rfl, .of_kind _ ht.kind rfl (by decide)⟩
  | .unary ho _ _ _ =>
    refine ⟨_, _, rfl, by rw [ho]; rfl, fun hk => ?_⟩
    rw [hk] at ho
    cases ho
  | .binary _ _ _ hl _ | .assign _ _ _ hl _ | .member hl _ _ | .index hl _ _ _ | .call hl _ _ _
  | .range _ hl _ =>
    obtain ⟨t, us, rfl, ht⟩ := hl.head
    exact ⟨t, _, rfl, ht.append _⟩
  | .function hw ho _ _ _ _ =>
    exact ⟨_, _, rfl, by rw [hw.kind]; rfl, fun _ => ⟨_, _, rfl, ho.kind⟩⟩
  | .array ho _ _ | .arrayOf ho _ _ _ _ _ =>
    exact ⟨_, _, rfl, .of_kind _ ho.kind rfl (by decide)⟩
  | .structOf hw _ _ _ _ | .construct hw _ _ _ _ =>
    exact ⟨_, _, rfl, .of_kind _ hw.kind rfl (by decide)⟩

theorem Expr.Spelled.head {n : Nat} {e : Expr} {ts : List Token} (h : Expr.Spelled m n e ts) :
    ∃ t us, ts = t :: us ∧ t.BeginsOperand us := by
  match h with
  | .bare _ hb => exact hb.head
  | .group ho _ _ => exact ⟨_, _, rfl, .of_kind _ ho.kind rfl (by decide)⟩

end

theorem Expr.begins_spelled (n : Nat) {first : Token → Prop}
    (h : ∀ t : Token, (Grammar.standard.operandRule t.kind).isSome → first t) :
    Begins (Expr.Spelled m n) first := by
  intro e ts he
  obtain ⟨t, us, rfl, ht⟩ := he.head
  exact ⟨t, us, rfl, h t ht.1⟩

theorem Ty.Spelled.head {t : Ty} {ts : List Token} (h : Ty.Spelled t ts) :
    ∃ u us, ts = u :: us ∧ (Grammar.standard.typeRule u.kind).isSome := by
  cases h with
  | named ht => exact ⟨_, _, rfl, by rw [ht.kind]; rfl⟩
  | primitive ht hrule => exact ⟨_, _, rfl, by rw [ht.kind, hrule]; rfl⟩
  | list ho _ _ => exact ⟨_, _, rfl, by rw [ho.kind]; rfl⟩

theorem Block.Spelled.head {b : Block} {ts : List Token} (h : Block.Spelled m b ts) :
    ∃ t us, ts = t :: us ∧ t.kind = .openCurly := by
  cases h with
  | mk ho _ _ => exact ⟨_, _, rfl, ho.kind⟩

/-- A kind that begins a statement, among those that are told apart by where a sequence of
statements ends. -/
def Kind.BeginsStatement (k : Kind) : Prop := k ≠ .eof ∧ k ≠ .closeCurly ∧ k ≠ .elseWord

instance (k : Kind) : Decidable k.BeginsStatement :=
  inferInstanceAs (Decidable (_ ∧ _ ∧ _))

theorem Stmt.Spelled.head {s : Stmt} {ts : List Token} (h : Stmt.Spelled m s ts) :
    ∃ t us, ts = t :: us ∧ t.kind.BeginsStatement := by
  have hword {t : Token} {k : Kind} (ht : t.Is k) (hk : k.BeginsStatement) :
      t.kind.BeginsStatement := ht.kind ▸ hk
  cases h with
  | block hb =>
    obtain ⟨t, us, rfl, ht⟩ := hb.head
    exact ⟨t, us, rfl, by rw [ht]; decide⟩
  | expression he hs =>
    obtain ⟨t, us, rfl, ht, -⟩ := he.head
    refine ⟨t, _, rfl, ?_, ?_, ?_⟩ <;> rintro hk <;> rw [hk] at ht <;> cases ht
  | @varDecl constant _ _ _ _ _ _ _ _ hw =>
    refine ⟨_, _, rfl, hword hw ?_⟩
    cases constant <;> decide
  | fnDecl hw | classDecl hw | branch hw | forever hw | «while» hw | loop hw | ret hw
  | importDecl hw => exact ⟨_, _, rfl, hword hw (by decide)⟩

theorem Stmt.Spelled.head_branch {condition : Expr} {body : Block} {otherwise : Option Stmt}
    {s : Span} {ts : List Token} (h : Stmt.Spelled m (.branch condition body otherwise s) ts) :
    ∃ t us, ts = t :: us ∧ t.kind = .ifWord := by
  cases h with
  | branch hw => exact ⟨_, _, rfl, hw.kind⟩

/-- The body of a loop is a block. -/
theorem Stmt.Spelled.head_body {s : Stmt} {ts : List Token} (h : Stmt.Spelled .strict s ts)
    (hs : Manner.strict.body s) : ∃ t us, ts = t :: us ∧ t.kind = .openCurly := by
  obtain ⟨b, rfl⟩ := hs
  cases h with
  | block hb => exact hb.head

/-- Binary operators group more strongly than assignments and less than prefixes, and begin no
type. -/
theorem Grammar.standard_binary {k : Kind} (h : standard.operatorRule k = some .binary) :
    Power.assignment.rank < (standard.power k).rank ∧
      (standard.power k).rank ≤ Power.multiplicative.rank ∧ standard.typeRule k = none := by
  revert h
  cases k <;> decide

theorem Grammar.standard_assign {k : Kind} (h : standard.operatorRule k = some .assign) :
    standard.power k = .assignment ∧ standard.typeRule k = none := by
  revert h
  cases k <;> decide

namespace Expr

/-- The power at which the last operand of an expression is read. Other expressions end in a token
of their own, and no operator is stronger than that. -/
def reach : Expr → Nat
  | .binary operator .. => (Grammar.standard.power operator.kind).rank
  | .range .. => Power.relational.rank
  | .assign .. => Power.comma.rank
  | .unary .. => Power.unary.rank
  | _ => Power.primary.rank

/-- Reading the expression ends before a token of this kind. -/
def Stops (e : Expr) (k : Kind) : Prop :=
  (Grammar.standard.power k).rank ≤ e.reach ∧
    (e.strength ≤ Power.call.rank → Grammar.standard.typeRule k = none)

/-- An operand of an operator stops before it. -/
theorem Bare.stops {e : Expr} {ts : List Token} (h : Expr.Bare m e ts) {k : Kind}
    (he : Power.assignment.rank < e.strength)
    (hk : (Grammar.standard.power k).rank ≤ e.strength ∨ Power.unary.rank < e.strength)
    (ht : e.strength ≤ Power.call.rank → Grammar.standard.typeRule k = none) : e.Stops k := by
  refine ⟨?_, ht⟩
  -- The last operand is read at the strength of the whole, except in an assignment.
  have hmax : (Grammar.standard.power k).rank ≤ Power.primary.rank := by cases k <;> decide
  cases h with
  | binary ho hop _ _ =>
    obtain ⟨-, hq, -⟩ := Grammar.standard_binary ho
    rw [hop] at hq
    rcases hk with hk | hk
    · exact hk
    · exact absurd (Nat.lt_of_lt_of_le hk hq) (by decide)
  | range | unary =>
    rcases hk with hk | hk
    · exact hk
    · simp [strength, Power.rank] at hk
  | assign => exact absurd he (Nat.lt_irrefl _)
  | _ => exact hmax

end Expr

end Scriptlet
