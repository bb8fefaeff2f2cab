import Scriptlet.Proofs.Syntax.StatementPlacing

namespace Scriptlet

open Scriptlet.Parser

mutual

/-- The statements inside an expression, at every depth: those in the bodies of its functions. -/
def Expr.inner : Expr → List Stmt
  | .int .. | .float .. | .string .. | .bool .. | .symbol .. => []
  | .binary _ left right _ => left.inner ++ right.inner
  | .unary _ operand _ => operand.inner
  | .assign _ target value _ => target.inner ++ value.inner
  | .member object _ _ => object.inner
  | .index object position _ => object.inner ++ position.inner
  | .call callee arguments _ => callee.inner ++ Expr.innerAll arguments
  | .range lower upper _ => lower.inner ++ upper.inner
  | .function _ _ body _ => Stmt.nodes body
  | .array items _ | .arrayOf _ items _ => Expr.innerAll items
  | .structOf _ fields _ => Expr.innerFields fields
  | .construct _ arguments _ => Expr.innerAll arguments

def Expr.innerAll : List Expr → List Stmt
  | [] => []
  | e :: es => e.inner ++ Expr.innerAll es

def Expr.innerFields : List (String × Expr) → List Stmt
  | [] => []
  | (_, e) :: fields => e.inner ++ Expr.innerFields fields

def Expr.inner? : Option Expr → List Stmt
  | none => []
  | some e => e.inner

/-- The statements inside a statement, at every depth, without itself. -/
def Stmt.inner : Stmt → List Stmt
  | .block body => body.nodes
  | .expression e _ => e.inner
  | .varDecl _ _ _ value _ => Expr.inner? value
  | .fnDecl _ _ _ body _ => body.nodes
  | .classDecl _ body _ => body.nodes
  | .branch condition body otherwise _ => condition.inner ++ (body.nodes ++ Stmt.nodes? otherwise)
  | .loop init condition post body _ =>
    Stmt.nodes? init ++ (Expr.inner? condition ++ (Expr.inner? post ++ body :: body.inner))
  | .ret value _ => Expr.inner? value
  | .importDecl .. => []

/-- The statements with those inside of them. -/
def Stmt.nodes : List Stmt → List Stmt
  | [] => []
  | s :: ss => s :: (s.inner ++ Stmt.nodes ss)

def Stmt.nodes? : Option Stmt → List Stmt
  | none => []
  | some s => s :: s.inner

def Block.nodes : Block → List Stmt
  | .mk body _ => Stmt.nodes body

end

theorem Block.nodes_eq (b : Block) : b.nodes = Stmt.nodes b.body := by
  cases b
  rfl

section Lists

variable {P : Stmt → Prop}

theorem Expr.forall_innerAll {es : List Expr} :
    (∀ s ∈ Expr.innerAll es, P s) ↔ ∀ e ∈ es, ∀ s ∈ e.inner, P s := by
  induction es with
  | nil => simp [Expr.innerAll]
  | cons e es ih => rw [Expr.innerAll, List.forall_mem_append, ih, List.forall_mem_cons]

theorem Expr.forall_innerFields {fields : List (String × Expr)} :
    (∀ s ∈ Expr.innerFields fields, P s) ↔ ∀ field ∈ fields, ∀ s ∈ field.2.inner, P s := by
  induction fields with
  | nil => simp [Expr.innerFields]
  | cons field fields ih =>
    rw [Expr.innerFields, List.forall_mem_append, ih, List.forall_mem_cons]

theorem Stmt.forall_nodes {ss : List Stmt} :
    (∀ s ∈ Stmt.nodes ss, P s) ↔ ∀ s ∈ ss, ∀ s' ∈ s :: s.inner, P s' := by
  induction ss with
  | nil => simp [Stmt.nodes]
  | cons s ss ih =>
    rw [Stmt.nodes, ← List.cons_append, List.forall_mem_append, ih]
    simp only [List.forall_mem_cons]

end Lists

namespace Parser

variable {α : Type} {ts : List Token} {lo : Nat} {item : Parser α} {P : α → Prop}

/-- A result with the run that gave it. -/
theorem Places.run {p : Parser α} {c : Cursor} {Q : α → Cursor → Prop} (h : Places ts p c Q) :
    Places ts p c fun a c' => Q a c' ∧ p c = .ok a c' := by
  intro hc a c' hrun
  obtain ⟨hc', hle, ha⟩ := h hc a c' hrun
  exact ⟨hc', hle, ha, hrun⟩

theorem forall_manyUntil (stops : Kind → Bool)
    (hitem : ∀ c, lo ≤ c.index → Places ts item c fun a _ => P a) (limit : Nat) (c : Cursor)
    (hlo : lo ≤ c.index) :
    Places ts (manyUntil stops item limit) c fun as _ => ∀ a ∈ as, P a := by
  induction limit generalizing c with
  | zero => exact .of_error (noProgress_run c)
  | succ limit ih =>
    refine .look (kind_run c) ?_
    split
    · exact .pure fun _ => List.forall_mem_nil P
    · apply (hitem c hlo).bind
      intro a c₁ hle ha
      apply (ih c₁ (by omega)).map
      intro as c' _ has
      exact List.forall_mem_cons.mpr ⟨ha, has⟩

theorem forall_separated (closing : Kind)
    (hitem : ∀ c, lo ≤ c.index → Places ts item c fun a _ => P a) (limit : Nat) (c : Cursor)
    (hlo : lo ≤ c.index) :
    Places ts (separated closing item limit) c fun as _ => ∀ a ∈ as, P a := by
  induction limit generalizing c with
  | zero => exact .of_error (noProgress_run c)
  | succ limit ih =>
    refine .look (kind_run c) (.look (kind_run c) ?_)
    split
    · exact .pure fun _ => List.forall_mem_nil P
    · apply (hitem c hlo).bind
      intro a c₁ hle ha
      refine .look (kind_run c₁) ?_
      split
      · rename_i hk
        apply (places_advance (by rw [hk]; decide)).next
        intro comma c₂ _ hindex
        apply (ih c₂ (by omega)).map
        intro as c' _ has
        exact List.forall_mem_cons.mpr ⟨ha, has⟩
      · exact .pure fun _ => List.forall_mem_singleton.mpr ha

theorem forall_listUntil {closing : Kind} (hk : closing ≠ .eof)
    (hitem : ∀ c, lo ≤ c.index → Places ts item c fun a _ => P a) (c : Cursor)
    (hlo : lo ≤ c.index) :
    Places ts (listUntil closing item) c fun as _ => ∀ a ∈ as, P a := by
  refine .look (repetitions_run c) ?_
  apply (forall_separated closing hitem _ c hlo).bind
  intro as c₁ _ has
  apply (places_expect hk).next
  intro close c₂ _ _
  exact .pure fun _ => has

end Parser

/-- The statement is read somewhere on these tokens. -/
def Stmt.ReadOn (ts : List Token) (s : Stmt) : Prop :=
  ∃ c c', c.On ts ∧ Grammar.standard.statement c = .ok s c'

/-- Each of the statements is read somewhere on these tokens. -/
def AllRead (ts : List Token) (ss : List Stmt) : Prop := ∀ s ∈ ss, s.ReadOn ts

/-- Whatever is read with `n` levels where they are enough has only statements inside that are
read where they stand. -/
structure Level.Collects (ts : List Token) (n : Nat) : Prop where
  expression : ∀ power c, 2 * ts.length ≤ n + 2 * c.index →
    Parser.Places ts ((Grammar.standard.level n).expression power) c fun e _ => AllRead ts e.inner
  statement : ∀ c, 2 * ts.length < n + 2 * c.index →
    Parser.Places ts (Grammar.standard.level n).statement c fun s _ => AllRead ts (s :: s.inner)
  branch : ∀ c, c.kind = .ifWord → 2 * ts.length < n + 2 * c.index →
    Parser.Places ts (Grammar.standard.level n).branch c fun s _ => AllRead ts (s :: s.inner)

namespace AllRead

variable {ts : List Token} {s : Stmt} {ss us : List Stmt}

theorem nil : AllRead ts [] := List.forall_mem_nil _

theorem append (h : AllRead ts ss) (h' : AllRead ts us) : AllRead ts (ss ++ us) :=
  List.forall_mem_append.mpr ⟨h, h'⟩

theorem cons (hs : s.ReadOn ts) (h : AllRead ts ss) : AllRead ts (s :: ss) :=
  List.forall_mem_cons.mpr ⟨hs, h⟩

end AllRead

namespace Grammar

variable {ts : List Token} {n : Nat} {c c' : Cursor} {s : Stmt}

/-- With levels enough for the tokens that are left, a statement is read as at their first. -/
theorem statement_of_level (hc : c.On ts) (hn : 2 * ts.length < n + 2 * c.index)
    (h : (Grammar.standard.level n).statement c = .ok s c') :
    Grammar.standard.statement c = .ok s c' := by
  have hlength := hc.length
  -- More levels than are needed change nothing.
  have hroom : Cursor.Room 2 n c := by
    rw [Cursor.Room]
    omega
  have hat : Cursor.Room 2 (2 * c.ahead.length + 4) c := by
    rw [Cursor.Room, Cursor.length_rest]
    omega
  rw [← h]
  exact (parts_level n).statement.viable.eq_of_enough hc.ended trivial hroom hat

/-- What a statement's own parser reads is read as a statement. -/
theorem readOn_of_readStatement (hc : c.On ts) (hn : 2 * ts.length ≤ n + 2 * c.index)
    (h : Grammar.standard.readStatement (Grammar.standard.level n) c = .ok s c') :
    s.ReadOn ts :=
  ⟨c, c', hc, statement_of_level (n := n + 1) hc (by omega) h⟩

end Grammar

end Scriptlet
