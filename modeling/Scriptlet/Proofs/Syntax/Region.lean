import Scriptlet.Tree.Basic

namespace Scriptlet

/-- A stretch of a source, and the stretches of its parts. -/
inductive Region
  | node (span : Span) (parts : List Region)

namespace Region

def span : Region → Span
  | node span _ => span

def parts : Region → List Region
  | node _ parts => parts

end Region

/-- An operator is a part of the expression it stands in. -/
def Token.region (t : Token) : Region := .node t.span []

mutual

/-- The region of an expression. Its parts are its operator and the nodes inside it. -/
def Expr.region : Expr → Region
  | .int _ s | .float _ s | .string _ s | .bool _ s | .symbol _ s => .node s []
  | .binary operator left right s => .node s [left.region, operator.region, right.region]
  | .unary operator operand s => .node s [operator.region, operand.region]
  | .assign operator target value s => .node s [target.region, operator.region, value.region]
  | .member object _ s => .node s [object.region]
  | .index object position s => .node s [object.region, position.region]
  | .call callee arguments s => .node s (callee.region :: Expr.regions arguments)
  | .range lower upper s => .node s [lower.region, upper.region]
  | .function _ _ body s => .node s (Stmt.regions body)
  | .array items s => .node s (Expr.regions items)
  | .arrayOf _ items s => .node s (Expr.regions items)
  | .structOf _ fields s => .node s (Expr.regionsOfFields fields)
  | .construct _ arguments s => .node s (Expr.regions arguments)

def Expr.regions : List Expr → List Region
  | [] => []
  | e :: es => e.region :: Expr.regions es

def Expr.regionsOfFields : List (String × Expr) → List Region
  | [] => []
  | (_, e) :: fields => e.region :: Expr.regionsOfFields fields

def Expr.regions? : Option Expr → List Region
  | none => []
  | some e => [e.region]

def Stmt.region : Stmt → Region
  | .block b => b.region
  | .expression e s => .node s [e.region]
  | .varDecl _ _ _ value s => .node s (Expr.regions? value)
  | .fnDecl _ _ _ body s => .node s [body.region]
  | .classDecl _ body s => .node s [body.region]
  | .branch condition body otherwise s =>
    .node s (condition.region :: body.region :: Stmt.regions? otherwise)
  | .loop init condition post body s =>
    .node s (Stmt.regions? init ++ Expr.regions? condition ++ Expr.regions? post ++ [body.region])
  | .ret value s => .node s (Expr.regions? value)
  | .importDecl _ _ s => .node s []

def Stmt.regions : List Stmt → List Region
  | [] => []
  | s :: ss => s.region :: Stmt.regions ss

def Stmt.regions? : Option Stmt → List Region
  | none => []
  | some s => [s.region]

def Block.region : Block → Region
  | .mk body s => .node s (Stmt.regions body)

end

theorem Expr.span_region (e : Expr) : e.region.span = e.span := by
  cases e <;> rw [Expr.region] <;> rfl

theorem Block.region_eq (b : Block) : b.region = .node b.span (Stmt.regions b.body) := by
  cases b
  rfl

theorem Stmt.span_region (s : Stmt) : s.region.span = s.span := by
  cases s with
  | block b =>
    rw [Stmt.region, Block.region_eq]
    rfl
  | _ => rfl

theorem Expr.regions_eq_flatMap (es : List Expr) :
    Expr.regions es = es.flatMap fun e => [e.region] := by
  induction es with
  | nil => rfl
  | cons e es ih =>
    rw [Expr.regions, ih]
    rfl

theorem Expr.regionsOfFields_eq_flatMap (fields : List (String × Expr)) :
    Expr.regionsOfFields fields = fields.flatMap fun field => [field.2.region] := by
  induction fields with
  | nil => rfl
  | cons field fields ih =>
    rw [Expr.regionsOfFields, ih]
    rfl

theorem Stmt.regions_eq_flatMap (ss : List Stmt) :
    Stmt.regions ss = ss.flatMap fun s => [s.region] := by
  induction ss with
  | nil => rfl
  | cons s ss ih =>
    rw [Stmt.regions, ih]
    rfl

theorem Expr.region_mem_regions {e : Expr} {es : List Expr} (h : e ∈ es) :
    e.region ∈ Expr.regions es := by
  rw [Expr.regions_eq_flatMap]
  exact List.mem_flatMap.mpr ⟨e, h, List.mem_singleton_self _⟩

theorem Stmt.region_mem_regions {s : Stmt} {ss : List Stmt} (h : s ∈ ss) :
    s.region ∈ Stmt.regions ss := by
  rw [Stmt.regions_eq_flatMap]
  exact List.mem_flatMap.mpr ⟨s, h, List.mem_singleton_self _⟩

namespace Region

/-- The region begins and ends at such positions, and so do its parts, at every depth. -/
inductive Marked (M : Position → Prop) : Region → Prop
  | node {span : Span} {parts : List Region} : M span.start → M span.stop →
    (∀ r ∈ parts, Marked M r) → Marked M (.node span parts)

theorem marked_node {M : Position → Prop} {span : Span} {parts : List Region} :
    (node span parts).Marked M ↔ M span.start ∧ M span.stop ∧ ∀ r ∈ parts, r.Marked M := by
  constructor
  · rintro ⟨hstart, hstop, hparts⟩
    exact ⟨hstart, hstop, hparts⟩
  · rintro ⟨hstart, hstop, hparts⟩
    exact .node hstart hstop hparts

/-- Where every position will do, every region is marked. -/
theorem marked_true (r : Region) : r.Marked fun _ => True := by
  match r with
  | node span parts => exact .node trivial trivial fun r hr => marked_true r
termination_by sizeOf r
decreasing_by
  have hlt := List.sizeOf_lt_of_mem hr
  rw [node.sizeOf_spec]
  omega

theorem Marked.start {M : Position → Prop} {r : Region} (h : r.Marked M) : M r.span.start := by
  cases h with
  | node hstart _ _ => exact hstart

end Region

theorem Expr.marked_start {M : Position → Prop} {e : Expr} (h : e.region.Marked M) : M e.start := by
  rw [Expr.start, ← e.span_region]
  exact h.start

theorem Stmt.marked_start {M : Position → Prop} {s : Stmt} (h : s.region.Marked M) :
    M s.span.start := by
  rw [← s.span_region]
  exact h.start

end Scriptlet
