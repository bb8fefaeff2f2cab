import Scriptlet.Bytecode.Compile

namespace Scriptlet

/-- Literals that fit in a byte, and arithmetic operators on such expressions. -/
inductive Expr.Compilable : Expr → Prop
  | int {value : Int64} {span : Span} (low : 0 ≤ value.toInt) (high : value.toInt ≤ 255) :
    Compilable (.int value span)
  | binary {operator : Token} {left right : Expr} {span : Span}
    (kind : operator.kind ∈ [Kind.plus, .dash, .star, .slash, .percent])
    (first : left.Compilable) (second : right.Compilable) :
    Compilable (.binary operator left right span)

/-- Such expressions as statements, and blocks of such statements. -/
inductive Stmt.Compilable : Stmt → Prop
  | expression {e : Expr} {span : Span} (value : e.Compilable) : Compilable (.expression e span)
  | block {body : List Stmt} {span : Span} (all : ∀ s ∈ body, s.Compilable) :
    Compilable (.block (.mk body span))

namespace Bytecode

/-- A node of a program that either has bytecode of its own or is to blame for having none. -/
inductive Site
  | expression (e : Expr)
  | statement (s : Stmt)

/-- An expression, then the sites of its left and of its right operand. -/
def sitesOf : Expr → List Site
  | e@(.binary _ left right _) => .expression e :: (sitesOf left ++ sitesOf right)
  | e => [.expression e]

mutual

/-- A statement, then the sites of its expression or of the statements in its block. -/
def sitesOfStmt : Stmt → List Site
  | s@(.expression e _) => .statement s :: sitesOf e
  | s@(.block (.mk body _)) => .statement s :: sitesOfStmts body
  | s => [.statement s]

def sitesOfStmts : List Stmt → List Site
  | [] => []
  | s :: ss => sitesOfStmt s ++ sitesOfStmts ss

end

/-- What is wrong with a node itself, whatever its parts are. -/
def Site.offence? : Site → Option Diagnostic
  | .expression (.int value span) =>
    if 0 ≤ value.toInt ∧ value.toInt ≤ 255 then none
    else some ⟨.operandRange (toString value.toInt), span.start⟩
  | .expression (.binary operator _ _ _) =>
    if operator.kind ∈ [Kind.plus, .dash, .star, .slash, .percent] then none
    else some ⟨.unsupported ("operator `" ++ operator.value ++ "`"), operator.span.start⟩
  | .expression e => some ⟨.unsupported e.constructName, e.span.start⟩
  | .statement (.expression ..) | .statement (.block ..) => none
  | .statement s => some ⟨.unsupported s.constructName, s.span.start⟩

/-- The diagnostic of the first node that offends. -/
def firstOffence? (sites : List Site) : Option Diagnostic := sites.findSome? Site.offence?

theorem firstOffence?_append (sites others : List Site) :
    firstOffence? (sites ++ others) = (firstOffence? sites).or (firstOffence? others) :=
  List.findSome?_append

theorem firstOffence?_cons (site : Site) (sites : List Site) :
    firstOffence? (site :: sites) = site.offence?.or (firstOffence? sites) := by
  rw [firstOffence?, List.findSome?_cons]
  cases site.offence? <;> rfl

/-- Where a site offends, all before it are in order. -/
theorem firstOffence?_eq_some_iff {sites : List Site} {d : Diagnostic} :
    firstOffence? sites = some d ↔
      ∃ before site after, sites = before ++ site :: after ∧ site.offence? = some d ∧
        ∀ other ∈ before, other.offence? = none :=
  List.findSome?_eq_some_iff

/-- The diagnostic of a compilation that fails. -/
def refusal? {α : Type} : Except Diagnostic α → Option Diagnostic
  | .ok _ => none
  | .error d => some d

section refusal

variable {α β : Type}

theorem refusal?_eq_some_iff {x : Except Diagnostic α} {d : Diagnostic} :
    refusal? x = some d ↔ x = .error d := by
  cases x <;> simp [refusal?]

theorem refusal?_eq_none_iff {x : Except Diagnostic α} :
    refusal? x = none ↔ ∃ a, x = .ok a := by
  cases x <;> simp [refusal?]

/-- Of two compilations, the first one that fails is reported. -/
theorem refusal?_bind {x : Except Diagnostic α} {f : α → Except Diagnostic β}
    {rest : Option Diagnostic} (h : ∀ a, refusal? (f a) = rest) :
    refusal? (x >>= f) = (refusal? x).or rest := by
  cases x with
  | ok a => exact h a
  | error d => rfl

/-- What is made of the code does not matter. -/
theorem refusal?_bind_pure (x : Except Diagnostic α) (f : α → β) :
    refusal? (x >>= fun a => pure (f a)) = refusal? x := by
  cases x <;> rfl

end refusal

theorem arithmetic?_isSome_iff (kind : Kind) :
    (arithmetic? kind).isSome ↔ kind ∈ [Kind.plus, .dash, .star, .slash, .percent] := by
  cases kind <;> simp [arithmetic?]

/-- A literal has an operand byte if it fits in one. -/
theorem byte?_isSome_iff (value : Int64) :
    (byte? value).isSome ↔ 0 ≤ value.toInt ∧ value.toInt ≤ 255 := by
  have hlow : (0 : Int64) ≤ value ↔ 0 ≤ value.toInt := Int64.le_iff_toInt_le
  have hhigh : value ≤ (255 : Int64) ↔ value.toInt ≤ 255 := Int64.le_iff_toInt_le
  simp only [byte?, hlow, hhigh, Option.isSome_ite]

theorem refusal?_ofExpr_int (value : Int64) (span : Span) :
    refusal? (ofExpr (.int value span)) = (Site.expression (.int value span)).offence? := by
  by_cases hv : 0 ≤ value.toInt ∧ value.toInt ≤ 255
  · obtain ⟨operand, hb⟩ := Option.isSome_iff_exists.mp ((byte?_isSome_iff value).mpr hv)
    simp only [ofExpr, hb, refusal?, Site.offence?, if_pos hv]
  · have hb : byte? value = none :=
      Option.not_isSome_iff_eq_none.mp fun h => hv ((byte?_isSome_iff value).mp h)
    simp only [ofExpr, hb, refusal?, Site.offence?, if_neg hv]
    rfl

/-- The operator of a binary expression is looked at before its operands. -/
theorem refusal?_ofExpr_binary (operator : Token) (left right : Expr) (span : Span) :
    refusal? (ofExpr (.binary operator left right span)) =
      (Site.expression (.binary operator left right span)).offence?.or
        ((refusal? (ofExpr left)).or (refusal? (ofExpr right))) := by
  by_cases hk : operator.kind ∈ [Kind.plus, .dash, .star, .slash, .percent]
  · obtain ⟨op, hop⟩ := Option.isSome_iff_exists.mp ((arithmetic?_isSome_iff _).mpr hk)
    have hs : (Site.expression (.binary operator left right span)).offence? = none := by
      rw [Site.offence?, if_pos hk]
    rw [hs, Option.none_or]
    simp only [ofExpr, hop]
    exact refusal?_bind fun first => refusal?_bind_pure (ofExpr right) _
  · have hop : arithmetic? operator.kind = none :=
      Option.not_isSome_iff_eq_none.mp fun h => hk ((arithmetic?_isSome_iff _).mp h)
    simp only [ofExpr, hop, refusal?, Site.offence?, if_neg hk, Option.some_or]
    rfl

/-- An expression is refused for its first node that offends. -/
theorem refusal?_ofExpr (e : Expr) : refusal? (ofExpr e) = firstOffence? (sitesOf e) := by
  match e with
  | .int value span =>
    rw [refusal?_ofExpr_int]
    exact (List.findSome?_singleton).symm
  | .binary operator left right span =>
    rw [refusal?_ofExpr_binary, refusal?_ofExpr left, refusal?_ofExpr right, sitesOf,
      firstOffence?_cons, firstOffence?_append]
  | .float .. | .string .. | .bool .. | .symbol .. | .unary .. | .assign .. | .member .. | .index ..
  | .call .. | .range .. | .function .. | .array .. | .arrayOf .. | .structOf .. | .construct .. =>
    rfl

mutual

/-- A statement is refused for its first node that offends. -/
theorem refusal?_ofStmt (s : Stmt) : refusal? (ofStmt s) = firstOffence? (sitesOfStmt s) := by
  match s with
  | .expression e span =>
    rw [ofStmt, refusal?_bind_pure, refusal?_ofExpr, sitesOfStmt, firstOffence?_cons]
    rfl
  | .block (.mk body span) =>
    rw [ofStmt, refusal?_ofStmts body, sitesOfStmt, firstOffence?_cons]
    rfl
  | .varDecl .. | .fnDecl .. | .classDecl .. | .branch .. | .loop .. | .ret .. | .importDecl .. =>
    rfl

theorem refusal?_ofStmts (ss : List Stmt) :
    refusal? (ofStmts ss) = firstOffence? (sitesOfStmts ss) := by
  match ss with
  | [] => rfl
  | s :: ss =>
    have hrest : ∀ first, refusal? (do return first ++ (← ofStmts ss)) = refusal? (ofStmts ss) :=
      fun first => refusal?_bind_pure (ofStmts ss) _
    rw [ofStmts, refusal?_bind hrest, refusal?_ofStmt s, refusal?_ofStmts ss, sitesOfStmts,
      firstOffence?_append]

end

theorem offence?_int_eq_none_iff (value : Int64) (span : Span) :
    (Site.expression (.int value span)).offence? = none ↔
      0 ≤ value.toInt ∧ value.toInt ≤ 255 := by
  rw [Site.offence?]
  split <;> simp_all

theorem offence?_binary_eq_none_iff (operator : Token) (left right : Expr) (span : Span) :
    (Site.expression (.binary operator left right span)).offence? = none ↔
      operator.kind ∈ [Kind.plus, .dash, .star, .slash, .percent] := by
  rw [Site.offence?]
  split <;> simp_all

/-- The expressions without an offender are those of the subset. -/
theorem firstOffence?_sitesOf_eq_none_iff (e : Expr) :
    firstOffence? (sitesOf e) = none ↔ e.Compilable := by
  match e with
  | .int value span =>
    have hs : firstOffence? (sitesOf (.int value span)) =
        (Site.expression (.int value span)).offence? := List.findSome?_singleton
    rw [hs, offence?_int_eq_none_iff]
    constructor
    · rintro ⟨low, high⟩
      exact .int low high
    · rintro ⟨low, high⟩
      exact ⟨low, high⟩
  | .binary operator left right span =>
    rw [sitesOf, firstOffence?_cons, firstOffence?_append, Option.or_eq_none_iff,
      Option.or_eq_none_iff, offence?_binary_eq_none_iff, firstOffence?_sitesOf_eq_none_iff left,
      firstOffence?_sitesOf_eq_none_iff right]
    constructor
    · rintro ⟨kind, first, second⟩
      exact .binary kind first second
    · rintro ⟨⟩
      exact ⟨‹_›, ‹_›, ‹_›⟩
  | .float .. | .string .. | .bool .. | .symbol .. | .unary .. | .assign .. | .member .. | .index ..
  | .call .. | .range .. | .function .. | .array .. | .arrayOf .. | .structOf .. | .construct .. =>
    exact ⟨nofun, nofun⟩

mutual

theorem firstOffence?_sitesOfStmt_eq_none_iff (s : Stmt) :
    firstOffence? (sitesOfStmt s) = none ↔ s.Compilable := by
  match s with
  | .expression e span =>
    have hs : firstOffence? (sitesOfStmt (.expression e span)) = firstOffence? (sitesOf e) := by
      rw [sitesOfStmt, firstOffence?_cons]
      rfl
    rw [hs, firstOffence?_sitesOf_eq_none_iff]
    constructor
    · exact .expression
    · rintro ⟨value⟩
      exact value
  | .block (.mk body span) =>
    have hs : firstOffence? (sitesOfStmt (.block (.mk body span))) =
        firstOffence? (sitesOfStmts body) := by
      rw [sitesOfStmt, firstOffence?_cons]
      rfl
    rw [hs, firstOffence?_sitesOfStmts_eq_none_iff body]
    constructor
    · exact .block
    · rintro ⟨⟩
      assumption
  | .varDecl .. | .fnDecl .. | .classDecl .. | .branch .. | .loop .. | .ret .. | .importDecl .. =>
    exact ⟨nofun, nofun⟩

theorem firstOffence?_sitesOfStmts_eq_none_iff (ss : List Stmt) :
    firstOffence? (sitesOfStmts ss) = none ↔ ∀ s ∈ ss, s.Compilable := by
  match ss with
  | [] => exact ⟨fun _ => nofun, fun _ => rfl⟩
  | s :: ss =>
    rw [sitesOfStmts, firstOffence?_append, Option.or_eq_none_iff,
      firstOffence?_sitesOfStmt_eq_none_iff s, firstOffence?_sitesOfStmts_eq_none_iff ss,
      List.forall_mem_cons]

end

end Bytecode

/-- A program has bytecode if and only if every statement, through nested blocks, is an expression
of literals from 0 to 255 and the five arithmetic operators. Otherwise it is refused for the first
of its nodes that offends: a literal with its decimal value, an operator with its text and at its
own token, anything else with its name. -/
theorem compile_or_first_offence (program : Block) :
    ((∃ code, compile program = .ok code) ↔ ∀ s ∈ program.body, s.Compilable) ∧
    ∀ d, compile program = .error d ↔
      ∃ before site after, Bytecode.sitesOfStmts program.body = before ++ site :: after ∧
        site.offence? = some d ∧ ∀ other ∈ before, other.offence? = none := by
  have hrefused : Bytecode.refusal? (compile program) =
      Bytecode.firstOffence? (Bytecode.sitesOfStmts program.body) :=
    Bytecode.refusal?_ofStmts program.body
  constructor
  · rw [← Bytecode.refusal?_eq_none_iff, hrefused, Bytecode.firstOffence?_sitesOfStmts_eq_none_iff]
  · intro d
    rw [← Bytecode.refusal?_eq_some_iff, hrefused, Bytecode.firstOffence?_eq_some_iff]

-- Of the several offenders of `{ 256 < x; } y;`, the operator comes before its operands.
example :
    let less : Token := ⟨.less, "<", ⟨⟨6, "main"⟩, ⟨7, "main"⟩⟩⟩
    let comparison : Expr := .binary less (.int 256 default) (.symbol "x" default) default
    let line (e : Expr) : Stmt := .expression e default
    compile (.mk [.block (.mk [line comparison] default), line (.symbol "y" default)] default) =
      .error ⟨.unsupported "operator `<`", ⟨6, "main"⟩⟩ := by
  rfl

end Scriptlet
