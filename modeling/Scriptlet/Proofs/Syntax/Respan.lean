import Scriptlet.Tree.Basic

namespace Scriptlet

/-- The token in another place. -/
def Token.respan (f : Span → Span) (t : Token) : Token := { t with span := f t.span }

mutual

/-- The expression with every span changed, those of its operators too. -/
def Expr.respan (f : Span → Span) : Expr → Expr
  | .int value s => .int value (f s)
  | .float value s => .float value (f s)
  | .string value s => .string value (f s)
  | .bool value s => .bool value (f s)
  | .symbol name s => .symbol name (f s)
  | .binary operator left right s =>
    .binary (operator.respan f) (left.respan f) (right.respan f) (f s)
  | .unary operator operand s => .unary (operator.respan f) (operand.respan f) (f s)
  | .assign operator target value s =>
    .assign (operator.respan f) (target.respan f) (value.respan f) (f s)
  | .member object property s => .member (object.respan f) property (f s)
  | .index object position s => .index (object.respan f) (position.respan f) (f s)
  | .call callee arguments s => .call (callee.respan f) (Expr.respanAll f arguments) (f s)
  | .range lower upper s => .range (lower.respan f) (upper.respan f) (f s)
  | .function parameters result body s => .function parameters result (Stmt.respanAll f body) (f s)
  | .array items s => .array (Expr.respanAll f items) (f s)
  | .arrayOf item items s => .arrayOf item (Expr.respanAll f items) (f s)
  | .structOf name fields s => .structOf name (Expr.respanFields f fields) (f s)
  | .construct name arguments s => .construct name (Expr.respanAll f arguments) (f s)

def Expr.respanAll (f : Span → Span) : List Expr → List Expr
  | [] => []
  | e :: es => e.respan f :: Expr.respanAll f es

def Expr.respanFields (f : Span → Span) : List (String × Expr) → List (String × Expr)
  | [] => []
  | (name, e) :: fields => (name, e.respan f) :: Expr.respanFields f fields

def Expr.respan? (f : Span → Span) : Option Expr → Option Expr
  | none => none
  | some e => some (e.respan f)

def Stmt.respan (f : Span → Span) : Stmt → Stmt
  | .block b => .block (b.respan f)
  | .expression e s => .expression (e.respan f) (f s)
  | .varDecl name constant type value s => .varDecl name constant type (Expr.respan? f value) (f s)
  | .fnDecl name parameters result body s => .fnDecl name parameters result (body.respan f) (f s)
  | .classDecl name body s => .classDecl name (body.respan f) (f s)
  | .branch condition body otherwise s =>
    .branch (condition.respan f) (body.respan f) (Stmt.respan? f otherwise) (f s)
  | .loop init condition post body s =>
    .loop (Stmt.respan? f init) (Expr.respan? f condition) (Expr.respan? f post) (body.respan f)
      (f s)
  | .ret value s => .ret (Expr.respan? f value) (f s)
  | .importDecl name source s => .importDecl name source (f s)

def Stmt.respanAll (f : Span → Span) : List Stmt → List Stmt
  | [] => []
  | s :: ss => s.respan f :: Stmt.respanAll f ss

def Stmt.respan? (f : Span → Span) : Option Stmt → Option Stmt
  | none => none
  | some s => some (s.respan f)

def Block.respan (f : Span → Span) : Block → Block
  | .mk body s => .mk (Stmt.respanAll f body) (f s)

end

section Equations

attribute [local simp] Expr.respanAll Expr.respanFields Stmt.respanAll Expr.respan? Stmt.respan?
  Expr.respan Stmt.respan Block.respan

variable {f : Span → Span}

theorem Expr.respanAll_eq_map (es : List Expr) : Expr.respanAll f es = es.map (Expr.respan f) := by
  induction es with
  | nil => rfl
  | cons e es ih => simp [ih]

theorem Expr.respanFields_eq_map (fields : List (String × Expr)) :
    Expr.respanFields f fields = fields.map fun field => (field.1, field.2.respan f) := by
  induction fields with
  | nil => rfl
  | cons field fields ih => simp [ih]

theorem Stmt.respanAll_eq_map (ss : List Stmt) : Stmt.respanAll f ss = ss.map (Stmt.respan f) := by
  induction ss with
  | nil => rfl
  | cons s ss ih => simp [ih]

theorem Expr.respan?_eq_map (e : Option Expr) : Expr.respan? f e = e.map (Expr.respan f) := by
  cases e <;> rfl

theorem Stmt.respan?_eq_map (s : Option Stmt) : Stmt.respan? f s = s.map (Stmt.respan f) := by
  cases s <;> rfl

variable (s : Span)

theorem Expr.respan_call (callee : Expr) (arguments : List Expr) :
    (Expr.call callee arguments s).respan f =
      .call (callee.respan f) (arguments.map (Expr.respan f)) (f s) := by
  simp [Expr.respanAll_eq_map]

theorem Expr.respan_array (items : List Expr) :
    (Expr.array items s).respan f = .array (items.map (Expr.respan f)) (f s) := by
  simp [Expr.respanAll_eq_map]

theorem Expr.respan_arrayOf (item : Ty) (items : List Expr) :
    (Expr.arrayOf item items s).respan f = .arrayOf item (items.map (Expr.respan f)) (f s) := by
  simp [Expr.respanAll_eq_map]

theorem Expr.respan_structOf (name : String) (fields : List (String × Expr)) :
    (Expr.structOf name fields s).respan f =
      .structOf name (fields.map fun field => (field.1, field.2.respan f)) (f s) := by
  simp [Expr.respanFields_eq_map]

theorem Expr.respan_construct (name : String) (arguments : List Expr) :
    (Expr.construct name arguments s).respan f =
      .construct name (arguments.map (Expr.respan f)) (f s) := by
  simp [Expr.respanAll_eq_map]

theorem Stmt.respan_varDecl (name : String) (constant : Bool) (type : Option Ty)
    (value : Option Expr) :
    (Stmt.varDecl name constant type value s).respan f =
      .varDecl name constant type (value.map (Expr.respan f)) (f s) := by
  simp [Expr.respan?_eq_map]

theorem Stmt.respan_branch (condition : Expr) (body : Block) (otherwise : Option Stmt) :
    (Stmt.branch condition body otherwise s).respan f =
      .branch (condition.respan f) (body.respan f) (otherwise.map (Stmt.respan f)) (f s) := by
  simp [Stmt.respan?_eq_map]

theorem Stmt.respan_loop (init : Option Stmt) (condition post : Option Expr) (body : Stmt) :
    (Stmt.loop init condition post body s).respan f =
      .loop (init.map (Stmt.respan f)) (condition.map (Expr.respan f)) (post.map (Expr.respan f))
        (body.respan f) (f s) := by
  simp [Stmt.respan?_eq_map, Expr.respan?_eq_map]

theorem Stmt.respan_ret (value : Option Expr) :
    (Stmt.ret value s).respan f = .ret (value.map (Expr.respan f)) (f s) := by
  simp [Expr.respan?_eq_map]

theorem Block.respan_mk (body : List Stmt) :
    (Block.mk body s).respan f = .mk (body.map (Stmt.respan f)) (f s) := by
  simp [Stmt.respanAll_eq_map]

end Equations

/-- The token without its span. -/
abbrev Token.unplaced (t : Token) : Token := t.respan fun _ => default

/-- The tree without its spans. -/
abbrev Expr.unplaced (e : Expr) : Expr := e.respan fun _ => default

abbrev Stmt.unplaced (s : Stmt) : Stmt := s.respan fun _ => default

abbrev Block.unplaced (b : Block) : Block := b.respan fun _ => default

theorem Token.unplaced_eq {t u : Token} (hk : t.kind = u.kind) (hv : t.value = u.value) :
    t.unplaced = u.unplaced := by
  simp only [Token.respan, hk, hv]

end Scriptlet
