import Scriptlet.Tree.Basic

namespace Scriptlet

section Types

variable (leaf struct : String → Prop)

mutual

/-- The named types and the structs that occur in the type are of these, also those in the types of
members. -/
def Ty.BuiltFrom : Ty → Prop
  | .named name => leaf name
  | .list item => item.BuiltFrom
  | .function parameters result => Ty.AllBuiltFrom parameters ∧ result.BuiltFrom
  | .struct name members => struct name ∧ Ty.MembersBuiltFrom members

def Ty.AllBuiltFrom : List Ty → Prop
  | [] => True
  | t :: ts => t.BuiltFrom ∧ Ty.AllBuiltFrom ts

def Ty.MembersBuiltFrom : List (String × Ty) → Prop
  | [] => True
  | (_, t) :: members => t.BuiltFrom ∧ Ty.MembersBuiltFrom members

end

end Types

namespace Ty

variable {leaf leaf' struct struct' : String → Prop}

theorem allBuiltFrom_iff {ts : List Ty} :
    AllBuiltFrom leaf struct ts ↔ ∀ t ∈ ts, t.BuiltFrom leaf struct := by
  induction ts with
  | nil => simp [AllBuiltFrom]
  | cons t ts ih => simp [AllBuiltFrom, ih]

theorem membersBuiltFrom_iff {members : List (String × Ty)} :
    MembersBuiltFrom leaf struct members ↔ ∀ m ∈ members, m.2.BuiltFrom leaf struct := by
  induction members with
  | nil => simp [MembersBuiltFrom]
  | cons m members ih => simp [MembersBuiltFrom, ih]

mutual

theorem BuiltFrom.mono {t : Ty} (h : t.BuiltFrom leaf struct)
    (hleaf : ∀ name, leaf name → leaf' name) (hstruct : ∀ name, struct name → struct' name) :
    t.BuiltFrom leaf' struct' := by
  match t with
  | .named name => exact hleaf name h
  | .list item => exact BuiltFrom.mono (t := item) h hleaf hstruct
  | .function parameters result =>
    exact ⟨AllBuiltFrom.mono h.1 hleaf hstruct, BuiltFrom.mono h.2 hleaf hstruct⟩
  | .struct name members => exact ⟨hstruct name h.1, MembersBuiltFrom.mono h.2 hleaf hstruct⟩

theorem AllBuiltFrom.mono {ts : List Ty} (h : AllBuiltFrom leaf struct ts)
    (hleaf : ∀ name, leaf name → leaf' name) (hstruct : ∀ name, struct name → struct' name) :
    AllBuiltFrom leaf' struct' ts := by
  match ts with
  | [] => trivial
  | t :: ts => exact ⟨BuiltFrom.mono h.1 hleaf hstruct, AllBuiltFrom.mono h.2 hleaf hstruct⟩

theorem MembersBuiltFrom.mono {members : List (String × Ty)}
    (h : MembersBuiltFrom leaf struct members) (hleaf : ∀ name, leaf name → leaf' name)
    (hstruct : ∀ name, struct name → struct' name) : MembersBuiltFrom leaf' struct' members := by
  match members with
  | [] => trivial
  | m :: members =>
    exact ⟨BuiltFrom.mono h.1 hleaf hstruct, MembersBuiltFrom.mono h.2 hleaf hstruct⟩

end

end Ty

section Trees

variable (allowed : Ty → Prop) (imports : Prop)

mutual

/-- The types in annotations of the expression are all allowed, and import statements are too, if
there are any. -/
def Expr.Every : Expr → Prop
  | .int .. | .float .. | .string .. | .bool .. | .symbol .. => True
  | .binary _ left right _ => left.Every ∧ right.Every
  | .unary _ operand _ => operand.Every
  | .assign _ target value _ => target.Every ∧ value.Every
  | .member object _ _ => object.Every
  | .index object position _ => object.Every ∧ position.Every
  | .call callee arguments _ => callee.Every ∧ Expr.EveryOf arguments
  | .range lower upper _ => lower.Every ∧ upper.Every
  | .function parameters result body _ =>
    (∀ p ∈ parameters, allowed p.type) ∧ (∀ t ∈ result, allowed t) ∧ Stmt.EveryOf body
  | .array items _ => Expr.EveryOf items
  | .arrayOf item items _ => allowed item ∧ Expr.EveryOf items
  | .structOf _ fields _ => Expr.EveryOfFields fields
  | .construct _ arguments _ => Expr.EveryOf arguments

def Expr.Every? : Option Expr → Prop
  | none => True
  | some e => e.Every

def Expr.EveryOf : List Expr → Prop
  | [] => True
  | e :: es => e.Every ∧ Expr.EveryOf es

def Expr.EveryOfFields : List (String × Expr) → Prop
  | [] => True
  | (_, e) :: fields => e.Every ∧ Expr.EveryOfFields fields

def Stmt.Every : Stmt → Prop
  | .block (.mk body _) => Stmt.EveryOf body
  | .expression e _ => e.Every
  | .varDecl _ _ type value _ => (∀ t ∈ type, allowed t) ∧ Expr.Every? value
  | .fnDecl _ parameters result (.mk body _) _ =>
    (∀ p ∈ parameters, allowed p.type) ∧ (∀ t ∈ result, allowed t) ∧ Stmt.EveryOf body
  | .classDecl _ (.mk body _) _ => Stmt.EveryOf body
  | .branch condition (.mk body _) otherwise _ =>
    condition.Every ∧ Stmt.EveryOf body ∧ Stmt.Every? otherwise
  | .loop init condition post body _ =>
    Stmt.Every? init ∧ Expr.Every? condition ∧ Expr.Every? post ∧ body.Every
  | .ret value _ => Expr.Every? value
  | .importDecl .. => imports

def Stmt.Every? : Option Stmt → Prop
  | none => True
  | some s => s.Every

def Stmt.EveryOf : List Stmt → Prop
  | [] => True
  | s :: ss => s.Every ∧ Stmt.EveryOf ss

end

end Trees

section Both

-- Where no type and no import is at hand, the hypotheses are only handed on.
set_option linter.unusedSectionVars false

variable {allowed allowed' allowed'' : Ty → Prop} {imports imports' imports'' : Prop}
  (ha : ∀ t, allowed t → allowed' t → allowed'' t) (hi : imports → imports' → imports'')
include ha hi

mutual

/-- What holds of all annotations for two reasons together. -/
theorem Expr.every_of_both (e : Expr) (h : e.Every allowed imports)
    (h' : e.Every allowed' imports') : e.Every allowed'' imports'' := by
  match e with
  | .int .. | .float .. | .string .. | .bool .. | .symbol .. => trivial
  | .unary _ operand _ => exact Expr.every_of_both operand h h'
  | .member object _ _ => exact Expr.every_of_both object h h'
  | .binary .. | .assign .. | .index .. | .range .. =>
    exact ⟨Expr.every_of_both _ h.1 h'.1, Expr.every_of_both _ h.2 h'.2⟩
  | .call .. => exact ⟨Expr.every_of_both _ h.1 h'.1, Expr.everyOf_of_both _ h.2 h'.2⟩
  | .function _ _ _ _ =>
    exact ⟨fun p hp => ha _ (h.1 p hp) (h'.1 p hp), fun t ht => ha t (h.2.1 t ht) (h'.2.1 t ht),
      Stmt.everyOf_of_both _ h.2.2 h'.2.2⟩
  | .array items _ => exact Expr.everyOf_of_both items h h'
  | .arrayOf .. => exact ⟨ha _ h.1 h'.1, Expr.everyOf_of_both _ h.2 h'.2⟩
  | .structOf _ fields _ => exact Expr.everyOfFields_of_both fields h h'
  | .construct _ arguments _ => exact Expr.everyOf_of_both arguments h h'

theorem Expr.every?_of_both (e : Option Expr) (h : Expr.Every? allowed imports e)
    (h' : Expr.Every? allowed' imports' e) : Expr.Every? allowed'' imports'' e := by
  match e with
  | none => trivial
  | some e => exact Expr.every_of_both e h h'

theorem Expr.everyOf_of_both (es : List Expr) (h : Expr.EveryOf allowed imports es)
    (h' : Expr.EveryOf allowed' imports' es) : Expr.EveryOf allowed'' imports'' es := by
  match es with
  | [] => trivial
  | e :: es => exact ⟨Expr.every_of_both _ h.1 h'.1, Expr.everyOf_of_both _ h.2 h'.2⟩

theorem Expr.everyOfFields_of_both (fields : List (String × Expr))
    (h : Expr.EveryOfFields allowed imports fields)
    (h' : Expr.EveryOfFields allowed' imports' fields) :
    Expr.EveryOfFields allowed'' imports'' fields := by
  match fields with
  | [] => trivial
  | (_, e) :: fields =>
    exact ⟨Expr.every_of_both e h.1 h'.1, Expr.everyOfFields_of_both fields h.2 h'.2⟩

theorem Stmt.every_of_both (s : Stmt) (h : s.Every allowed imports)
    (h' : s.Every allowed' imports') : s.Every allowed'' imports'' := by
  match s with
  | .block (.mk body _) => exact Stmt.everyOf_of_both body h h'
  | .expression e _ => exact Expr.every_of_both e h h'
  | .varDecl .. =>
    exact ⟨fun t ht => ha t (h.1 t ht) (h'.1 t ht), Expr.every?_of_both _ h.2 h'.2⟩
  | .fnDecl _ _ _ (.mk _ _) _ =>
    exact ⟨fun p hp => ha _ (h.1 p hp) (h'.1 p hp), fun t ht => ha t (h.2.1 t ht) (h'.2.1 t ht),
      Stmt.everyOf_of_both _ h.2.2 h'.2.2⟩
  | .classDecl _ (.mk body _) _ => exact Stmt.everyOf_of_both body h h'
  | .branch _ (.mk _ _) _ _ =>
    exact ⟨Expr.every_of_both _ h.1 h'.1, Stmt.everyOf_of_both _ h.2.1 h'.2.1,
      Stmt.every?_of_both _ h.2.2 h'.2.2⟩
  | .loop .. =>
    exact ⟨Stmt.every?_of_both _ h.1 h'.1, Expr.every?_of_both _ h.2.1 h'.2.1,
      Expr.every?_of_both _ h.2.2.1 h'.2.2.1, Stmt.every_of_both _ h.2.2.2 h'.2.2.2⟩
  | .ret value _ => exact Expr.every?_of_both value h h'
  | .importDecl .. => exact hi h h'

theorem Stmt.every?_of_both (s : Option Stmt) (h : Stmt.Every? allowed imports s)
    (h' : Stmt.Every? allowed' imports' s) : Stmt.Every? allowed'' imports'' s := by
  match s with
  | none => trivial
  | some s => exact Stmt.every_of_both s h h'

theorem Stmt.everyOf_of_both (ss : List Stmt) (h : Stmt.EveryOf allowed imports ss)
    (h' : Stmt.EveryOf allowed' imports' ss) : Stmt.EveryOf allowed'' imports'' ss := by
  match ss with
  | [] => trivial
  | s :: ss => exact ⟨Stmt.every_of_both _ h.1 h'.1, Stmt.everyOf_of_both _ h.2 h'.2⟩

end

end Both

section Every

variable {allowed : Ty → Prop} {imports : Prop} (ha : ∀ t, allowed t) (hi : imports)
include ha hi

-- As above, the hypotheses are only handed on where they are not needed.
set_option linter.unusedSectionVars false

mutual

/-- If all types are allowed, so are those in annotations. -/
theorem Expr.every_of_forall (e : Expr) : e.Every allowed imports := by
  match e with
  | .int .. | .float .. | .string .. | .bool .. | .symbol .. => trivial
  | .unary _ operand _ => exact Expr.every_of_forall operand
  | .member object _ _ => exact Expr.every_of_forall object
  | .binary .. | .assign .. | .index .. | .range .. =>
    exact ⟨Expr.every_of_forall _, Expr.every_of_forall _⟩
  | .call .. => exact ⟨Expr.every_of_forall _, Expr.everyOf_of_forall _⟩
  | .function _ _ body _ => exact ⟨fun p _ => ha p.type, fun t _ => ha t, Stmt.everyOf_of_forall body⟩
  | .array items _ => exact Expr.everyOf_of_forall items
  | .arrayOf item items _ => exact ⟨ha item, Expr.everyOf_of_forall items⟩
  | .structOf _ fields _ => exact Expr.everyOfFields_of_forall fields
  | .construct _ arguments _ => exact Expr.everyOf_of_forall arguments

theorem Expr.every?_of_forall (e : Option Expr) : Expr.Every? allowed imports e := by
  match e with
  | none => trivial
  | some e => exact Expr.every_of_forall e

theorem Expr.everyOf_of_forall (es : List Expr) : Expr.EveryOf allowed imports es := by
  match es with
  | [] => trivial
  | e :: es => exact ⟨Expr.every_of_forall e, Expr.everyOf_of_forall es⟩

theorem Expr.everyOfFields_of_forall (fields : List (String × Expr)) :
    Expr.EveryOfFields allowed imports fields := by
  match fields with
  | [] => trivial
  | (_, e) :: fields => exact ⟨Expr.every_of_forall e, Expr.everyOfFields_of_forall fields⟩

theorem Stmt.every_of_forall (s : Stmt) : s.Every allowed imports := by
  match s with
  | .block (.mk body _) => exact Stmt.everyOf_of_forall body
  | .expression e _ => exact Expr.every_of_forall e
  | .varDecl _ _ _ value _ => exact ⟨fun t _ => ha t, Expr.every?_of_forall value⟩
  | .fnDecl _ _ _ (.mk body _) _ =>
    exact ⟨fun p _ => ha p.type, fun t _ => ha t, Stmt.everyOf_of_forall body⟩
  | .classDecl _ (.mk body _) _ => exact Stmt.everyOf_of_forall body
  | .branch condition (.mk body _) otherwise _ =>
    exact ⟨Expr.every_of_forall condition, Stmt.everyOf_of_forall body,
      Stmt.every?_of_forall otherwise⟩
  | .loop init condition post body _ =>
    exact ⟨Stmt.every?_of_forall init, Expr.every?_of_forall condition, Expr.every?_of_forall post,
      Stmt.every_of_forall body⟩
  | .ret value _ => exact Expr.every?_of_forall value
  | .importDecl .. => exact hi

theorem Stmt.every?_of_forall (s : Option Stmt) : Stmt.Every? allowed imports s := by
  match s with
  | none => trivial
  | some s => exact Stmt.every_of_forall s

theorem Stmt.everyOf_of_forall (ss : List Stmt) : Stmt.EveryOf allowed imports ss := by
  match ss with
  | [] => trivial
  | s :: ss => exact ⟨Stmt.every_of_forall s, Stmt.everyOf_of_forall ss⟩

end

end Every

theorem Stmt.everyOf_iff {allowed : Ty → Prop} {imports : Prop} {ss : List Stmt} :
    Stmt.EveryOf allowed imports ss ↔ ∀ s ∈ ss, s.Every allowed imports := by
  induction ss with
  | nil => simp [Stmt.EveryOf]
  | cons s ss ih => simp [Stmt.EveryOf, ih]

end Scriptlet
