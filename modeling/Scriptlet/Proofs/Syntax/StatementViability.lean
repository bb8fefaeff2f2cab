import Scriptlet.Grammar.Program
import Scriptlet.Proofs.Syntax.ExpressionViability
import Scriptlet.Proofs.Syntax.StatementTaking

namespace Scriptlet

open Scriptlet.Parser Cursor

/-- A statement that begins with the token. -/
def Level.statementFrom (below : Level) (t : Token) : Parser Stmt :=
  match Grammar.standard.statementRule t.kind with
  | some rule => rule.read below
  | .none => StatementRule.readExpression below

namespace StatementRule

/-- A variable behind its type: the value, if it needs one, and the semicolon. -/
def varDeclRest (below : Level) (word name : Token) (type : Option Ty) : Parser Stmt := do
  let constant : Bool := word.kind = .constWord
  let value ← readInitializer below type.isSome
  require (!constant || value.isSome) "expected rhs in constant definition"
  let _ ← expect .semicolon
  return .varDecl name.value constant type value (← spanFrom word.span.start)

/-- The end of a variable behind its value. -/
def varDeclEnd (word name : Token) (type : Option Ty) (value : Option Expr) : Parser Stmt := do
  let _ ← expect .semicolon
  return .varDecl name.value (word.kind = .constWord) type value (← spanFrom word.span.start)

/-- What a variable without a value is reported for. -/
def varDeclBare (word name : Token) (type : Option Ty) : Parser Stmt :=
  if type.isSome then
    if word.kind = .constWord then unexpectedFor "expected rhs in constant definition"
    else varDeclEnd word name type none
  else unexpectedFor "expected rhs or explicit type"

/-- A loop behind the expression that it begins with, which is its first clause before a semicolon,
and else its condition. -/
def loopBehind (below : Level) (start first : Position) (e : Expr) : Parser Stmt := do
  if (← kind) ≠ .semicolon then
    let body ← below.statement
    return .loop none (some e) none body (← spanFrom start)
  else
    let _ ← advance
    let init := Stmt.expression e (← spanFrom first)
    readClauses below start (some init)

/-- A loop that begins with an expression, behind its word. -/
def loopFrom (below : Level) (start first : Position) : Parser Stmt := do
  let e ← below.expression .default
  loopBehind below start first e

/-- A function that is declared, behind its word. -/
def fnDeclRest (below : Level) (start : Position) : Parser Stmt := do
  let name ← expect .identifier
  let parameters ← below.parameters
  let result ← below.annotation?
  let body ← below.block
  return .fnDecl name.value parameters result body (← spanFrom start)

/-- A statement with the word of a function, by the kind that stands behind it. -/
def fnDeclFrom (below : Level) (behind : Kind) : Parser Stmt :=
  if behind ≠ .identifier then readExpression below
  else do
    let word ← advance
    fnDeclRest below word.span.start

theorem readFnDecl_run (below : Level) (c : Cursor) :
    readFnDecl below c = fnDeclFrom below c.peek c := rfl

theorem varDeclRest_run (below : Level) (word name : Token) (type : Option Ty) (c : Cursor) :
    varDeclRest below word name type c =
      (do
        if (← kind) = .semicolon then varDeclBare word name type
        else
          let _ ← expect .assign
          let e ← below.expression .default
          varDeclEnd word name type (some e) : Parser Stmt) c := by
  have hkind (f : Kind → Parser Stmt) : (kind >>= f) c = f c.kind c := rfl
  simp only [varDeclRest, readInitializer, bind_assoc]
  rw [hkind, hkind]
  -- With a value, a constant has what is required of it; without one, the same token is reported.
  by_cases hk : c.kind = .semicolon
  · simp only [hk, ne_eq, not_true_eq_false, if_false, varDeclBare]
    cases type with
    | none => rfl
    | some type =>
      by_cases hconst : word.kind = .constWord
      · simp only [hconst]
        rfl
      · simp only [varDeclEnd, hconst]
        rfl
  · simp only [hk, ne_eq, not_false_eq_true, if_true, bind_assoc, pure_bind, require,
      Option.isSome_some, Bool.or_true]
    rfl

end StatementRule

namespace Parts

variable {n : Nat} {below : Nat → Level} {next : Kind → Prop} {E : Nat → Cursor → Prop}
  {starts : Token → Prop}

theorem viable_expressionStatement (hb : Parts n below) :
    Viable n (Room 1) 2 starts next fun m => StatementRule.readExpression (below m) := by
  refine .select (Y := fun t m => do
    let e ← (below m).expression .default
    let _ ← expect .semicolon
    return Stmt.expression e (← spanFrom t.span.start)) (fun _ _ _ => rfl) fun t _ => ?_
  exact (hb.expression .default).starting.bind
    (fun e => (Phrase.expect .semicolon (by decide)).spanned t.span.start fun _ span =>
      Stmt.expression e span)
    (fun _ _ => ⟨rfl, rfl⟩) (.inl (Nat.le_refl _)) (suffices_room 1) (Nat.le_refl _) (Nat.le_refl _)

theorem phrase_varDeclEnd (word name : Token) (type : Option Ty) (value : Option Expr) :
    Phrase n Inside 1 next [.semicolon]
      fun _ => StatementRule.varDeclEnd word name type value :=
  (Phrase.expect .semicolon (by decide)).spanned word.span.start fun _ span =>
    Stmt.varDecl name.value (word.kind = .constWord) type value span

/-- Without a value, a variable is complete or the semicolon is reported. -/
theorem viable_varDeclBare (word name : Token) (type : Option Ty) :
    Viable n Inside 1 starts next fun _ => StatementRule.varDeclBare word name type := by
  unfold StatementRule.varDeclBare
  split
  · split
    · exact .unexpectedFor _
    · exact (phrase_varDeclEnd word name type none).starting
  · exact .unexpectedFor _

theorem phrase_varDeclRest (hb : Parts n below) (word name : Token) (type : Option Ty) :
    Phrase n Inside 1 next [.assign, .identifier, .semicolon]
      fun m => StatementRule.varDeclRest (below m) word name type := by
  have hvalue : Phrase n Inside 3 next [.assign, .identifier, .semicolon] (fun m => do
      let _ ← expect .assign
      let e ← (below m).expression .default
      StatementRule.varDeclEnd word name type (some e)) :=
    (Phrase.expect .assign (by decide)).seq fun _ =>
      (hb.innerExpression .default).bind (fun e => phrase_varDeclEnd word name type (some e))
        (fun _ _ => ⟨rfl, rfl⟩) (.inl (Nat.le_refl _))
  have hchoice : Phrase n Inside 1 next [.assign, .identifier, .semicolon] (fun m => do
      if (← kind) = .semicolon then StatementRule.varDeclBare word name type
      else
        let _ ← expect .assign
        let e ← (below m).expression .default
        StatementRule.varDeclEnd word name type (some e)) :=
    ⟨.ifKind (viable_varDeclBare word name type) (Nat.le_refl _) (.inl (Nat.le_refl _))
      hvalue.starting (by decide) (.inl (by decide)), .onKind fun _ _ => hvalue.completes⟩
  exact hchoice.reindex (r := id) fun m c hm =>
    ⟨hm, StatementRule.varDeclRest_run (below m) word name type c⟩

theorem viable_readVarDecl (hb : Parts n below) (hE : Suffices E 1 Inside)
    (hs : ∀ t, starts t → t.kind ≠ .eof) :
    Viable n E 3 starts next fun m => StatementRule.readVarDecl (below m) :=
  .behind hE hs fun word => (Phrase.expectFor .identifier (by decide) _).seq fun name =>
    hb.annotation?.bind (hb.phrase_varDeclRest word name) (fun _ _ => nofun)
      (.inl (Nat.le_refl _))

/-- What follows the word before the source of an import. -/
theorem phrase_source :
    Phrase n Inside 1 next [.identifier] (fun _ => do
      if (← kind) = .string then return some (← advance).value
      else return some (← expect .identifier).value) := by
  have hname : Phrase n Inside 1 next [.identifier]
      (fun _ => do return some (← expect .identifier).value) :=
    (Phrase.expect .identifier (by decide)).map fun t => some t.value
  constructor
  · exact .ifKind ((Viable.advance_of_kind (by decide)).map fun t => some t.value) (Nat.le_refl _)
      (.inl (Nat.le_refl _)) hname.starting (Nat.le_refl _) (.inl (Nat.le_refl _))
  · exact .onKind fun _ _ => hname.completes

theorem phrase_readSource :
    Phrase n Inside 0 (· ≠ .fromWord) [] fun _ => StatementRule.readSource := by
  constructor
  · exact .ifKind (.behind (suffices_inside 1) (fun t ht => ht ▸ by decide) fun _ => phrase_source)
      (Nat.zero_le _) (.inl (by decide)) (.pure none) (Nat.le_refl _) (.inr fun _ h => h)
  · refine .idle fun m c _ hk => ⟨none, ?_⟩
    rw [StatementRule.readSource, bind_run_ok (kind_run c), if_neg hk]
    rfl

theorem viable_readImport (hs : ∀ t, starts t → t.kind ≠ .eof) :
    Viable n (Room 0) 3 starts next fun _ => StatementRule.readImport :=
  .behind (suffices_room 0) hs fun word => (Phrase.expect .identifier (by decide)).seq fun name =>
    phrase_readSource.bind
      (fun source => (Phrase.expect .semicolon (by decide)).spanned word.span.start fun _ span =>
        Stmt.importDecl name.value source span)
      (fun _ _ => nofun) (.inl (Nat.le_refl _))

/-- What follows `else`: another branch or a block. -/
theorem phrase_alternative (hb : Parts n below) :
    Phrase n Inside 1 (· ≠ .elseWord) [.openCurly, .closeCurly] (fun m => do
      if (← kind) = .ifWord then return some (← (below m).branch)
      else return some (Stmt.block (← (below m).block))) := by
  have hblock : Phrase n Inside 2 (· ≠ .elseWord) [.openCurly, .closeCurly]
      (fun m => do return some (Stmt.block (← (below m).block))) :=
    (hb.block (suffices_inside 1)).map fun body => some (Stmt.block body)
  exact ⟨.ifKind ((hb.branch.inside (by decide)).map some) (Nat.le_refl _) (.inl (Nat.le_refl _))
    hblock.starting (by decide) (.inl (by decide)), .onKind fun _ _ => hblock.completes⟩

theorem phrase_readOtherwise (hb : Parts n below) :
    Phrase n Inside 0 (· ≠ .elseWord) [] fun m => StatementRule.readOtherwise (below m) := by
  constructor
  · exact .ifKind
      (.behind (suffices_inside 1) (fun t ht => ht ▸ by decide) fun _ => hb.phrase_alternative)
      (Nat.zero_le _) (.inl (by decide)) (.pure none) (Nat.le_refl _) (.inr fun _ h => h)
  · refine .idle fun m c _ hk => ⟨none, ?_⟩
    rw [StatementRule.readOtherwise, bind_run_ok (kind_run c), if_neg hk]
    rfl

theorem viable_readBranch (hb : Parts n below) (hs : ∀ t, starts t → t.kind ≠ .eof) :
    Viable n (Room 0) 4 starts (· ≠ .elseWord) fun m => StatementRule.readBranch (below m) :=
  .behind (suffices_room 0) hs fun word => (hb.innerExpression .default).bind
    (fun condition => (hb.block (suffices_inside 1)).seq fun body =>
      hb.phrase_readOtherwise.spanned word.span.start (Stmt.branch condition body))
    (fun _ _ => ⟨rfl, rfl⟩) (.inl (by decide))

theorem phrase_readClauses (hb : Parts n below) (start : Position) (init : Option Stmt) :
    Phrase n Inside 2 (· ≠ .elseWord) [.semicolon, .openCurly, .closeCurly]
      fun m => StatementRule.readClauses (below m) start init :=
  (hb.expression? ⟨rfl, rfl⟩).bind
    (fun condition => (Phrase.expect .semicolon (by decide)).seq fun _ =>
      (hb.expression? ⟨rfl, rfl⟩).bind
        (fun post => hb.innerStatement.spanned start
          (Stmt.loop init condition post))
        (fun _ _ => rfl) (.inl (Nat.le_refl _)))
    (fun _ _ => rfl) (.inl (by decide))

theorem phrase_loopBehind (hb : Parts n below) (start first : Position) (e : Expr) :
    Phrase n Inside 1 (· ≠ .elseWord) [.openCurly, .closeCurly]
      fun m => StatementRule.loopBehind (below m) start first e := by
  have hbody : Phrase n Inside 1 (· ≠ .elseWord) [.openCurly, .closeCurly] (fun m => do
      let body ← (below m).statement
      return Stmt.loop none (some e) none body (← spanFrom start)) :=
    hb.innerStatement.spanned start (Stmt.loop none (some e) none)
  constructor
  · refine .onKind fun k => ⟨1, Nat.le_refl _, ?_, .inl (Nat.le_refl _)⟩
    by_cases hk : k = .semicolon
    · subst hk
      refine Viable.least (l := 3) ?_ (by decide)
      exact .behind (suffices_inside 1) (fun t ht => ht ▸ by decide) fun _ =>
        (phrase_spanFrom first).seq fun span =>
          hb.phrase_readClauses start (some (Stmt.expression e span))
    · simp only [ne_eq, hk, not_false_eq_true, if_true]
      exact hbody.starting
  · exact .onKind fun _ _ => hbody.completes

theorem viable_loopFrom (hb : Parts n below) (start : Position) :
    Viable n Inside 2 starts (· ≠ .elseWord) (fun m => do
      let first := (← get).position
      StatementRule.loopFrom (below m) start first) := by
  have hloop (first : Position) : Phrase n Inside 2 (· ≠ .elseWord)
      [.identifier, .openCurly, .closeCurly]
      fun m => StatementRule.loopFrom (below m) start first :=
    (hb.innerExpression .default).bind (hb.phrase_loopBehind start first)
      (fun _ _ => ⟨rfl, rfl⟩) (.inl (Nat.le_refl _))
  exact .select (Y := fun t m => StatementRule.loopFrom (below m) start t.span.start)
    (fun _ _ _ => rfl) fun t _ => (hloop t.span.start).starting

theorem viable_readLoop (hb : Parts n below) (hs : ∀ t, starts t → t.kind ≠ .eof) :
    Viable n (Room 0) 2 starts (· ≠ .elseWord) fun m => StatementRule.readLoop (below m) := by
  refine .behind (w := [.openCurly, .closeCurly]) (suffices_room 0) hs fun word => ?_
  have hbody : Phrase n Inside 1 (· ≠ .elseWord) [.openCurly, .closeCurly] (fun m => do
      let body ← (below m).statement
      return Stmt.loop none none none body (← spanFrom word.span.start)) :=
    hb.innerStatement.spanned word.span.start (Stmt.loop none none none)
  have hdeclared (k : Kind) (hk : k ≠ .eof) :
      Viable n Inside 1 (·.kind = k) (· ≠ .elseWord) (fun m => do
        let init ← StatementRule.readVarDecl (below m)
        StatementRule.readClauses (below m) word.span.start (some init)) := by
    have hfirst : Viable n Inside 3 (·.kind = k) (fun _ => True)
        fun m => StatementRule.readVarDecl (below m) :=
      hb.viable_readVarDecl (suffices_inside 1) fun t ht => ht ▸ hk
    exact (hfirst.seq (fun init => hb.phrase_readClauses word.span.start (some init))
      (suffices_inside 0) (Nat.zero_le _) (Nat.zero_le _)).least (by decide)
  constructor
  · refine .onKind fun k => ⟨1, Nat.le_refl _, ?_, .inl (Nat.le_refl _)⟩
    cases k with
    | openCurly => exact hbody.starting
    | semicolon =>
      refine Viable.least (l := 3) ?_ (by decide)
      exact .behind (suffices_inside 1) (fun t ht => ht ▸ by decide) fun _ =>
        hb.phrase_readClauses word.span.start none
    | letWord => exact hdeclared _ (by decide)
    | constWord => exact hdeclared _ (by decide)
    | _ => exact (hb.viable_loopFrom word.span.start).least (by decide)
  · exact .onKind fun _ _ => hbody.completes

theorem viable_readClass (hb : Parts n below) (hs : ∀ t, starts t → t.kind ≠ .eof) :
    Viable n (Room 0) 4 starts next fun m => StatementRule.readClass (below m) :=
  .behind (suffices_room 0) hs fun word => (Phrase.expectFor .identifier (by decide) _).seq
    fun name => (hb.block (suffices_inside 1)).spanned word.span.start
      (Stmt.classDecl name.value)

theorem viable_readReturn (hb : Parts n below) (hs : ∀ t, starts t → t.kind ≠ .eof) :
    Viable n (Room 0) 2 starts next fun m => StatementRule.readReturn (below m) :=
  .behind (suffices_room 0) hs fun word => (hb.expression? ⟨rfl, rfl⟩).bind
    (fun value => (Phrase.expect .semicolon (by decide)).spanned word.span.start fun _ span =>
      Stmt.ret value span)
    (fun _ _ => rfl) (.inl (Nat.le_refl _))

theorem phrase_fnDeclRest (hb : Parts n below) (start : Position) :
    Phrase n Inside 5 next [.identifier, .openParen, .closeParen, .openCurly, .closeCurly]
      fun m => StatementRule.fnDeclRest (below m) start :=
  (Phrase.expect .identifier (by decide)).seq fun name => hb.parameters.seq fun parameters =>
    hb.annotation?.bind
      (fun result => (hb.block (suffices_inside 1)).spanned start
        (Stmt.fnDecl name.value parameters result))
      (fun _ _ => nofun) (.inl (by decide))

/-- A function that is the first thing of an expression statement. -/
theorem completes_expressionStatement (hb : Parts n below) :
    Completes (Room 1) next
      [.functionWord, .openParen, .closeParen, .openCurly, .closeCurly, .semicolon]
      fun m => StatementRule.readExpression (below m) := by
  refine .choose (Y := fun t m => do
    let e ← (below m).expression .default
    let _ ← expect .semicolon
    return Stmt.expression e (← spanFrom t.span.start)) (fun _ _ _ => rfl) fun t _ _ _ => ?_
  exact hb.function.bind
    (fun e => .expect (suffices_inside 1) .semicolon (by decide) fun _ =>
      completes_spanFrom t.span.start fun span => Stmt.expression e span)
    (fun _ _ => ⟨rfl, rfl⟩) (suffices_room 1) (by decide)

/-- Behind the word of a function, an opening parenthesis begins an expression. -/
theorem completes_readFnDecl (hb : Parts n below) :
    Completes (Room 1) next
      [.functionWord, .openParen, .closeParen, .openCurly, .closeCurly, .semicolon]
      fun m => StatementRule.readFnDecl (below m) := by
  intro p v hv m e e' hp hu hnext hm
  obtain ⟨t, us, rfl, -, hus⟩ := List.map_eq_cons_iff.mp hv
  have hpeek : e.peek = .openParen := by rw [hu.peek, kind_headD, hus]; rfl
  have hrun : StatementRule.readFnDecl (below m) e =
      StatementRule.readExpression (below m) e := by
    rw [StatementRule.readFnDecl_run, hpeek]
    rfl
  change Succeeds _ e' (StatementRule.readFnDecl (below m) e)
  rw [hrun]
  exact hb.completes_expressionStatement p _ hv m e e' hp hu hnext hm

/-- The word of a function is followed by its name, or begins an expression. -/
theorem viable_readFnDecl (hb : Parts n below) :
    Viable n (Room 1) 1 (·.kind = .functionWord) (· ≠ .elseWord)
      fun m => StatementRule.readFnDecl (below m) := by
  have heof : Kind.eof ≠ .elseWord := by decide
  refine .peek (Y := fun k m => StatementRule.fnDeclFrom (below m) k)
    (fun m c _ _ => StatementRule.readFnDecl_run (below m) c) (fun k => ?_) (fun k => ?_) heof ?_
    hb.completes_readFnDecl
  · -- Either way the word and the token behind it are passed before a success.
    by_cases hk : k = .identifier
    · subst hk
      refine ⟨6, by decide, ?_, .inl (by decide)⟩
      exact .behind (suffices_room 1) (fun t ht => ht ▸ by decide) fun t =>
        hb.phrase_fnDeclRest t.span.start
    · refine ⟨2, by decide, ?_, .inl (by decide)⟩
      simp only [StatementRule.fnDeclFrom, if_pos hk]
      exact hb.viable_expressionStatement
  · by_cases hk : k = .identifier
    · subst hk
      exact ⟨_, .behind (suffices_room 1) .functionWord fun t =>
        (hb.phrase_fnDeclRest t.span.start).completes⟩
    · simp only [StatementRule.fnDeclFrom, if_pos hk]
      exact ⟨_, hb.completes_expressionStatement⟩
  · intro c c' _ _
    exact ⟨2 * c'.rest.length, Nat.le_refl _⟩

/-- A statement that a rule of its own reads. -/
theorem viable_rule (hb : Parts n below) {t : Token} {rule : StatementRule}
    (h : Grammar.standard.statementRule t.kind = some rule) :
    Viable n (Room 1) 1 (· = t) (· ≠ .elseWord) fun m => rule.read (below m) := by
  have hs (s : Token) (hs : s = t) : s.kind ≠ .eof :=
    hs ▸ Kind.ne_eof_of_rule Grammar.standard.statementRule rfl h
  have hroom {y : Nat → Parser Stmt} {l : Nat} (hl : 1 ≤ l)
      (hy : Viable n (Room 0) l (· = t) (· ≠ .elseWord) y) :
      Viable n (Room 1) 1 (· = t) (· ≠ .elseWord) y :=
    .reindex (r := fun m _ => m) (fun _ _ => hy.least hl) fun m c hm => ⟨Nat.le_of_succ_le hm, rfl⟩
  cases rule with
  | varDecl => exact (hb.viable_readVarDecl (suffices_room 1) hs).least (by decide)
  | importDecl => exact hroom (by decide) (viable_readImport hs)
  | branch => exact hroom (by decide) (hb.viable_readBranch hs)
  | loop => exact hroom (by decide) (hb.viable_readLoop hs)
  | block => exact ((hb.block (suffices_room 1)).starting.map Stmt.block).least (by decide)
  | fnDecl =>
    refine hb.viable_readFnDecl.mono (Nat.le_refl _) ?_ fun _ h => h
    rintro _ rfl
    exact (Grammar.kind_of_statementRule h).2.2.2.1 rfl
  | classDecl => exact hroom (by decide) (hb.viable_readClass hs)
  | ret => exact hroom (by decide) (hb.viable_readReturn hs)

theorem viable_readStatement (hb : Parts n below) :
    Viable n (Room 1) 1 (fun _ => True) (· ≠ .elseWord)
      fun m => Grammar.standard.readStatement (below m) := by
  refine .select (Y := fun t m => (below m).statementFrom t) (fun _ _ _ => rfl) fun t _ => ?_
  simp only [Level.statementFrom]
  cases hrule : Grammar.standard.statementRule t.kind with
  | some rule => exact hb.viable_rule hrule
  | none => exact hb.viable_expressionStatement.least (by decide)

end Parts

theorem completes_readStatement {below : Nat → Level} {next : Kind → Prop} :
    Completes (Room 1) next [.openCurly, .closeCurly]
      fun m => Grammar.standard.readStatement (below m) :=
  .onKind fun _ _ => (completes_block (suffices_room 1)).map Stmt.block

theorem completes_readFunction {below : Nat → Level} {next : Kind → Prop} :
    Completes (Room 0) next [.functionWord, .openParen, .closeParen, .openCurly, .closeCurly]
      fun m => OperandRule.readFunction (below m) :=
  .behind (suffices_room 0) .functionWord fun t => completes_functionRest t.span.start

/-- What the levels of the language read can be a part of what is read above them. -/
theorem Grammar.parts_level (n : Nat) : Parts n Grammar.standard.level := by
  -- The completions are the same on every level and do not need those below to be viable.
  have htype : Completes (Room 1) (fun _ => True) [.intType]
      fun m => (Grammar.standard.level m).type .default :=
    (completes_readType .default).lift fun _ => rfl
  have hexpression (power : Power) : Completes (Room 1) Kind.EndsExpression [.identifier]
      fun m => (Grammar.standard.level m).expression power :=
    (completes_readExpression rfl completes_readPrimary power).lift fun _ => rfl
  have hfunction : Completes (Room 1) Kind.EndsExpression
      [.functionWord, .openParen, .closeParen, .openCurly, .closeCurly]
      fun m => (Grammar.standard.level m).expression .default :=
    (completes_readExpression rfl completes_readFunction .default).lift fun _ => rfl
  have hstatement : Completes (Room 2) (· ≠ .elseWord) [.openCurly, .closeCurly]
      fun m => (Grammar.standard.level m).statement := completes_readStatement.lift fun _ => rfl
  induction n with
  | zero =>
    exact ⟨⟨.of_no_level, htype⟩, fun power => ⟨.of_no_level, hexpression power⟩, hfunction,
      ⟨.of_no_level, hstatement⟩, .of_no_level⟩
  | succ n ih =>
    have hbranch : Viable n (Room 0) 4 (·.kind = .ifWord) (· ≠ .elseWord)
        fun m => StatementRule.readBranch (Grammar.standard.level m) :=
      ih.viable_readBranch fun t ht => ht ▸ by decide
    exact ⟨⟨(ih.viable_readType .default).lift fun _ => rfl, htype⟩,
      fun power => ⟨(ih.viable_readExpression power).lift fun _ => rfl, hexpression power⟩,
      hfunction, ⟨ih.viable_readStatement.lift fun _ => rfl, hstatement⟩,
      (hbranch.least (by decide)).lift fun _ => rfl⟩

end Scriptlet
