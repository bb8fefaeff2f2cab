import Scriptlet.Grammar.Expression
import Scriptlet.Proofs.Syntax.Phrases

namespace Scriptlet

open Scriptlet.Parser Cursor

/-- The kind ends an expression: it does not continue one, and no type begins with it, so that empty
brackets before it are an empty list. -/
def Kind.EndsExpression (k : Kind) : Prop :=
  Grammar.standard.power k = .default ∧ Grammar.standard.typeRule k = none

/-- The end of the text is in none of the tables. -/
theorem Kind.ne_eof_of_rule {α : Type} (rules : Kind → Option α) (heof : rules .eof = none)
    {k : Kind} {rule : α} (h : rules k = some rule) : k ≠ .eof := by
  rintro rfl
  rw [heof] at h
  cases h

/-- A literal or a name that begins with the token. -/
def Token.readPrimary (t : Token) : Parser Expr :=
  match t.primary? with
  | .ok e => do
    let _ ← advance
    return e
  | .error d => throw d

/-- An expression that begins with the token. -/
def Level.expressionFrom (below : Level) (t : Token) (power : Power) : Parser Expr :=
  match Grammar.standard.operandRule t.kind with
  | .none => throw ⟨.cannotStart t.value, t.span.start⟩
  | some rule => do
    let left ← rule.read Grammar.standard below
    Grammar.standard.extend below power (← repetitions) left

/-- What follows an expression, which the token continues or ends. -/
def Level.extendFrom (below : Level) (power : Power) (limit : Nat) (left : Expr) (t : Token) :
    Parser Expr :=
  if Grammar.standard.power t.kind ≤ power then pure left
  else match Grammar.standard.operatorRule t.kind with
    | .none => throw ⟨.cannotContinue t.value, t.span.start⟩
    | some rule => do
      let left ← rule.read below left (Grammar.standard.power t.kind)
      Grammar.standard.extend below power limit left

/-- A type that begins with the token. -/
def Level.typeFrom (below : Level) (t : Token) (power : Power) : Parser Ty :=
  match Grammar.standard.typeRule t.kind with
  | .none => throw ⟨.cannotStart t.value, t.span.start⟩
  | some rule => do
    let left ← rule.read below
    Grammar.standard.extendType below power (← repetitions) left

section Arrays

variable (below : Level) (start : Position)

/-- A list with its type, from the closing one of the empty brackets on. -/
def Level.typedRest : Parser Expr := do
  let _ ← advance
  let item ← below.type .default
  let _ ← expect .openCurly
  let items ← below.arguments .closeCurly
  return .arrayOf item items (← spanFrom start)

/-- A list of items, behind its opening bracket. -/
def Level.plainRest : Parser Expr := do
  let items ← below.arguments .closeBracket
  return .array items (← spanFrom start)

/-- A list from the closing one of the empty brackets on, by the kind that stands behind it. -/
def Level.emptyBrackets (behind : Kind) : Parser Expr :=
  if (Grammar.standard.typeRule behind).isSome then below.typedRest start
  else below.plainRest start

/-- A list, behind its opening bracket. -/
def Level.arrayRest : Parser Expr := do
  if (← kind) = .closeBracket ∧ (Grammar.standard.typeRule (← get).peek).isSome then
    below.typedRest start
  else below.plainRest start

theorem Level.arrayRest_run (c : Cursor) :
    below.arrayRest start c =
      (if c.kind = .closeBracket ∧ (Grammar.standard.typeRule c.peek).isSome then
        below.typedRest start
      else below.plainRest start) c := rfl

theorem Level.arrayRest_run_of_closeBracket {c : Cursor} (hk : c.kind = .closeBracket) :
    below.arrayRest start c = below.emptyBrackets start c.peek c := by
  rw [arrayRest_run, emptyBrackets]
  simp only [hk, true_and]

end Arrays

/-- A token that stands for no expression is what is reported, and the end of the text is none. -/
theorem Token.primary?_spec (t : Token) :
    (∀ d, t.primary? = .error d → d.Blames t) ∧ (∀ e, t.primary? = .ok e → t.kind ≠ .eof) := by
  constructor
  · intro d h
    rw [Token.primary?] at h
    repeat' split at h
    all_goals cases h
    all_goals exact ⟨rfl, rfl⟩
  · rintro e h hk
    rw [Token.primary?, hk] at h
    cases h

section Completions

variable {below : Nat → Level} {next : Kind → Prop}

theorem completes_parameters :
    Completes Inside next [.openParen, .closeParen] fun m => (below m).parameters :=
  .expect (suffices_inside 1) .openParen (by decide) fun _ =>
    completes_listUntil (fun m => (below m).parameter) (by decide)

theorem completes_annotation? :
    Completes Inside (· ≠ .colon) [] fun m => (below m).annotation? := by
  refine .idle fun m c _ hk => ⟨none, ?_⟩
  rw [Level.annotation?, bind_run_ok (kind_run c), if_neg hk]
  rfl

theorem completes_block {E : Nat → Cursor → Prop} (hE : Suffices E 1 Inside) :
    Completes E next [.openCurly, .closeCurly] fun m => (below m).block := by
  refine .expect hE .openCurly (by decide) fun t => ?_
  have hbody : Completes Inside (fun k => decide (k = .closeCurly ∨ k = .eof) = true) []
      fun m => repetitions >>= manyUntil (fun k => k = .closeCurly ∨ k = .eof)
        (below m).statement := completes_manyUntil.sized
  exact hbody.skip (fun body => .expect (suffices_inside 1) .closeCurly (by decide) fun _ =>
    completes_spanFrom t.span.start fun span => Block.mk body span) fun _ _ => rfl

theorem completes_functionRest (start : Position) :
    Completes Inside next [.openParen, .closeParen, .openCurly, .closeCurly] fun m => do
      let parameters ← (below m).parameters
      let result ← (below m).annotation?
      let body ← (below m).block
      return Expr.function parameters result body.body (← spanFrom start) :=
  completes_parameters.seq fun _ => completes_annotation?.skip
    (fun _ => (completes_block (suffices_inside 1)).seq fun _ => completes_spanFrom start _)
    fun _ _ => nofun

/-- A kind that ends an expression is no operator at any power. -/
theorem power_le_of_endsExpression {k : Kind} (hk : k.EndsExpression) (power : Power) :
    Grammar.standard.power k ≤ power := by
  rw [hk.1]
  exact Nat.zero_le _

theorem completes_extend (below : Nat → Level) (power : Power) (left : Expr) :
    Completes (Sized Inside 0) Kind.EndsExpression []
      (counted fun m limit => Grammar.standard.extend (below m) power limit left) := by
  refine .idle fun j c hj hends => ⟨left, ?_⟩
  obtain ⟨limit, hlimit⟩ := hj.exists_succ
  rw [counted, hlimit, Grammar.extend, bind_run_ok (current_run c),
    if_pos (power_le_of_endsExpression (k := c.current.kind) hends power)]
  rfl

/-- An operand alone is an expression. -/
theorem completes_readExpression {k : Kind} {w : List Kind}
    {rule : OperandRule} (hrule : Grammar.standard.operandRule k = some rule)
    (h : Completes (Room 0) Kind.EndsExpression (k :: w)
      fun m => rule.read Grammar.standard (below m)) (power : Power) :
    Completes (Room 0) Kind.EndsExpression (k :: w)
      fun m => Grammar.standard.readExpression (below m) power := by
  refine .choose (Y := fun t m => (below m).expressionFrom t power) (fun _ _ _ => rfl)
    fun t k' _ ht => ?_
  have hrule' : Grammar.standard.operandRule t.kind = some rule := by rw [ht]; exact hrule
  simp only [Level.expressionFrom, hrule']
  have hbind := h.bind (fun left => (completes_extend below power left).sized) (fun _ hk => hk)
    (suffices_room 0) (Nat.le_add_left _ _)
  rwa [List.append_nil] at hbind

theorem completes_readPrimary :
    Completes (Room 0) next [.identifier] fun _ => OperandRule.readPrimary := by
  refine .choose (Y := fun t _ => t.readPrimary) (fun _ _ _ => rfl) fun t _ _ ht => ?_
  have hprimary : t.primary? = .ok (.symbol t.value t.span) := by
    rw [Token.primary?, ht]
    rfl
  simp only [Token.readPrimary, hprimary]
  exact .behind (suffices_room 0) .identifier fun _ => .pure _

/-- No operator extends a type of the language. -/
theorem extendType_run (below : Level) (power : Power) (left : Ty) (c : Cursor) :
    (do Grammar.standard.extendType below power (← repetitions) left) c = .ok left c := by
  have hpower : Grammar.standard.typePower c.current.kind ≤ power := Nat.zero_le _
  rw [bind_run_ok (repetitions_run c), length_rest, Grammar.extendType,
    bind_run_ok (current_run c), if_pos hpower]
  rfl

theorem completes_readType (power : Power) :
    Completes (Room 0) next [.intType] fun m => Grammar.standard.readType (below m) power := by
  refine .choose (Y := fun t m => (below m).typeFrom t power) (fun _ _ _ => rfl)
    fun t _ _ ht => ?_
  have hrule : Grammar.standard.typeRule t.kind = some .named := by rw [ht]; rfl
  simp only [Level.typeFrom, hrule]
  have hnamed : Completes (Room 0) (fun _ => True) [.intType]
      fun m => TypeRule.named.read (below m) :=
    .behind (suffices_room 0) .intType fun name => .pure (Ty.named name.value)
  have hrest (left : Ty) : Completes Inside next []
      (fun m => do Grammar.standard.extendType (below m) power (← repetitions) left) :=
    .idle fun m c _ _ => ⟨left, extendType_run (below m) power left c⟩
  exact hnamed.bind hrest (fun _ _ => trivial) (suffices_room 0) (Nat.le_refl _)

end Completions

/-- What the levels read, as parts of what is read above them. The shortest type is a word, the
shortest expression a name and the shortest statement an empty block, and these complete whatever
lacks one. -/
structure Parts (n : Nat) (below : Nat → Level) : Prop where
  type : Phrase n (Room 1) 1 (fun _ => True) [.intType] fun m => (below m).type .default
  expression : ∀ power, Phrase n (Room 1) 1 Kind.EndsExpression [.identifier]
    fun m => (below m).expression power
  function : Completes (Room 1) Kind.EndsExpression
    [.functionWord, .openParen, .closeParen, .openCurly, .closeCurly]
    fun m => (below m).expression .default
  statement : Phrase n (Room 2) 1 (· ≠ .elseWord) [.openCurly, .closeCurly]
    fun m => (below m).statement
  branch : Viable n (Room 1) 1 (·.kind = .ifWord) (· ≠ .elseWord) fun m => (below m).branch

namespace Parts

variable {n : Nat} {below : Nat → Level} {next : Kind → Prop}

theorem innerType (hb : Parts n below) :
    Phrase n Inside 1 next [.intType] fun m => (below m).type .default :=
  (hb.type.inside (by decide)).before fun _ _ => trivial

theorem innerExpression (hb : Parts n below) (power : Power) :
    Phrase n Inside 1 Kind.EndsExpression [.identifier] fun m => (below m).expression power :=
  (hb.expression power).inside (by decide)

theorem innerStatement (hb : Parts n below) :
    Phrase n Inside 1 (· ≠ .elseWord) [.openCurly, .closeCurly] fun m => (below m).statement :=
  hb.statement.inside (by decide)

theorem annotation? (hb : Parts n below) :
    Phrase n Inside 0 (· ≠ .colon) [] fun m => (below m).annotation? := by
  constructor
  · have hcolon : Viable n Inside 2 (·.kind = .colon) (· ≠ .colon) fun m => do
        let _ ← advance
        return some (← (below m).type .default) :=
      .behind (suffices_inside 1) (fun t ht => ht ▸ by decide) fun _ => hb.innerType.map some
    exact .ifKind hcolon (Nat.zero_le _) (.inl (by decide)) (.pure none)
      (Nat.le_refl _) (.inr fun _ h => h)
  · exact completes_annotation?

theorem parameter (hb : Parts n below) :
    Phrase n Inside 3 next [.identifier, .colon, .intType] fun m => (below m).parameter :=
  (Phrase.expect .identifier (by decide)).seq fun name =>
    (Phrase.expect .colon (by decide)).seq fun _ =>
      hb.innerType.map fun type => (⟨name.value, type⟩ : Parameter)

theorem parameters (hb : Parts n below) :
    Phrase n Inside 2 next [.openParen, .closeParen] fun m => (below m).parameters := by
  have hitem : Phrase n Inside 3 (fun _ => True) [.identifier, .colon, .intType]
      fun m => (below m).parameter := hb.parameter
  exact (Phrase.expect .openParen (by decide)).seq fun _ =>
    phrase_listUntil hitem (by decide) (by decide) trivial

theorem block (hb : Parts n below) {E : Nat → Cursor → Prop} (hE : Suffices E 1 Inside) :
    Phrase n E 2 next [.openCurly, .closeCurly] fun m => (below m).block := by
  refine .behind hE .openCurly (by decide) fun t => ?_
  have hstops (k : Kind) (hk : decide (k = .closeCurly ∨ k = .eof) = true) : k ≠ .elseWord := by
    rintro rfl
    revert hk
    decide
  have hbody := phrase_manyUntil (suffices_inside 0) hb.innerStatement hstops
  refine hbody.bind (fun body => ?_) (fun _ _ => rfl) (.inl (Nat.le_refl _))
  exact (Phrase.expect .closeCurly (by decide)).spanned t.span.start fun _ span =>
    Block.mk body span

theorem arguments (hb : Parts n below) {closing : Kind} (hends : closing.EndsExpression)
    (hne : closing ≠ .comma) (heof : closing ≠ .eof) :
    Phrase n Inside 1 next [closing] fun m => (below m).arguments closing :=
  phrase_listUntil (hb.innerExpression .default) hne heof hends

theorem field (hb : Parts n below) :
    Phrase n Inside 3 Kind.EndsExpression [.identifier, .colon, .identifier]
      fun m => (below m).field :=
  (Phrase.expect .identifier (by decide)).seq fun name =>
    (Phrase.expect .colon (by decide)).seq fun _ =>
      (hb.innerExpression .default).map fun e => (name.value, e)

theorem expression? (hb : Parts n below) {absent : Kind} (hends : absent.EndsExpression) :
    Phrase n Inside 0 (· = absent) [] fun m => (below m).expression? absent := by
  constructor
  · have hsome : Phrase n Inside 1 (· = absent) [.identifier] fun m => do
        return some (← (below m).expression .default) :=
      ((hb.innerExpression .default).before fun k (hk : k = absent) =>
        hk ▸ hends).map some
    exact .ifKind (.pure none) (Nat.le_refl _) (.inr fun _ hk => hk) hsome.starting
      (Nat.zero_le _) (.inl (Nat.le_refl _))
  · refine .idle fun m c _ hk => ⟨none, ?_⟩
    rw [Level.expression?, bind_run_ok (kind_run c), if_pos hk]
    rfl

section Operands

theorem viable_readPrimary {starts : Token → Prop} :
    Viable n (Room 0) 1 starts next fun _ => OperandRule.readPrimary := by
  refine .select (Y := fun t _ => t.readPrimary) (fun _ _ _ => rfl) fun t _ => ?_
  simp only [Token.readPrimary]
  obtain ⟨herror, hok⟩ := Token.primary?_spec t
  cases h : t.primary? with
  | ok e =>
    exact .behind (suffices_room 0) (fun s hs => hs ▸ hok e h) fun _ => .pure e
  | error d => exact .throw fun s hs => hs ▸ herror d h

variable {starts : Token → Prop}

/-- What follows the name of a class: arguments or fields. -/
theorem phrase_constructed (hb : Parts n below) (start : Position) (name : String) :
    Phrase n Inside 2 next [.openParen, .closeParen] (fun m => do
      match ← kind with
      | .openParen =>
        let _ ← advance
        let arguments ← (below m).arguments .closeParen
        return Expr.construct name arguments (← spanFrom start)
      | .openCurly =>
        let _ ← advance
        let fields ← listUntil .closeCurly (below m).field
        return Expr.structOf name fields (← spanFrom start)
      | _ => Parser.unexpectedFor "expected `\x7b` or `(` after class name") := by
  have harguments : Phrase n Inside 1 next [.closeParen] fun m => do
      let arguments ← (below m).arguments .closeParen
      return Expr.construct name arguments (← spanFrom start) :=
    (hb.arguments ⟨rfl, rfl⟩ (by decide) (by decide)).spanned start (Expr.construct name)
  have hfields : Phrase n Inside 1 next [.closeCurly] fun m => do
      let fields ← listUntil .closeCurly (below m).field
      return Expr.structOf name fields (← spanFrom start) :=
    (phrase_listUntil hb.field (by decide) (by decide) ⟨rfl, rfl⟩).spanned start
      (Expr.structOf name)
  constructor
  · refine .onKind fun k => ⟨2, Nat.le_refl _, ?_, .inl (by decide)⟩
    by_cases hparen : k = .openParen
    · subst hparen
      exact .behind (suffices_inside 1) (fun t ht => ht ▸ by decide) fun _ => harguments
    · by_cases hcurly : k = .openCurly
      · subst hcurly
        exact .behind (suffices_inside 1) (fun t ht => ht ▸ by decide) fun _ => hfields
      · cases k <;> first
          | exact absurd rfl hparen
          | exact absurd rfl hcurly
          | exact .unexpectedFor _
  · refine .onKind fun k _ => ?_
    exact .behind (suffices_inside 1) .openParen fun _ => harguments.completes

/-- The type of a list and its items. -/
theorem typedItems (hb : Parts n below) (start : Position) :
    Phrase n Inside 3 next [.intType, .openCurly, .closeCurly] fun m => do
      let item ← (below m).type .default
      let _ ← expect .openCurly
      let items ← (below m).arguments .closeCurly
      return Expr.arrayOf item items (← spanFrom start) :=
  hb.innerType.seq fun item => (Phrase.expect .openCurly (by decide)).seq fun _ =>
    (hb.arguments ⟨rfl, rfl⟩ (by decide) (by decide)).spanned start (Expr.arrayOf item)

theorem plainRest (hb : Parts n below) (start : Position) :
    Phrase n Inside 1 next [.closeBracket] fun m => (below m).plainRest start :=
  (hb.arguments ⟨rfl, rfl⟩ (by decide) (by decide)).spanned start Expr.array

/-- Empty brackets that no type follows are an empty list. -/
theorem completes_arrayRest (hb : Parts n below) (start : Position) :
    Completes Inside Kind.EndsExpression [.closeBracket] fun m => (below m).arrayRest start := by
  intro p v hv m e e' hp hu hends hm
  obtain ⟨t, rfl, -⟩ := List.map_eq_singleton_iff.mp hv
  have hpeek : e.peek = e'.kind := hu.peek
  have hplain : ¬(e.kind = .closeBracket ∧ (Grammar.standard.typeRule e.peek).isSome) := by
    rintro ⟨-, h⟩
    rw [hpeek, Cursor.kind, hends.2] at h
    cases h
  change Succeeds _ e' ((below m).arrayRest start e)
  rw [Level.arrayRest_run, if_neg hplain]
  exact (hb.plainRest start).completes p [t] hv m e e' hp hu hends hm

/-- What stands behind empty brackets is looked at, but nothing is reported before it. -/
theorem viable_arrayRest_empty (hb : Parts n below) (start : Position) :
    Viable n Inside 1 (·.kind = .closeBracket) Kind.EndsExpression
      fun m => (below m).arrayRest start := by
  have hsemicolon : Kind.semicolon.EndsExpression := ⟨rfl, rfl⟩
  refine .peek (Y := fun k m => (below m).emptyBrackets start k)
    (fun m c _ hk => (below m).arrayRest_run_of_closeBracket start hk) (fun k => ?_) (fun k => ?_)
    hsemicolon ?_ (hb.completes_arrayRest start)
  · -- With a type behind the brackets, that token is always passed. Without one the brackets may be
    -- all, and no token that may follow begins a type.
    by_cases htype : (Grammar.standard.typeRule k).isSome
    · refine ⟨4, by decide, ?_, .inl (by decide)⟩
      simp only [Level.emptyBrackets, if_pos htype]
      exact .behind (suffices_inside 1) (fun t ht => ht ▸ by decide) fun _ => hb.typedItems start
    · refine ⟨1, Nat.le_refl _, ?_, .inr fun k' hk' => ?_⟩
      · simp only [Level.emptyBrackets, if_neg htype]
        exact (hb.plainRest start).starting
      · simp only [Level.emptyBrackets, if_neg htype, hk'.2]
        rfl
  · by_cases htype : (Grammar.standard.typeRule k).isSome
    · simp only [Level.emptyBrackets, if_pos htype]
      exact ⟨_, .behind (suffices_inside 1) .closeBracket fun _ => (hb.typedItems start).completes⟩
    · simp only [Level.emptyBrackets, if_neg htype]
      exact ⟨_, (hb.plainRest start).completes⟩
  · rintro c c' hc hpassed
    exact ⟨2 * c'.rest.length + 1, Nat.le_refl _, hpassed ▸ hc.started⟩

theorem phrase_arrayRest (hb : Parts n below) (start : Position) :
    Phrase n Inside 1 Kind.EndsExpression [.closeBracket] fun m => (below m).arrayRest start := by
  refine ⟨.select (Y := fun t m => if t.kind = .closeBracket then (below m).arrayRest start
    else (below m).plainRest start) ?_ fun t _ => ?_, hb.completes_arrayRest start⟩
  · intro m c _
    by_cases hk : c.current.kind = .closeBracket
    · rw [if_pos hk]
    · rw [if_neg hk, Level.arrayRest_run, if_neg fun h => hk h.1]
  · by_cases ht : t.kind = .closeBracket
    · simp only [if_pos ht]
      refine (hb.viable_arrayRest_empty start).mono (Nat.le_refl _) ?_ fun _ h => h
      rintro _ rfl
      exact ht
    · simp only [if_neg ht]
      exact (hb.plainRest start).starting

/-- The parameters, the result and the body of a function. -/
theorem functionRest (hb : Parts n below) (start : Position) :
    Phrase n Inside 4 next [.openParen, .closeParen, .openCurly, .closeCurly] fun m => do
      let parameters ← (below m).parameters
      let result ← (below m).annotation?
      let body ← (below m).block
      return Expr.function parameters result body.body (← spanFrom start) :=
  hb.parameters.seq fun parameters => hb.annotation?.bind
    (fun result => (hb.block (suffices_inside 1)).spanned start fun body span =>
      Expr.function parameters result body.body span)
    (fun _ _ => nofun) (.inl (by decide))

theorem viable_operand (hb : Parts n below) {t : Token} {rule : OperandRule}
    (h : Grammar.standard.operandRule t.kind = some rule) :
    Viable n (Room 0) 1 (· = t) Kind.EndsExpression
      fun m => rule.read Grammar.standard (below m) := by
  have hs (s : Token) (hs : s = t) : s.kind ≠ .eof :=
    hs ▸ Kind.ne_eof_of_rule Grammar.standard.operandRule rfl h
  cases rule with
  | primary => exact viable_readPrimary
  | unary =>
    refine Viable.least (l := 2) ?_ (by decide)
    exact .behind (suffices_room 0) hs fun operator =>
      (hb.innerExpression .unary).map fun operand =>
        Expr.unary operator operand (operator.span.cover operand.span)
  | group =>
    refine Viable.least (l := 3) ?_ (by decide)
    exact .behind (suffices_room 0) hs fun _ =>
      (hb.innerExpression .default).bind
        (fun e => (Phrase.expect .closeParen (by decide)).map fun _ => e)
        (fun _ _ => ⟨rfl, rfl⟩) (.inl (Nat.le_refl _))
  | array =>
    refine Viable.least (l := 2) ?_ (by decide)
    exact .behind (suffices_room 0) hs fun t => hb.phrase_arrayRest t.span.start
  | construct =>
    refine Viable.least (l := 4) ?_ (by decide)
    exact .behind (suffices_room 0) hs fun t => (Phrase.expect .identifier (by decide)).seq
      fun name => hb.phrase_constructed t.span.start name.value
  | function =>
    refine Viable.least (l := 5) ?_ (by decide)
    exact .behind (suffices_room 0) hs fun t => hb.functionRest t.span.start

end Operands

section Operators

/-- An operator of the language with what follows it. -/
theorem viable_operator (hb : Parts n below) (left : Expr) (power : Power)
    (rule : OperatorRule) :
    Viable n Inside 2 (·.kind ≠ .eof) Kind.EndsExpression
      fun m => rule.read (below m) left power := by
  cases rule with
  | binary =>
    exact .behind (suffices_inside 1) (fun _ h => h) fun operator =>
      (hb.innerExpression power).map fun right =>
        Expr.binary operator left right (left.span.cover right.span)
  | assign =>
    exact .behind (suffices_inside 1) (fun _ h => h) fun operator =>
      (hb.innerExpression .comma).map fun value =>
        Expr.assign operator left value (left.span.cover value.span)
  | range =>
    exact .behind (suffices_inside 1) (fun _ h => h) fun _ =>
      (hb.innerExpression power).map fun upper =>
        Expr.range left upper (left.span.cover upper.span)
  | call =>
    exact .behind (suffices_inside 1) (fun _ h => h) fun _ =>
      (hb.arguments ⟨rfl, rfl⟩ (by decide) (by decide)).spanned left.start (Expr.call left)
  | member =>
    exact .behind (suffices_inside 1) (fun _ h => h) fun _ =>
      (Phrase.expect .identifier (by decide)).map fun property =>
        Expr.member left property.value (left.span.cover property.span)
  | index =>
    refine Viable.least (l := 3) ?_ (by decide)
    exact .behind (suffices_inside 1) (fun _ h => h) fun _ =>
      (hb.innerExpression .default).bind
        (fun position => (Phrase.expect .closeBracket (by decide)).spanned left.start
          fun _ span => Expr.index left position span)
        (fun _ _ => ⟨rfl, rfl⟩) (.inl (Nat.le_refl _))

theorem viable_extend (hb : Parts n below) (power : Power) (limit : Nat) (left : Expr) :
    Viable (n, limit) (Sized Inside 0) 0 (fun _ => True) Kind.EndsExpression
      (counted fun m limit => Grammar.standard.extend (below m) power limit left) := by
  -- Each step takes an operator with its right side and goes on with a longer left side.
  induction limit generalizing left with
  | zero => exact .of_no_repetition
  | succ limit ih =>
    refine .choose (Y := fun t j => (below j.1).extendFrom power (j.2 - 1) left t) ?_ fun t _ => ?_
    · intro j c hj
      obtain ⟨limit, hlimit⟩ := hj.exists_succ
      simp only [counted, hlimit]
      rfl
    · simp only [Level.extendFrom]
      by_cases hpower : Grammar.standard.power t.kind ≤ power
      · simp only [if_pos hpower]
        refine ⟨0, Nat.le_refl _, .pure left, .inr fun s hs => ?_⟩
        simp only [if_pos (power_le_of_endsExpression hs power)]
      · simp only [if_neg hpower]
        refine ⟨2, Nat.zero_le _, ?_, .inl (by decide)⟩
        cases hrule : Grammar.standard.operatorRule t.kind with
        | none => exact .throw fun s hs => hs ▸ ⟨rfl, rfl⟩
        | some rule =>
          have hstart (s : Token) (hs : s = t) : s.kind ≠ .eof :=
            hs ▸ Kind.ne_eof_of_rule Grammar.standard.operatorRule rfl hrule
          have hfirst : Viable (n, limit + 1) (Sized Inside 0) 2 (· = t) Kind.EndsExpression
              fun j => rule.read (below j.1) left (Grammar.standard.power t.kind) :=
            .reindex (r := fun j _ => j.1) (fun _ _ => (hb.viable_operator left _ rule).mono
              (Nat.le_refl _) hstart fun _ h => h) fun _ _ hj => ⟨hj.1, rfl⟩
          exact hfirst.bind
            (fun left => ⟨(ih left).repeated, (completes_extend below power left).repeated⟩)
            (fun _ hk => hk) (.inr fun _ hk => hk)
            (suffices_sized (suffices_inside 0) (Nat.zero_le _)) (by decide) (by decide)

theorem phrase_extend (hb : Parts n below) (power : Power) (left : Expr) :
    Phrase n Inside 0 Kind.EndsExpression []
      (fun m => do Grammar.standard.extend (below m) power (← repetitions) left) :=
  .sized (hb.viable_extend power · left) (completes_extend below power left)

theorem viable_readExpression (hb : Parts n below) (power : Power) :
    Viable n (Room 0) 1 (fun _ => True) Kind.EndsExpression
      fun m => Grammar.standard.readExpression (below m) power := by
  refine .select (Y := fun t m => (below m).expressionFrom t power) (fun _ _ _ => rfl)
    fun t _ => ?_
  simp only [Level.expressionFrom]
  cases hrule : Grammar.standard.operandRule t.kind with
  | none => exact .throw fun s hs => hs ▸ ⟨rfl, rfl⟩
  | some rule =>
    exact (hb.viable_operand hrule).bind (hb.phrase_extend power) (fun _ hk => hk)
      (.inr fun _ hk => hk) (suffices_room 0) (Nat.le_refl _) (Nat.le_refl _)

end Operators

section Types

theorem viable_readType (hb : Parts n below) (power : Power) :
    Viable n (Room 0) 1 (fun _ => True) next
      fun m => Grammar.standard.readType (below m) power := by
  refine .select (Y := fun t m => (below m).typeFrom t power) (fun _ _ _ => rfl) fun t _ => ?_
  simp only [Level.typeFrom]
  cases hrule : Grammar.standard.typeRule t.kind with
  | none => exact .throw fun s hs => hs ▸ ⟨rfl, rfl⟩
  | some rule =>
    have hfirst : Viable n (Room 0) 1 (· = t) (fun _ => True) fun m => rule.read (below m) := by
      cases rule with
      | named =>
        have hstart (s : Token) (hs : s = t) : s.kind ≠ .eof :=
          hs ▸ Kind.ne_eof_of_rule Grammar.standard.typeRule rfl hrule
        exact .behind (suffices_room 0) hstart fun name => .pure (Ty.named name.value)
      | list =>
        have hlist : Phrase n (Room 0) 3 (fun _ => True) [.openBracket, .closeBracket, .intType]
            fun m => TypeRule.list.read (below m) :=
          .behind (suffices_room 0) .openBracket (by decide) fun _ =>
            (Phrase.expect .closeBracket (by decide)).seq fun _ => hb.innerType.map Ty.list
        exact hlist.starting.least (by decide)
    -- Nothing extends a type, so what follows it does not matter.
    exact hfirst.seq (fun left => .of_run fun m c _ => extendType_run (below m) power left c)
      (suffices_room 0) (Nat.le_refl _) (Nat.le_refl _)

end Types

end Parts

end Scriptlet
