import Scriptlet.Proofs.Syntax.Progress
import Scriptlet.Proofs.Syntax.Respan
import Scriptlet.Proofs.Token.Lines

/-!
The same tokens in other places. A parser looks at the kinds and values of tokens, and gives its
result the places they have; so whatever is done to the places of the tokens is done to those of the
result. Of what is passed before a construct begins nothing matters to it.
-/
namespace Scriptlet

theorem Token.kind_move (m : Position → Position) (t : Token) : (t.move m).kind = t.kind := rfl

/-- The tree with its places changed. -/
abbrev Expr.move (m : Position → Position) (e : Expr) : Expr := e.respan (Span.map m)

abbrev Stmt.move (m : Position → Position) (s : Stmt) : Stmt := s.respan (Span.map m)

abbrev Block.move (m : Position → Position) (b : Block) : Block := b.respan (Span.map m)

theorem Expr.span_move (m : Position → Position) (e : Expr) : (e.move m).span = e.span.map m := by
  cases e <;> rfl

theorem Stmt.span_move (m : Position → Position) (s : Stmt) : (s.move m).span = s.span.map m := by
  cases s with
  | block b =>
    cases b
    rfl
  | _ => rfl

theorem Expr.start_move (m : Position → Position) (e : Expr) : (e.move m).start = m e.start :=
  congrArg Span.start (e.span_move m)

namespace Cursor

variable {m : Position → Position} {placed : Prop} {c e : Cursor}

/-- The tokens that are left for the second cursor are those of the first one in other places, and
so, if that matters, is the end of what both have passed. -/
structure Displaced (m : Position → Position) (placed : Prop) (c e : Cursor) : Prop where
  ended : c.Ended
  rest : e.rest = c.rest.map (·.move m)
  lastEnd : placed → e.lastEnd = m c.lastEnd

namespace Displaced

theorem current (h : c.Displaced m placed e) : e.current = c.current.move m := by
  injection h.rest

theorem kind (h : c.Displaced m placed e) : e.kind = c.kind := by
  rw [Cursor.kind, h.current, Token.kind_move]
  rfl

theorem position (h : c.Displaced m placed e) : e.position = m c.position := by
  rw [Cursor.position, h.current]
  rfl

theorem peek (h : c.Displaced m placed e) : e.peek = c.peek := by
  have hahead : e.ahead = c.ahead.map (·.move m) := by injection h.rest
  rw [Cursor.peek, Cursor.peek, hahead]
  cases c.ahead <;> rfl

theorem length (h : c.Displaced m placed e) : e.rest.length = c.rest.length := by
  rw [h.rest, List.length_map]

theorem spanFrom (h : c.Displaced m True e) (start : Position) :
    e.spanFrom (m start) = (c.spanFrom start).map m := by
  rw [Cursor.spanFrom, h.lastEnd trivial]
  rfl

theorem weaken (h : c.Displaced m True e) : c.Displaced m placed e :=
  ⟨h.ended, h.rest, fun _ => h.lastEnd trivial⟩

/-- Behind a token, what was passed before it is of no account. -/
theorem advance (h : c.Displaced m placed e) (hk : c.kind ≠ .eof) :
    c.advance.Displaced m True e.advance := by
  have hpasses := h.ended.passes_advance hk
  have hrest : e.rest = c.current.move m :: c.advance.rest.map (·.move m) := by
    rw [h.rest, hpasses.rest]
    rfl
  refine ⟨hpasses.ended h.ended, rest_advance hrest (by simp [Cursor.rest]), fun _ => ?_⟩
  -- At the last token a cursor would stay where it is.
  obtain ⟨t, ts, hahead⟩ : ∃ t ts, e.ahead = t :: ts := by
    injection hrest with _ hahead
    exact ⟨_, _, hahead⟩
  rw [lastEnd.eq_def, lastEnd.eq_def, hpasses.passed, Cursor.advance, hahead, h.current]
  rfl

end Displaced

end Cursor

namespace Parser

variable {α β : Type} {m : Position → Position} {placed : Prop} {c : Cursor}

/-- Both runs fail, or the second one gives what the first one does, as `g` says, and goes on in the
other places. -/
inductive Moved (m : Position → Position) (g : α → α) :
    EStateM.Result Diagnostic Cursor α → EStateM.Result Diagnostic Cursor α → Prop
  | ok {a b c e} : b = g a → c.Displaced m True e → Moved m g (.ok a c) (.ok b e)
  | error {d d' c e} : Moved m g (.error d c) (.error d' e)

/-- What the first parser does at the cursor, the second one does in the other places. -/
def Tracks (m : Position → Position) (placed : Prop) (p q : Parser α) (g : α → α) (c : Cursor) :
    Prop :=
  ∀ e, c.Displaced m placed e → Moved m g (p c) (q e)

namespace Tracks

variable {p q : Parser α} {f f' : α → Parser β} {g : α → α} {g' : β → β}

theorem pure {a b : α} (h : b = g a) : Tracks m True (pure a) (pure b) g c :=
  fun _ he => .ok h he

theorem throw (d d' : Diagnostic) :
    Tracks m placed (throw d) (throw d') g c := fun _ _ => .error

theorem unexpectedFor (reason : String) :
    Tracks m placed (Parser.unexpectedFor reason) (Parser.unexpectedFor reason) g c :=
  fun _ _ => .error

theorem noProgress : Tracks m placed Parser.noProgress Parser.noProgress g c :=
  fun _ _ => .error

theorem bind (hp : Tracks m placed p q g c)
    (hf : ∀ a c', Tracks m True (f a) (f' (g a)) g' c') :
    Tracks m placed (p >>= f) (q >>= f') g' c := by
  intro e he
  have hmoved := hp e he
  cases hrun : p c with
  | ok a c' =>
    cases hrun' : q e with
    | ok b e' =>
      rw [hrun, hrun'] at hmoved
      cases hmoved with
      | ok hb he' =>
        subst hb
        rw [bind_run_ok hrun, bind_run_ok hrun']
        exact hf a c' e' he'
    | error => rw [hrun, hrun'] at hmoved; cases hmoved
  | error d c' =>
    cases hrun' : q e with
    | ok => rw [hrun, hrun'] at hmoved; cases hmoved
    | error =>
      rw [bind_run_error hrun, bind_run_error hrun']
      exact .error

/-- Steps that only look. -/
theorem look {a b : α} (hp : p c = .ok a c) (hq : ∀ e, c.Displaced m placed e → q e = .ok b e)
    (hf : Tracks m placed (f a) (f' b) g' c) : Tracks m placed (p >>= f) (q >>= f') g' c := by
  intro e he
  rw [bind_run_ok hp, bind_run_ok (hq e he)]
  exact hf e he

theorem get {f f' : Cursor → Parser β}
    (h : ∀ e, c.Displaced m placed e → Tracks m placed (f c) (f' e) g' c) :
    Tracks m placed (MonadState.get >>= f) (MonadState.get >>= f') g' c :=
  fun e he => h e he e he

theorem kind {f f' : Kind → Parser β} (h : Tracks m placed (f c.kind) (f' c.kind) g' c) :
    Tracks m placed (Parser.kind >>= f) (Parser.kind >>= f') g' c :=
  look (kind_run c) (fun e he => by rw [kind_run, he.kind]) h

theorem current {f f' : Token → Parser β}
    (h : Tracks m placed (f c.current) (f' (c.current.move m)) g' c) :
    Tracks m placed (Parser.current >>= f) (Parser.current >>= f') g' c :=
  look (current_run c) (fun e he => by rw [current_run, he.current]) h

theorem repetitions {f f' : Nat → Parser β}
    (h : Tracks m placed (f c.rest.length) (f' c.rest.length) g' c) :
    Tracks m placed (Parser.repetitions >>= f) (Parser.repetitions >>= f') g' c :=
  look (repetitions_run c) (fun e he => by rw [repetitions_run, he.length]) h

/-- The results are made of those of the last parsers. -/
theorem map {G G' : α → β} (hp : Tracks m placed p q g c) (h : ∀ a, G' (g a) = g' (G a)) :
    Tracks m placed (do return G (← p)) (do return G' (← q)) g' c :=
  hp.bind fun a _ => .pure (h a)

end Tracks

theorem tracks_advance (hk : c.kind ≠ .eof) :
    Tracks m placed advance advance (·.move m) c :=
  fun _ he => .ok he.current (he.advance hk)

theorem tracks_expectOr {k : Kind} (d d' : Diagnostic) (hk : k ≠ .eof) :
    Tracks m placed (expectOr k d) (expectOr k d') (·.move m) c := by
  intro e he
  rw [expectOr_run, expectOr_run, he.kind]
  split
  · rename_i hkind
    exact tracks_advance (hkind ▸ hk) e he
  · exact .error

theorem tracks_expect {k : Kind} (hk : k ≠ .eof) :
    Tracks m placed (expect k) (expect k) (·.move m) c :=
  .current (tracks_expectOr _ _ hk)

theorem tracks_spanFrom (start : Position) (c : Cursor) :
    Tracks m True (spanFrom start) (spanFrom (m start)) (Span.map m) c := by
  intro e he
  rw [spanFrom_run, spanFrom_run, he.spanFrom]
  exact .ok rfl he

/-- The last step gives the results their spans. -/
theorem Tracks.spanned {g : α → α} {G G' : Span → α} {start : Position}
    (h : ∀ s, G' (s.map m) = g (G s)) :
    Tracks m True (do return G (← spanFrom start)) (do return G' (← spanFrom (m start))) g
      c :=
  (tracks_spanFrom start c).map h

theorem tracks_require (condition : Bool) (reason : String) :
    Tracks m True (require condition reason) (require condition reason) id c := by
  cases condition with
  | true => exact .pure rfl
  | false => exact .unexpectedFor reason

section Lists

variable {item : Parser α} {g : α → α}

theorem tracks_manyUntil (stops : Kind → Bool) (hitem : ∀ c, Tracks m True item item g c)
    (limit : Nat) (c : Cursor) :
    Tracks m True (manyUntil stops item limit) (manyUntil stops item limit) (List.map g) c := by
  induction limit generalizing c with
  | zero => exact .noProgress
  | succ limit ih =>
    apply Tracks.kind
    split
    · exact .pure rfl
    · apply (hitem c).bind
      intro a c'
      exact (ih c').map fun _ => rfl

theorem tracks_separated (closing : Kind) (hitem : ∀ c, Tracks m True item item g c)
    (limit : Nat) (c : Cursor) :
    Tracks m True (separated closing item limit) (separated closing item limit) (List.map g) c := by
  induction limit generalizing c with
  | zero => exact .noProgress
  | succ limit ih =>
    apply Tracks.kind
    apply Tracks.kind
    split
    · exact .pure rfl
    · apply (hitem c).bind
      intro a c'
      apply Tracks.kind
      split
      · rename_i hk
        apply (tracks_advance (by rw [hk]; decide)).bind
        intro comma c''
        exact (ih c'').map fun _ => rfl
      · exact .pure rfl

theorem tracks_listUntil {closing : Kind} (hk : closing ≠ .eof)
    (hitem : ∀ c, Tracks m True item item g c) (c : Cursor) :
    Tracks m True (listUntil closing item) (listUntil closing item) (List.map g) c := by
  apply Tracks.repetitions
  apply (tracks_separated closing hitem _ c).bind
  intro as c'
  apply (tracks_expect hk).bind
  intro close c''
  exact .pure rfl

end Lists

end Parser

end Scriptlet
