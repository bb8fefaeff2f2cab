import Scriptlet.Proofs.Arithmetic.Scanning
import Scriptlet.Proofs.Bytecode.Checked
import Scriptlet.Proofs.Bytecode.Compilation
import Scriptlet.Proofs.Syntax.RoundTrip

namespace Scriptlet.Arithmetic

open Bytecode Actions

theorem exists_append_of_forall₂ {α β : Type} {R : α → β → Prop} {as : List α} {bs cs : List β}
    (h : List.Forall₂ R as (bs ++ cs)) :
    ∃ us vs, as = us ++ vs ∧ List.Forall₂ R us bs ∧ List.Forall₂ R vs cs :=
  ⟨as.take bs.length, as.drop bs.length, (List.take_append_drop _ _).symm,
    List.forall₂_take_append _ _ _ h, List.forall₂_drop_append _ _ _ h⟩

namespace Shows

variable {t : Token}

theorem is {p : Piece} (h : Shows t p) (hs : p.kind.spelling? = some (String.ofList p.text)) :
    t.Is p.kind :=
  ⟨h.kind, by rw [hs, h.value]⟩

end Shows

section Reading

namespace Tree

/-- The tree as the language has it. -/
def expr : Tree → Expr
  | literal value => .int (Int64.ofNat value.toNat) default
  | apply operator left right =>
    .binary ⟨operator.kind, String.ofList [operator.symbol], default⟩ left.expr right.expr default

end Tree

theorem rank_operator (op : Operator) :
    (Grammar.standard.power op.kind).rank = op.strength + 4 := by
  cases op <;> rfl

theorem operatorRule_operator (op : Operator) :
    Grammar.standard.operatorRule op.kind = some .binary := by
  cases op <;> rfl

/-- What writes a tree spells its expression, where operators from the same strength on may stand
bare. -/
theorem Written.spelled {n : Nat} {t : Tree} {ps : List Piece} (h : Written n t ps)
    {ts : List Token} (hts : List.Forall₂ Shows ts ps) {place : Nat} (hplace : place < n + 4)
    (hsix : place ≤ 6) : Expr.Spelled .strict place t.expr ts := by
  induction h generalizing ts place with
  | @literal n value digits hne hdigits hvalue =>
    obtain ⟨u, _, hu, ⟨⟩, rfl⟩ := List.forall₂_cons_right_iff.mp hts
    have hstrength : 6 < Power.member.rank := by decide
    refine .bare (Nat.lt_of_le_of_lt hsix hstrength) (.int hu.kind ?_)
    have hbyte := value.toNat_lt
    rw [hu.value, Piece.text, String.toList_ofList,
      Numeral.int64?_of_digits hne hdigits (by omega), hvalue]
  | @apply n op left right ps qs hn _ _ hleft hright =>
    obtain ⟨us, vs, rfl, hus, hvs⟩ := exists_append_of_forall₂ hts
    obtain ⟨u, ws, hu, hws, rfl⟩ := List.forall₂_cons_right_iff.mp hvs
    have hpower : (Grammar.standard.power u.kind).rank = op.strength + 4 := by
      rw [hu.kind]
      exact rank_operator op
    have hstrength : op.strength ≤ 2 := by cases op <;> decide
    refine .bare ?_ (.binary ?_ hu.kind hu.value ?_ ?_)
    · change place < (Grammar.standard.power op.kind).rank
      rw [rank_operator]
      omega
    · rw [hu.kind]
      exact operatorRule_operator op
    · exact hleft hus (by omega) (by omega)
    · exact hright hws (by omega) (by omega)
  | @group n t ps _ ih =>
    obtain ⟨o, ws, ho, hws, rfl⟩ := List.forall₂_cons_right_iff.mp hts
    obtain ⟨us, vs, rfl, hus, hvs⟩ := exists_append_of_forall₂ hws
    obtain ⟨c, _, hc, ⟨⟩, rfl⟩ := List.forall₂_cons_right_iff.mp hvs
    exact .group (ho.is rfl) (ih hus (by decide) (by decide)) (hc.is rfl)

/-- The statement that a tree is written as. -/
def Tree.stmt (t : Tree) : Stmt := .expression t.expr default

theorem WrittenAll.chained {ts : List Tree} {ps : List Piece} (h : WrittenAll ts ps)
    {us : List Token} (hus : List.Forall₂ Shows us ps) :
    Chained (Stmt.Spelled .strict) (ts.map Tree.stmt) us := by
  induction h generalizing us with
  | nil =>
    cases hus
    exact .nil
  | @cons t ts ps qs ht _ ih =>
    obtain ⟨vs, ws, rfl, hvs, hws⟩ := exists_append_of_forall₂ hus
    obtain ⟨semicolon, rest, hsemicolon, hrest, rfl⟩ := List.forall₂_cons_right_iff.mp hws
    have hexpr : Expr.Spelled .strict Power.default.rank t.expr vs :=
      ht.spelled hvs (by decide) (by decide)
    have hstmt : Stmt.Spelled .strict t.stmt (vs ++ [semicolon]) :=
      .expression hexpr (hsemicolon.is rfl)
    have hchained := Chained.cons hstmt (ih hrest)
    rwa [List.append_assoc] at hchained

end Reading

/-- The expression is the tree, wherever it was read from. -/
def Tree.Is (t : Tree) (e : Expr) : Prop := e.unplaced = t.expr

namespace Tree.Is

variable {e : Expr}

theorem exists_literal {value : UInt8} (h : (literal value).Is e) :
    ∃ s, e = .int (Int64.ofNat value.toNat) s := by
  cases e with
  | int v s =>
    injection h with hv
    exact ⟨s, by rw [hv]⟩
  | _ => cases h

theorem exists_apply {op : Operator} {left right : Tree} (h : (apply op left right).Is e) :
    ∃ t l r s, e = .binary t l r s ∧ t.kind = op.kind ∧ left.Is l ∧ right.Is r := by
  cases e with
  | binary t l r s =>
    injection h with ht hl hr
    exact ⟨t, l, r, s, rfl, congrArg Token.kind ht, hl, hr⟩
  | _ => cases h

end Tree.Is

/-- The statement is the tree with a semicolon behind it. -/
def Tree.IsStmt (t : Tree) (s : Stmt) : Prop := ∃ e span, s = .expression e span ∧ t.Is e

theorem Tree.expr_unplaced (t : Tree) : t.expr.unplaced = t.expr := by
  induction t with
  | literal value => rfl
  | apply op left right hleft hright =>
    change Expr.binary _ left.expr.unplaced right.expr.unplaced _ = _
    rw [hleft, hright]
    rfl

theorem Tree.isStmt_of_unplaced {t : Tree} {s : Stmt} (h : s.unplaced = t.stmt.unplaced) :
    t.IsStmt s := by
  change s.unplaced = .expression t.expr.unplaced default at h
  rw [t.expr_unplaced] at h
  cases s with
  | expression e span =>
    injection h with he
    exact ⟨e, span, rfl, he⟩
  | _ => cases h

theorem forall₂_isStmt {ts : List Tree} {body : List Stmt}
    (h : body.map Stmt.unplaced = (ts.map Tree.stmt).map Stmt.unplaced) :
    List.Forall₂ Tree.IsStmt ts body := by
  induction ts generalizing body with
  | nil =>
    obtain rfl := List.map_eq_nil_iff.mp h
    exact .nil
  | cons t ts ih =>
    obtain ⟨s, ss, rfl, hs, hss⟩ := List.map_eq_cons_iff.mp h
    exact .cons (Tree.isStmt_of_unplaced hs) (ih hss)

section Compiling

/-- The code of a tree puts its operands before their operator. -/
def Tree.code : Tree → List UInt8
  | literal value => [Opcode.push.byte, value]
  | apply operator left right =>
    left.code ++ right.code ++ (arithmetic? operator.kind).toList.map Opcode.byte

theorem byte?_literal (value : UInt8) : byte? (Int64.ofNat value.toNat) = some value := by
  have hvalue : (Int64.ofNat value.toNat).toInt = value.toNat :=
    Int64.toInt_ofNat_of_lt (by have := value.toNat_lt; omega)
  have hbyte : 0 ≤ Int64.ofNat value.toNat ∧ Int64.ofNat value.toNat ≤ 255 := by
    rw [Int64.le_iff_toInt_le, Int64.le_iff_toInt_le, hvalue]
    have := value.toNat_lt
    change (0 : Int) ≤ value.toNat ∧ (value.toNat : Int) ≤ 255
    omega
  rw [byte?, if_pos hbyte, hvalue, Int.toNat_natCast, UInt8.ofNat_toNat]

theorem ofExpr_tree {t : Tree} {e : Expr} (h : t.Is e) : ofExpr e = .ok t.code := by
  induction t generalizing e with
  | literal value =>
    obtain ⟨s, rfl⟩ := h.exists_literal
    rw [ofExpr, byte?_literal]
    rfl
  | apply op left right hleft hright =>
    obtain ⟨t, l, r, s, rfl, ht, hl, hr⟩ := h.exists_apply
    rw [ofExpr, ht, hleft hl, hright hr, Tree.code]
    cases op <;> rfl

theorem exists_ofStmts_trees {ts : List Tree} {body : List Stmt}
    (h : List.Forall₂ Tree.IsStmt ts body) : ∃ code, ofStmts body = .ok code := by
  induction h with
  | nil => exact ⟨[], rfl⟩
  | cons ht _ ih =>
    obtain ⟨e, span, rfl, he⟩ := ht
    obtain ⟨code, hcode⟩ := ih
    rw [ofStmts, ofStmt, ofExpr_tree he, hcode]
    exact ⟨_, rfl⟩

/-- Arithmetic is well typed and declares nothing. -/
theorem checkStmts_trees (reread : Expr → Typing.Check Ty) {ts : List Tree} {body : List Stmt}
    (h : List.Forall₂ Tree.IsStmt ts body) (c : Typing.Context) :
    Typing.checkStmts reread body c = .ok () c := by
  obtain ⟨code, hcode⟩ := exists_ofStmts_trees h
  exact checkStmts_of_ofStmts hcode reread c

end Compiling

section Running

theorem toOption_evaluate {t : Tree} {e : Expr} (h : t.Is e) :
    (evaluate e).toOption = t.value? := by
  induction t generalizing e with
  | literal value =>
    obtain ⟨s, rfl⟩ := h.exists_literal
    rfl
  | apply op left right hleft hright =>
    obtain ⟨t, l, r, s, rfl, ht, hl, hr⟩ := h.exists_apply
    rw [evaluate, ht, Tree.value?, ← hleft hl, ← hright hr]
    cases evaluate l with
    | error place => rfl
    | ok a =>
      cases evaluate r with
      | error place => rfl
      | ok b =>
        simp only [Except.toOption, bind, Option.bind]
        cases combine? op.kind a b <;> rfl

/-- What the statements evaluate to is what the trees do. -/
theorem evaluateAll_trees {ts : List Tree} {body : List Stmt}
    (h : List.Forall₂ Tree.IsStmt ts body) :
    (evaluateAll (expressionsOfAll body)).values = Tree.values ts ∧
      ((evaluateAll (expressionsOfAll body)).stop = none ↔ ∀ t ∈ ts, t.value? ≠ none) := by
  induction h with
  | nil => exact ⟨rfl, iff_of_true rfl fun _ ht => nomatch ht⟩
  | @cons t s ts ss ht _ ih =>
    obtain ⟨e, span, rfl, he⟩ := ht
    have hvalue := (toOption_evaluate he).symm
    rw [expressionsOfAll, expressionsOf, List.singleton_append, evaluateAll, Tree.values,
      List.forall_mem_cons]
    cases hev : evaluate e with
    | error place =>
      rw [hev] at hvalue
      rw [hvalue]
      exact ⟨rfl, iff_of_false (by simp) fun h => h.1 rfl⟩
    | ok value =>
      rw [hev] at hvalue
      rw [hvalue]
      refine ⟨congrArg (value :: ·) ih.1, ?_⟩
      rw [Option.map_eq_none_iff, ih.2]
      exact ⟨fun h => ⟨Option.some_ne_none value, h⟩, And.right⟩

/-- A run takes one value off the stack at its end. -/
theorem run_of_holds {m m' : Machine} {values : List Int64} (h : standard.execute m = .ok () m')
    (hh : m'.Holds values) : ∃ m'', standard.run m = .ok () m'' ∧ m''.output = m'.output := by
  rw [Actions.run, bind_run_ok h, get_bind_run]
  cases hs : m'.stack with
  | nil => exact ⟨m', rfl, rfl⟩
  | cons handle rest =>
    have hlength := hh.length
    rw [hs] at hlength
    obtain ⟨value, values, rfl⟩ := List.exists_cons_of_length_eq_add_one hlength.symm
    have hobjects := hh.objects
    rw [hs, List.map_cons, List.zip_cons_cons] at hobjects
    have hpop := Action.pop_newest m' handle rest value _ hs hobjects
    simp only [bind_run_ok hpop]
    exact ⟨_, rfl, rfl⟩

end Running

/-- Arithmetic is computed: whatever the trees and however they are written, every stage accepts
what the one before it gives, and the machine prints the values of the trees, each on a line of its
own. If something is divided by zero, it stops there, with the values before it printed. -/
theorem runs_written {trees : List Tree} {pieces : List Piece} {text : List Char}
    (hwritten : WrittenAll trees pieces) (hlaid : LaidOut pieces text) (file : String) :
    ∃ tokens program cursor code,
      tokenize (String.ofList text) file = (tokens, []) ∧
      parse tokens file = .ok program cursor ∧
      typecheck program = .ok () Typing.Context.fresh ∧
      compile program = .ok code ∧
      ∀ output : Output, output.writeFailure = none →
        ((∀ t ∈ trees, t.value? ≠ none) →
          ∃ m, standard.run (Machine.load code output) = .ok () m ∧
            m.output.text = output.text ++ lines (Tree.values trees)) ∧
        ((∃ t ∈ trees, t.value? = none) →
          ∃ d m, standard.run (Machine.load code output) = .error d m ∧
            d.fault = .divisionByZero ∧
            m.output.text = output.text ++ lines (Tree.values trees)) := by
  -- The text is read back to the trees, and what they compile to is run on an empty machine.
  obtain ⟨ts, last, htokens, hlast, hts⟩ :=
    tokenize_laidOut hlaid hwritten.valid hwritten.meets file
  obtain ⟨⟨body, s⟩, cursor, hread, -, hbody⟩ :=
    Grammar.readsTo_program (hwritten.chained hts) hlast (Cursor.rest_ofTokens file ts hlast) file
  have htrees : List.Forall₂ Tree.IsStmt trees body := forall₂_isStmt hbody
  obtain ⟨code, hcode⟩ := exists_ofStmts_trees htrees
  obtain ⟨hvalues, hstop⟩ := evaluateAll_trees htrees
  refine ⟨ts ++ [last], .mk body s, cursor, code, htokens, hread, checkStmts_trees _ htrees _,
    hcode, fun output hw => ?_⟩
  have hrun := execute_ofExprs _ code (Machine.load code output) []
    (ofExprs_expressionsOfAll body code hcode) rfl hw (.load code output)
  refine ⟨fun hall => ?_, fun ⟨t, ht, hnone⟩ => ?_⟩
  · rw [hstop.mpr hall, hvalues] at hrun
    obtain ⟨m, hm, htext, hholds⟩ := hrun
    obtain ⟨m', hm', houtput⟩ := run_of_holds hm hholds
    exact ⟨m', hm', by rw [houtput, htext]; rfl⟩
  -- Some tree has no value, so the evaluation stops at a division by zero.
  · obtain ⟨place, hplace⟩ := Option.ne_none_iff_exists'.mp fun h => hstop.mp h t ht hnone
    rw [hplace, hvalues] at hrun
    obtain ⟨-, m, hm, htext⟩ := hrun
    exact ⟨_, m, bind_run_error hm, rfl, htext⟩

/-- The text `7; 8/ //?⏎(2-2);` prints one value and stops at its division, whose slash has a
comment behind it. -/
theorem runs_written_division_by_zero :
    let two : Tree := .literal 2
    let trees := [.literal 7, .apply .divide (.literal 8) (.apply .minus two two)]
    let pieces : List Piece := [.numeral ['7'], .semicolon, .numeral ['8'], .operator .divide,
      .opening, .numeral ['2'], .operator .minus, .numeral ['2'], .closing, .semicolon]
    let text := ['7', ';', ' ', '8', '/', ' ', '/', '/', '?', '\n', '(', '2', '-', '2', ')', ';']
    WrittenAll trees pieces ∧ LaidOut pieces text ∧
      ∃ tokens program cursor code, tokenize (String.ofList text) "f" = (tokens, []) ∧
        parse tokens "f" = .ok program cursor ∧
        typecheck program = .ok () Typing.Context.fresh ∧ compile program = .ok code ∧
        ∃ d m, standard.run (Machine.load code {}) = .error d m ∧ d.fault = .divisionByZero ∧
          m.output.text = "" ++ lines [7] := by
  intro two trees pieces text
  have digit (n : Nat) (c : Char) (value : UInt8) (hc : c.isDigit = true)
      (hvalue : Numeral.value [c] = value.toNat) : Written n (.literal value) [.numeral [c]] :=
    .literal (List.cons_ne_nil _ _) (by simpa using hc) hvalue
  have hzero :
      Written 0 (.apply .minus two two) [.numeral ['2'], .operator .minus, .numeral ['2']] :=
    @Written.apply 0 .minus two two [_] [_] (by decide) (digit 1 '2' 2 rfl rfl)
      (digit 2 '2' 2 rfl rfl)
  have hquotient := @Written.apply 0 .divide _ _ [_] _ (by decide) (digit 2 '8' 8 rfl rfl)
    (.group hzero)
  have hwritten : WrittenAll trees pieces :=
    .cons (digit 0 '7' 7 rfl rfl) (.cons hquotient .nil)
  have piece (p : Piece) {gap text : List Char} {ps : List Piece} (hgap : Gap gap)
      (h : LaidOut ps text) : LaidOut (p :: ps) (gap ++ (p.text ++ text)) := .cons hgap h
  have hcomment : Layout ['/', '/', '?', '\n'] := @Layout.comment ['?'] [] (by decide) .nil
  have hlaid : LaidOut pieces text :=
    piece _ .nil (piece _ .nil (piece (.numeral ['8']) (.blank (c := ' ') rfl .nil)
      (piece (.operator .divide) .nil (piece _ (.blank (c := ' ') rfl hcomment)
        (piece (.numeral ['2']) .nil (piece (.operator .minus) .nil (piece (.numeral ['2']) .nil
          (piece .closing .nil (piece .semicolon .nil (.nil .nil))))))))))
  obtain ⟨tokens, program, cursor, code, ht, hp, hc, hb, hrun⟩ := runs_written hwritten hlaid "f"
  exact ⟨hwritten, hlaid, tokens, program, cursor, code, ht, hp, hc, hb,
    (hrun {} rfl).2 ⟨_, List.mem_cons_of_mem _ List.mem_cons_self, rfl⟩⟩

end Scriptlet.Arithmetic
