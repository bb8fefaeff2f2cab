import Scriptlet.Proofs.Syntax.Closing
import Scriptlet.Proofs.Syntax.StatementDisplacement

namespace Scriptlet

open Scriptlet.Parser Scriptlet.Grammar

variable {c c' e e' e'' : Cursor} {s : Stmt} {ss ss' : List Stmt}
  {m : Position → Position}

namespace Grammar

/-- Wherever its tokens stand behind the same ones, a statement is read up to the same token. -/
theorem statement_follows (hc : c.Ended) (h : Grammar.standard.statement c = .ok s c') :
    ∃ u, c.Passes u c' ∧ 1 ≤ u.length ∧ ∀ e e', e.passed = c.passed → e.Passes u e' →
      e'.current = c'.current ∨ e'.kind ≠ .elseWord → Grammar.standard.statement e = .ok s e' := by
  obtain ⟨u, hu, hlength, hyields⟩ := phrase_statement.viable.ok hc trivial trivial h
  refine ⟨u, hu, hlength, fun e e' hpassed he hnext => ?_⟩
  obtain ⟨_, rfl, hrun⟩ := hyields () e e' hpassed he hnext trivial
  exact hrun

/-- The span of a statement is that of its tokens. -/
theorem span_statement (hc : c.Ended) (h : Grammar.standard.statement c = .ok s c') :
    ∃ us first last, c.Passes us c' ∧ us.head? = some first ∧ us.getLast? = some last ∧
      s.span = ⟨first.span.start, last.span.stop⟩ := by
  obtain ⟨us, hus, hlength, -⟩ := statement_follows hc h
  obtain ⟨t, ts, rfl⟩ := List.exists_cons_of_length_pos hlength
  obtain ⟨front, last, hlast⟩ := (List.eq_nil_or_concat' (t :: ts)).resolve_left nofun
  have hcurrent : c.current = t := hus.current
  have hpassed : c'.passed = last :: (front.reverse ++ c.passed) := by
    rw [hus.passed, hlast, List.reverse_append]
    rfl
  refine ⟨_, t, last, hus, rfl, by rw [hlast, List.getLast?_concat], ?_⟩
  rw [(fills_statement hc h).span, Cursor.spanFrom, Cursor.lastEnd, hpassed, Cursor.position,
    hcurrent]

/-- No statement begins with `else`. -/
theorem kind_ne_else_of_statement (h : Grammar.standard.statement c = .ok s c') :
    c.kind ≠ .elseWord := by
  intro hk
  have hstart : Grammar.standard.operandRule c.current.kind = none := by
    rw [show c.current.kind = .elseWord from hk]
    rfl
  have hexpression (power : Power) : (Grammar.standard.level (2 * c.ahead.length + 3)).expression
      power c = .error ⟨.cannotStart c.current.value, c.position⟩ c := by
    change Grammar.standard.readExpression _ power c = _
    rw [readExpression, bind_run_ok (current_run c), hstart]
    rfl
  change Grammar.standard.readStatement (Grammar.standard.level (2 * c.ahead.length + 3)) c = _ at h
  rw [readStatement, bind_run_ok (kind_run c), hk] at h
  change StatementRule.readExpression _ c = _ at h
  rw [StatementRule.readExpression, get_bind_run, bind_run_error (hexpression .default)] at h
  cases h

end Grammar

/-- Statements are read from the one cursor to the other, where the text ends. -/
inductive StatementsTo (c' : Cursor) : Cursor → List Stmt → Prop
  | done : c'.kind = .eof → StatementsTo c' c' []
  | step {c c₁ s ss} : c.kind ≠ .eof → Grammar.standard.statement c = .ok s c₁ →
    StatementsTo c' c₁ ss → StatementsTo c' c (s :: ss)

namespace StatementsTo

theorem of_manyUntil {limit : Nat}
    (h : manyUntil (· = .eof) Grammar.standard.statement limit c = .ok ss c') :
    StatementsTo c' c ss := by
  induction limit generalizing c ss with
  | zero => cases h
  | succ limit ih =>
    rw [manyUntil, bind_run_ok (kind_run c)] at h
    split at h
    · rename_i hstop
      cases h
      exact .done (of_decide_eq_true hstop)
    · rename_i hstop
      obtain ⟨s, c₁, hs, h⟩ := bind_run_eq_ok_iff.mp h
      obtain ⟨ss', c₂, hss, h⟩ := bind_run_eq_ok_iff.mp h
      cases h
      exact .step (fun hk => hstop (decide_eq_true hk)) hs (ih hss)

/-- There are repetitions enough if there are as many as tokens. -/
theorem manyUntil (h : StatementsTo c' c ss) (hc : c.Ended) {limit : Nat}
    (hlimit : c.rest.length ≤ limit) :
    manyUntil (· = .eof) Grammar.standard.statement limit c = .ok ss c' := by
  induction h generalizing limit with
  | done hk =>
    obtain ⟨limit, rfl⟩ := Cursor.exists_eq_succ_of_length_rest_le hlimit
    rw [Parser.manyUntil, bind_run_ok (kind_run c'), if_pos (decide_eq_true hk)]
    rfl
  | @step c c₁ s ss hk hs _ ih =>
    obtain ⟨limit, rfl⟩ := Cursor.exists_eq_succ_of_length_rest_le hlimit
    obtain ⟨u, hu, hlength, -⟩ := statement_follows hc hs
    have hshort : c₁.rest.length ≤ limit := by
      have := hu.length
      omega
    rw [Parser.manyUntil, bind_run_ok (kind_run c), if_neg (by simpa using hk), bind_run_ok hs,
      bind_run_ok (ih (hu.ended hc) hshort)]
    rfl

theorem iff_statements (hc : c.Ended) :
    Grammar.standard.statements c = .ok ss c' ↔ StatementsTo c' c ss := by
  rw [statements, bind_run_ok (repetitions_run c)]
  exact ⟨of_manyUntil, fun h => h.manyUntil hc (Nat.le_refl _)⟩

theorem kind_ne_else (h : StatementsTo c' c ss) : c.kind ≠ .elseWord := by
  cases h with
  | done hk =>
    rw [hk]
    decide
  | step _ hs _ => exact kind_ne_else_of_statement hs

/-- Statements end at the end of the text. -/
theorem kind_eq (h : StatementsTo c' c ss) : c'.kind = .eof := by
  induction h with
  | done hk => exact hk
  | step _ _ _ ih => exact ih

theorem eq_or_closed (h : StatementsTo c' c ss) (hc : c.Ended) : c' = c ∨ c'.Closed := by
  induction h with
  | done _ => exact .inl rfl
  | step _ hs _ ih =>
    obtain ⟨u, hu, -, -⟩ := statement_follows hc hs
    rcases ih (hu.ended hc) with rfl | hclosed
    · exact .inr (fills_statement hc hs).closed
    · exact .inr hclosed

/-- Other statements may follow in place of the end of the text. -/
theorem append (h : StatementsTo c' c ss) (hc : c.Ended) :
    ∃ u, c.Passes u c' ∧ ∀ e e' e'' ss', e.passed = c.passed → e.Passes u e' →
      StatementsTo e'' e' ss' → StatementsTo e'' e (ss ++ ss') := by
  induction h with
  | done _ =>
    refine ⟨[], .refl c', fun e e' e'' ss' _ he h' => ?_⟩
    rwa [← he.eq_of_nil]
  | @step c c₁ s ss hk hs _ ih =>
    obtain ⟨u, hu, hlength, hstatement⟩ := statement_follows hc hs
    obtain ⟨v, hv, hstatements⟩ := ih (hu.ended hc)
    refine ⟨u ++ v, hu.trans hv, fun e e'' last ss' hpassed he h' => ?_⟩
    obtain ⟨e₁, he, he₁⟩ := he.split
    have hpassed₁ : e₁.passed = c₁.passed := by rw [he.passed, hu.passed, hpassed]
    -- Only the last statement has another token behind it than it had.
    have hnext : e₁.current = c₁.current ∨ e₁.kind ≠ .elseWord := by
      cases v with
      | nil =>
        rw [← he₁.eq_of_nil]
        exact .inr h'.kind_ne_else
      | cons t ts =>
        left
        rw [he₁.current, hv.current]
        rfl
    have hkind : e.kind ≠ .eof := by
      obtain ⟨t, ts, rfl⟩ := List.exists_cons_of_length_pos hlength
      have hcurrent : e.current = c.current := by
        rw [he.current, hu.current]
        rfl
      rwa [Cursor.kind, hcurrent]
    exact .step hkind (hstatement e e₁ hpassed he hnext)
      (hstatements e₁ e'' last ss' hpassed₁ he₁ h')

/-- The same statements in other places. -/
theorem displace (h : StatementsTo c' c ss) (he : c.Displaced m False e) :
    ∃ e', c'.Displaced m False e' ∧ StatementsTo e' e (ss.map (Stmt.move m)) := by
  induction h generalizing e with
  | done hk => exact ⟨e, he, .done (by rw [he.kind, hk])⟩
  | @step c c₁ s ss hk hs _ ih =>
    have hmoved := tracks_statement m c e he
    rw [hs] at hmoved
    generalize hrun : Grammar.standard.statement e = result at hmoved
    cases hmoved with
    | ok hs' he₁ =>
      subst hs'
      obtain ⟨e', he', hreads⟩ := ih he₁.weaken
      exact ⟨e', he', .step (by rwa [he.kind]) hrun hreads⟩

/-- The statements of a text are read up to the end that stands behind its tokens. -/
theorem passes {file : String} {ts : List Token} {last : Token} (hlast : last.kind = .eof)
    (hts : ∀ t ∈ ts, t.kind ≠ .eof) (h : StatementsTo c (.ofTokens file (ts ++ [last])) ss) :
    (Cursor.ofTokens file (ts ++ [last])).Passes ts c := by
  obtain ⟨u, hu, -⟩ := h.append (Cursor.ended_ofTokens file _)
  have hsplit : ts ++ [last] = u ++ c.rest := by
    rw [← Cursor.rest_ofTokens file ts hlast]
    exact hu.rest
  rcases List.append_eq_append_iff.mp hsplit with ⟨vs, rfl, hvs⟩ | ⟨vs, rfl, hvs⟩
  · -- No token is behind the end of the text.
    rcases List.append_eq_singleton_iff.mp hvs.symm with ⟨rfl, -⟩ | ⟨-, hrest⟩
    · rwa [List.append_nil] at hu
    · cases hrest
  · cases vs with
    | nil => rwa [List.append_nil] at hu ⊢
    | cons t vs =>
      refine absurd h.kind_eq (hts c.current (List.mem_append_right _ ?_))
      rw [Cursor.current_of_rest hvs]
      exact List.mem_cons_self

/-- The statements of the one text and then those of another, in other places. -/
theorem concat {file : String} {ts us : List Token} {last last' : Token} (hlast : last.kind = .eof)
    (hlast' : last'.kind = .eof) (hts : ∀ t ∈ ts, t.kind ≠ .eof)
    (h : StatementsTo c (.ofTokens file (ts ++ [last])) ss)
    (h' : StatementsTo c' (.ofTokens file (us ++ [last'])) ss') (m : Position → Position) :
    ∃ e, StatementsTo e (.ofTokens file (ts ++ (us ++ [last']).map (·.move m)))
      (ss ++ ss'.map (Stmt.move m)) := by
  obtain ⟨u, hu, happend⟩ := h.append (Cursor.ended_ofTokens file _)
  obtain rfl := hu.unique (h.passes hlast hts)
  obtain ⟨t, vs, hvs⟩ : ∃ t vs, (us ++ [last']).map (·.move m) = t :: vs :=
    List.exists_cons_of_ne_nil (by simp)
  obtain ⟨e, he, -⟩ := Cursor.exists_passes_ofTokens file u t vs
  rw [← hvs] at he
  have hrest : e.rest = (us ++ [last']).map (·.move m) := by
    have hend : (last'.move m).kind = .eof := hlast'
    have hsplit := he.rest
    rw [List.map_append, List.map_singleton, ← List.append_assoc, Cursor.rest_ofTokens file _ hend,
      List.append_assoc] at hsplit
    rw [List.map_append]
    exact (List.append_cancel_left hsplit).symm
  have hdisplaced : (Cursor.ofTokens file (us ++ [last'])).Displaced m False e := by
    refine ⟨Cursor.ended_ofTokens file _, ?_, False.elim⟩
    rw [hrest, Cursor.rest_ofTokens file us hlast']
  obtain ⟨e', -, hstatements⟩ := h'.displace hdisplaced
  refine ⟨e', happend _ e e' _ ?_ he hstatements⟩
  rw [Cursor.passed_ofTokens, Cursor.passed_ofTokens]

/-- A statement is a program, wherever its tokens begin. -/
theorem alone (file : String) {ts : List Token} {last : Token} (hlast : last.kind = .eof)
    (hts : ∀ t ∈ ts, t.kind ≠ .eof) (hc : c.Ended) (h : Grammar.standard.statement c = .ok s c')
    (hu : c.Passes (ts.map (·.move m)) c') :
    ∃ s' e, StatementsTo e (.ofTokens file (ts ++ [last])) [s'] ∧ s'.move m = s := by
  obtain ⟨u, hu', hlength, hfollows⟩ := statement_follows hc h
  obtain rfl := hu'.unique hu
  obtain ⟨t, us, rfl⟩ : ∃ t us, ts = t :: us :=
    List.exists_cons_of_length_pos (by rwa [List.length_map] at hlength)
  -- In its own place, with the end of the text behind it, the statement is read as it was.
  let place : Cursor := ⟨c.passed, t.move m, (us ++ [last]).map (·.move m)⟩
  let behind : Cursor := ⟨((t :: us).map (·.move m)).reverse ++ c.passed, last.move m, []⟩
  have hsplit : (t :: us ++ [last]).map (·.move m) =
      (t :: us).map (·.move m) ++ [last].map (·.move m) := List.map_append
  have hpasses : place.Passes ((t :: us).map (·.move m)) behind := ⟨hsplit, rfl⟩
  have hend : behind.kind = .eof := hlast
  have hrun := hfollows place behind rfl hpasses (.inr (by rw [hend]; decide))
  have hdisplaced : (Cursor.ofTokens file (t :: us ++ [last])).Displaced m False place := by
    refine ⟨Cursor.ended_ofTokens file _, ?_, False.elim⟩
    rw [Cursor.rest_ofTokens file _ hlast]
    rfl
  have hmoved := tracks_statement m _ place hdisplaced
  rw [hrun] at hmoved
  generalize halone : Grammar.standard.statement (.ofTokens file (t :: us ++ [last])) = result
    at hmoved
  cases hmoved with
  | @ok s' _ e _ hs he =>
    refine ⟨s', e, .step ?_ halone (.done (he.kind.symm.trans hend)), hs.symm⟩
    rw [Cursor.kind_of_rest (Cursor.rest_ofTokens file (t :: us) hlast)]
    exact hts t List.mem_cons_self

end StatementsTo

/-- A program is its statements, as a block that goes from the beginning of the text to the last
token. -/
theorem parse_eq_ok_iff {ts : List Token} {file : String} {b : Block} :
    parse ts file = .ok b c ↔
      StatementsTo c (.ofTokens file ts) b.body ∧ b.span = ⟨⟨0, file⟩, c.lastEnd⟩ := by
  have hended := Cursor.ended_ofTokens file ts
  change Grammar.standard.program file _ = _ ↔ _
  rw [program_run, ← StatementsTo.iff_statements hended]
  constructor
  · intro h
    obtain ⟨body, c', hbody, h⟩ := bind_run_eq_ok_iff.mp h
    cases h
    exact ⟨hbody, rfl⟩
  · rintro ⟨hbody, hspan⟩
    rw [bind_run_ok hbody]
    cases b
    cases hspan
    rfl

end Scriptlet
