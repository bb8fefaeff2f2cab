import Scriptlet.Grammar.Parser
import Scriptlet.Proofs.Sequence

namespace Scriptlet

namespace Cursor

/-- The tokens that are left: the current one and those after it. -/
def rest (c : Cursor) : List Token := c.current :: c.ahead

theorem length_rest (c : Cursor) : c.rest.length = c.ahead.length + 1 := rfl

/-- A bound on the number of tokens leaves room for a step. -/
theorem exists_eq_succ_of_length_rest_le {c : Cursor} {n : Nat} (h : c.rest.length ≤ n) :
    ∃ k, n = k + 1 := by
  rw [length_rest] at h
  exact ⟨n - 1, by omega⟩

theorem current_of_rest {c : Cursor} {t : Token} {ts : List Token} (h : c.rest = t :: ts) :
    c.current = t := by
  injection h

theorem kind_of_rest {c : Cursor} {t : Token} {ts : List Token} (h : c.rest = t :: ts) :
    c.kind = t.kind := by
  rw [kind, current_of_rest h]

/-- The token behind the current one decides what is peeked at. -/
theorem peek_of_rest {c : Cursor} {t u : Token} {ts : List Token} (h : c.rest = t :: u :: ts) :
    c.peek = u.kind := by
  injection h with _ ha
  rw [peek, ha]

/-- A token is passed if another one is behind it. -/
theorem rest_advance {c : Cursor} {t : Token} {ts : List Token} (h : c.rest = t :: ts)
    (hts : ts ≠ []) : c.advance.rest = ts := by
  injection h with _ ha
  rw [advance, ha]
  cases ts with
  | nil => exact absurd rfl hts
  | cons u us => rfl

/-- No end is added to tokens that have one. -/
theorem rest_ofTokens (file : String) (ts : List Token) {last : Token} (h : last.kind = .eof) :
    (ofTokens file (ts ++ [last])).rest = ts ++ [last] := by
  cases ts with
  | nil =>
    rw [List.nil_append, ofTokens, rest]
    simp [h]
  | cons t ts =>
    rw [List.cons_append, ofTokens, rest]
    simp [h]

end Cursor

namespace Parser

variable {α : Type} {c : Cursor}

@[simp] theorem current_run (c : Cursor) : current c = .ok c.current c := rfl

@[simp] theorem kind_run (c : Cursor) : kind c = .ok c.kind c := rfl

@[simp] theorem spanFrom_run (start : Position) (c : Cursor) :
    spanFrom start c = .ok (c.spanFrom start) c := rfl

@[simp] theorem repetitions_run (c : Cursor) : repetitions c = .ok c.rest.length c := rfl

@[simp] theorem advance_run (c : Cursor) : advance c = .ok c.current c.advance := rfl

theorem expectOr_run (k : Kind) (d : Diagnostic) (c : Cursor) :
    expectOr k d c = if c.kind = k then .ok c.current c.advance else .error d c := by
  simp only [expectOr]
  rw [bind_run_ok (current_run c)]
  change (if c.kind = k then advance else throw d) c = _
  split <;> rfl

theorem expect_run (k : Kind) (c : Cursor) :
    expect k c = if c.kind = k then .ok c.current c.advance
      else .error ⟨.unexpected c.current.value, c.position⟩ c := by
  rw [expect, bind_run_ok (current_run c), expectOr_run]
  rfl

theorem expect_of_kind {k : Kind} (h : c.kind = k) : expect k c = .ok c.current c.advance := by
  rw [expect_run, if_pos h]

theorem expectOr_of_kind {k : Kind} {d : Diagnostic} (h : c.kind = k) :
    expectOr k d c = .ok c.current c.advance := by
  rw [expectOr_run, if_pos h]

theorem expectOr_eq_ok {k : Kind} {d : Diagnostic} {t : Token} {c' : Cursor}
    (h : expectOr k d c = .ok t c') : c.kind = k ∧ t = c.current ∧ c' = c.advance := by
  rw [expectOr_run] at h
  split at h
  · rename_i hk
    cases h
    exact ⟨hk, rfl, rfl⟩
  · cases h

theorem kind_of_expect {k : Kind} {t : Token} {c' : Cursor} (h : expect k c = .ok t c') :
    c.kind = k := by
  rw [expect, bind_run_ok (current_run c)] at h
  exact (expectOr_eq_ok h).1

@[simp] theorem noProgress_run (c : Cursor) :
    (noProgress : Parser α) c = .error ⟨.noProgress, c.position⟩ c := rfl

@[simp] theorem unexpectedFor_run (reason : String) (c : Cursor) :
    (unexpectedFor reason : Parser α) c = .error (c.unexpectedFor reason) c := rfl

theorem require_eq_ok {condition : Bool} {reason : String} {u : Unit} {c' : Cursor}
    (h : require condition reason c = .ok u c') : condition = true ∧ c' = c := by
  cases condition with
  | true =>
    cases h
    exact ⟨rfl, rfl⟩
  | false => cases h

end Parser

end Scriptlet
