import Scriptlet.Proofs.Typing.Concurrence

namespace Scriptlet

namespace Typing

variable {M : Position → Prop}

/-- However deep fields are checked again, a check reports at marked positions. -/
theorem rereads_checkNested (n : Nat) :
    Rereads M (fun opened _ _ _ => Concur (fun d => M d.position) opened) (checkNested n)
      (checkNested n) := by
  -- On the levels that are left: a field is checked again with one level less.
  induction n with
  | zero => exact fun _ _ _ h => concur_throw (Expr.marked_start h)
  | succ n ih =>
    intro o ho e h
    have hmarked : ∀ o', some o = some o' → o'.Marked M := by
      rintro _ ⟨⟩
      exact ho
    exact ih.checkExpr (parallel_concur fun _ _ => id) hmarked e h

/-- The error of a program is at an edge of one of its nodes. -/
theorem position_of_typecheck {b : Block} (h : ∀ r ∈ Stmt.regions b.body, r.Marked M)
    {d : Diagnostic} {c : Context} (herror : typecheck b = .error d c) : M d.position := by
  have houtside : ∀ o : OpenClass, none = some o → o.Marked M := nofun
  have hchecks (n : Nat) : Concur (fun d => M d.position) none
      (checkStmts (checkNested n) b.body) (checkStmts (checkNested n) b.body) :=
    (rereads_checkNested n).checkStmts (parallel_concur fun _ _ => id) houtside b.body h
  obtain ⟨-, hsettled⟩ := hchecks _ .fresh rfl
  exact hsettled.report d c herror

end Typing

end Scriptlet
