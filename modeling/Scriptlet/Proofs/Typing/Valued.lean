import Scriptlet.Proofs.Syntax.Completeness
import Scriptlet.Proofs.Typing.Members
import Scriptlet.Proofs.Typing.Mismatch

namespace Scriptlet

theorem Stmt.Complete.valued {s : Stmt} (h : s.Complete) : s.Valued := by
  cases s with
  | varDecl => exact h.1
  | _ => trivial

namespace Typing

/-- Any types and any classes, but variables only with a type or a value. -/
def Vocabulary.ofValued : Vocabulary :=
  { Vocabulary.sparing "" with
    declares := fun _ => True
    valued := True
    registered := fun _ _ => trivial }

/-- Where every variable has a type or a value, the check misses none. -/
theorem value_given {program : Block} (h : ∀ s ∈ program.nodes, s.Valued) {d : Diagnostic}
    {c : Context} (herror : typecheck program = .error d c) : d.fault ≠ .valueMissing := by
  have hadmits : Vocabulary.ofValued.AdmitsStmts program.body := by
    refine ⟨Stmt.everyOf_of_forall (fun _ => trivial) trivial _, fun s hs => ?_⟩
    rw [← Block.nodes_eq] at hs
    exact ⟨fun _ _ => trivial, fun _ => h s hs⟩
  obtain ⟨n, hrun⟩ := exists_checkBlock_run program Context.fresh
  have hkeeps : Vocabulary.ofValued.Keeps {} Vocabulary.Any (typecheck program) := by
    rw [typecheck, hrun]
    exact Vocabulary.speaks_checkStmts (Vocabulary.speaks_checkNested n) program.body hadmits _
      (Vocabulary.fits_fresh _)
  rw [herror] at hkeeps
  exact hkeeps.valued trivial

end Typing

/-- Every statement of a program that is read from tokens, at every depth, has all that it needs; so
its check never reports that the value of a variable is missing. The tokens need not be those of a
source. -/
theorem complete_of_parse {tokens : List Token} {file : String} {program : Block} {cursor : Cursor}
    (h : parse tokens file = .ok program cursor) :
    (∀ s ∈ program.nodes, s.Complete) ∧
      ∀ d c, typecheck program = .error d c → d.fault ≠ .valueMissing := by
  have hcomplete := forall_complete h
  exact ⟨hcomplete, fun d c herror => Typing.value_given (fun s hs => (hcomplete s hs).valued) herror⟩

/-- A method with a loop and a branch in it reads a field that there is and one that there is not. -/
theorem complete_of_parse_class :
    ∃ program cursor d c,
      parse (tokenize "class C \x7b let f = 1; function m(): int \x7b
        for const n = this.f; n < 2; \x7b if n == 1 \x7b\x7d else if n == 0 \x7b\x7d else \x7b\x7d \x7d
        return this.g; \x7d \x7d" "f").1 "f" = .ok program cursor ∧
      program.nodes.length = 10 ∧ typecheck program = .error d c ∧
      d.fault = .unknownProperty "g" "C" ∧ (∀ s ∈ program.nodes, s.Complete) ∧
      d.fault ≠ .valueMissing := by
  have hrun : (match parse (tokenize "class C \x7b let f = 1; function m(): int \x7b
        for const n = this.f; n < 2; \x7b if n == 1 \x7b\x7d else if n == 0 \x7b\x7d else \x7b\x7d \x7d
        return this.g; \x7d \x7d" "f").1 "f" with
      | .ok program _ => decide (program.nodes.length = 10) &&
        (errorOf? (typecheck program)).map (·.fault) = some (.unknownProperty "g" "C")
      | .error _ _ => false) = true := by
    decide +kernel
  split at hrun
  · rename_i program cursor h
    obtain ⟨hlength, hshown⟩ := Bool.and_eq_true_iff.mp hrun
    obtain ⟨d, herror, hfault⟩ := Option.map_eq_some_iff.mp (of_decide_eq_true hshown)
    obtain ⟨c, hfail⟩ := exists_eq_error herror
    obtain ⟨hcomplete, hgiven⟩ := complete_of_parse h
    exact ⟨program, cursor, d, c, h, of_decide_eq_true hlength, hfail, hfault, hcomplete,
      hgiven d c hfail⟩
  · cases hrun

-- A tree that is not read from tokens can have such a variable.
example : (errorOf? (typecheck (.mk [.varDecl "x" false none none default] default))).map (·.fault) =
    some .valueMissing := by
  decide +kernel

end Scriptlet
