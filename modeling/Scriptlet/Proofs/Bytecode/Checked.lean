import Scriptlet.Command
import Scriptlet.Proofs.Bytecode.Subset
import Scriptlet.Proofs.Sequence
import Scriptlet.Proofs.Tree.Node

namespace Scriptlet

open Typing

/-- The check lets the node pass wherever it stands: an expression has type `int`, a statement has
no error, and what is known before is what is known behind it. It does not matter how values of
fields are checked again. -/
def Node.Passes : Node → Prop
  | .expression e => ∀ reread c, checkExpr reread e c = .ok .int c
  | .statement s => ∀ reread c, checkStmt reread s c = .ok () c

theorem isComparison_eq_false {kind : Kind}
    (h : kind ∈ [Kind.plus, .dash, .star, .slash, .percent]) : isComparison kind = false := by
  cases kind <;> simp [isComparison] at h ⊢

theorem checkStmts_of_passes {ss : List Stmt} (h : ∀ s ∈ ss, (Node.statement s).Passes)
    (reread : Expr → Check Ty) (c : Context) : checkStmts reread ss c = .ok () c := by
  induction ss with
  | nil => rfl
  | cons s ss ih =>
    obtain ⟨hs, hss⟩ := List.forall_mem_cons.mp h
    rw [checkStmts, bind_run_ok (hs reread c), ih hss]

/-- An expression of the subset is a tree of integers. -/
theorem Expr.Compilable.passes {e : Expr} (h : e.Compilable) :
    (Node.expression e).Throughout Node.Passes := by
  induction h with
  | int => exact .mk (fun _ _ => rfl) (List.forall_mem_nil _)
  | @binary operator left right span hkind _ _ hleft hright =>
    have hfirst : ∀ reread c, checkExpr reread left c = .ok .int c := hleft.self
    have hsecond : ∀ reread c, checkExpr reread right c = .ok .int c := hright.self
    refine .mk (fun reread c => ?_)
      (List.forall_mem_cons.mpr ⟨hleft, List.forall_mem_singleton.mpr hright⟩)
    rw [checkExpr, bind_run_ok (hfirst reread c), bind_run_ok (hsecond reread c),
      isComparison_eq_false hkind]
    -- The operands are of one type, which is also that of the result.
    rfl

theorem Stmt.Compilable.passes {s : Stmt} (h : s.Compilable) :
    (Node.statement s).Throughout Node.Passes := by
  induction h with
  | @expression e span value =>
    have hvalue : ∀ reread c, checkExpr reread e c = .ok .int c := value.passes.self
    refine .mk (fun reread c => ?_) (List.forall_mem_singleton.mpr value.passes)
    rw [checkStmt, bind_run_ok (hvalue reread c)]
    rfl
  | block _ ih =>
    exact .mk (checkStmts_of_passes fun s hs => (ih s hs).self) (List.forall_mem_map.mpr ih)

theorem Bytecode.compilable_of_ofStmts {ss : List Stmt} {code : List UInt8}
    (h : ofStmts ss = .ok code) : ∀ s ∈ ss, s.Compilable := by
  rw [← firstOffence?_sitesOfStmts_eq_none_iff, ← refusal?_ofStmts, h, refusal?]

theorem throughout_passes_of_compile {program : Block} {code : List UInt8}
    (h : compile program = .ok code) : program.Throughout Node.Passes := by
  cases program with
  | mk body span => exact (Stmt.Compilable.block (Bytecode.compilable_of_ofStmts h)).passes

/-- What has bytecode is accepted, from wherever the check stands, and leaves no trace. -/
theorem checkStmts_of_ofStmts {ss : List Stmt} {code : List UInt8}
    (h : Bytecode.ofStmts ss = .ok code) (reread : Expr → Check Ty) (c : Context) :
    checkStmts reread ss c = .ok () c :=
  checkStmts_of_passes (fun s hs => (Bytecode.compilable_of_ofStmts h s hs).passes.self) reread c

theorem checkBlock_of_compile {program : Block} {code : List UInt8}
    (h : compile program = .ok code) (c : Context) : checkBlock program c = .ok () c :=
  checkStmts_of_ofStmts h _ c

/-- What the check refuses has no bytecode. -/
theorem exists_compile_error {program : Block} {d : Diagnostic} {c : Context}
    (h : typecheck program = .error d c) : ∃ d', compile program = .error d' := by
  cases hcode : compile program with
  | error d' => exact ⟨d', rfl⟩
  | ok code =>
    have hok : typecheck program = .ok () Context.fresh := checkBlock_of_compile hcode _
    rw [hok] at h
    cases h

/-- The source has no error that the scanner or the parser reports, and is read as this program. -/
def ReadAs (name source : String) (program : Block) : Prop :=
  ∃ tokens cursor, tokenize source name = (tokens, []) ∧ parse tokens name = .ok program cursor

/-- A source is read as a program, of which `p` holds, if the scanner and the parser say so. -/
theorem exists_readAs (name source : String) (p : Block → Bool)
    (h : ((tokenize source name).2.isEmpty &&
      (resultOf? (parse (tokenize source name).1 name)).any p) = true) :
    ∃ program, ReadAs name source program ∧ p program = true := by
  obtain ⟨hscanned, hparsed⟩ := Bool.and_eq_true_iff.mp h
  obtain ⟨program, hresult, hp⟩ := (Option.any_eq_true _ _).mp hparsed
  obtain ⟨cursor, hrun⟩ := exists_eq_ok_of_resultOf? hresult
  exact ⟨program, ⟨_, cursor, Prod.ext rfl (List.isEmpty_iff.mp hscanned), hrun⟩, hp⟩

namespace Command

variable {name source : String} {program : Block}

theorem withProgram_of_readAs (h : ReadAs name source program) (keepGoing : Bool)
    (next : Block → String → Outcome) : withProgram keepGoing name source next = next program "" := by
  obtain ⟨tokens, cursor, hscanned, hparsed⟩ := h
  have hscan : scan keepGoing name source = .ok (tokens, "") := by
    rw [scan, hscanned]
    rfl
  simp only [withProgram, hscan, hparsed]

/-- A program with an error of type goes no further. -/
theorem run_of_typecheck_error (h : ReadAs name source program) {d : Diagnostic} {c : Context}
    (herror : typecheck program = .error d c) (keepGoing : Bool) :
    onSource keepGoing name source .run = .failure "" "" (d.report source) := by
  simp only [onSource, withChecked, withProgram_of_readAs h, herror]

theorem run_of_compile (h : ReadAs name source program) {c : Context}
    (hchecked : typecheck program = .ok () c) {code : List UInt8}
    (hcode : compile program = .ok code) (keepGoing : Bool) :
    onSource keepGoing name source .run = execute code "" := by
  simp only [onSource, withChecked, withProgram_of_readAs h, hchecked, hcode]

end Command

/-- The check never stands in the way of the compiler. What has bytecode is accepted from every
context, which stays as it is, and every expression in it, at every depth, is found to be an
integer. So a source that is read without an error stops at the check only if its program has no
bytecode either; if there is bytecode, to run the source is to execute it. -/
theorem check_admits_compiled (program : Block) :
    (∀ code, compile program = .ok code →
      (∀ c, checkBlock program c = .ok () c) ∧ program.Throughout Node.Passes) ∧
    ∀ name source, ReadAs name source program → ∀ keepGoing,
      (∀ d c, typecheck program = .error d c →
        Command.onSource keepGoing name source .run = .failure "" "" (d.report source) ∧
          ∃ d', compile program = .error d') ∧
      ∀ code, compile program = .ok code →
        Command.onSource keepGoing name source .run = Command.execute code "" := by
  refine ⟨fun code hcode => ⟨checkBlock_of_compile hcode, throughout_passes_of_compile hcode⟩, ?_⟩
  intro name source hread keepGoing
  refine ⟨fun d c herror => ⟨?_, exists_compile_error herror⟩, fun code hcode => ?_⟩
  · exact Command.run_of_typecheck_error hread herror keepGoing
  · have hchecked : typecheck program = .ok () Context.fresh := checkBlock_of_compile hcode _
    exact Command.run_of_compile hread hchecked hcode keepGoing

/-- Arithmetic in nested blocks is accepted in the middle of a class as well, and run; a sum with a
truth value has neither a type nor bytecode. -/
theorem check_admits_compiled_blocks :
    let source := "\x7b 7 - 2; \x7b 200 % 3; \x7d \x7d 4 * (1 + 1);"
    let c : Context := { Context.fresh with
      returns := .function none
      enclosing := some ⟨"C", .mk [] default⟩
      classes := ({} : Std.TreeMap String Ty).insert "C" (.struct "C" []) }
    (∃ program code, ReadAs "f" source program ∧ compile program = .ok code ∧
      checkBlock program c = .ok () c ∧ program.Throughout Node.Passes ∧
      Command.onSource false "f" source .run = Command.execute code "") ∧
    ∃ program d after, ReadAs "f" "1 + true;" program ∧ typecheck program = .error d after ∧
      Command.onSource false "f" "1 + true;" .run = .failure "" "" (d.report "1 + true;") ∧
      ∃ d', compile program = .error d' := by
  intro source c
  constructor
  · obtain ⟨program, hread, hnone⟩ := exists_readAs "f" source
      (fun program => (Bytecode.refusal? (compile program)).isNone) (by decide +kernel)
    obtain ⟨code, hcode⟩ := Bytecode.refusal?_eq_none_iff.mp (Option.isNone_iff_eq_none.mp hnone)
    obtain ⟨hchecked, hpasses⟩ := (check_admits_compiled program).1 code hcode
    exact ⟨program, code, hread, hcode, hchecked c, hpasses,
      ((check_admits_compiled program).2 "f" source hread false).2 code hcode⟩
  · obtain ⟨program, hread, hsome⟩ := exists_readAs "f" "1 + true;"
      (fun program => (errorOf? (typecheck program)).isSome) (by decide +kernel)
    obtain ⟨d, herror⟩ := Option.isSome_iff_exists.mp hsome
    obtain ⟨after, hfails⟩ := exists_eq_error herror
    exact ⟨program, d, after, hread, hfails,
      ((check_admits_compiled program).2 "f" _ hread false).1 d after hfails⟩

end Scriptlet
