import Scriptlet.Proofs.Typing.Concurrence
import Scriptlet.Proofs.Typing.Dependence

/-!
The check ends. A field's value is checked again each time the field is mentioned, in the midst of
another check; where no field depends on itself, this does not go deeper than there are variables.
What is done deeper inside does not matter then, since nothing comes to it.
-/
namespace Scriptlet

namespace Typing

variable {α β : Type}

/-- Checks an expression. Fields are checked again so many levels inside one another, and below that
in some other way. -/
def nested (deeper : Expr → Check Ty) : Nat → Expr → Check Ty
  | 0, e => deeper e
  | n + 1, e => checkExpr (nested deeper n) e

theorem checkNested_eq_nested (n : Nat) :
    checkNested n = nested (fun e => throw ⟨.cyclicField, e.start⟩) n := by
  induction n with
  | zero => rfl
  | succ n ih =>
    funext e
    rw [checkNested, nested, ih]

theorem nested_add (deeper : Expr → Check Ty) (m n : Nat) :
    nested deeper (m + n) = nested (nested deeper m) n := by
  induction n with
  | zero => rfl
  | succ n ih =>
    funext e
    rw [← Nat.add_assoc, nested, nested, ih]

section Depth

/-- Begun in the class, the check goes no more levels deep than that, and it does not come to a
field that depends on itself. -/
def EndsWithin (opened : Option OpenClass) (n : Nat) (check : (Expr → Check Ty) → Check α) : Prop :=
  ∀ deeper deeper', Concur (fun d => d.fault ≠ .cyclicField) opened (check (nested deeper n))
    (check (nested deeper' n))

theorem parallel_ends : Parallel (fun _ => True) fun opened _ _ _ =>
    Concur (fun d => d.fault ≠ .cyclicField) opened := parallel_concur fun _ hd _ => hd

theorem EndsWithin.of_occurrences {opened : Option OpenClass} {n : Nat} {ss : List Stmt}
    (hown : ∀ property, .own property ∈ Stmt.occurrencesOf ss → ∀ o value, opened = some o →
      originOf? property o.body.body = some (.value value) → EndsWithin opened n (· value))
    (hopens : ∀ o, .opens o ∈ Stmt.occurrencesOf ss →
      EndsWithin (some o) n (checkStmts · o.body.body)) :
    EndsWithin opened n (checkStmts · ss) := by
  intro deeper deeper'
  apply parallel_checkStmts parallel_ends ss fun r _ => r.marked_true
  intro a ha
  cases a with
  | own property =>
    exact fun o ho => ⟨o.marked_true, fun value hvalue =>
      hown property ha o value ho hvalue deeper deeper'⟩
  | opens o => exact fun _ => hopens o ha deeper deeper'

variable {o : OpenClass} {n : Nat}

/-- The value of the last field on a trail has levels for all variables of the class but those on
the way. -/
theorem endsWithin_value {f : Stmt} {path : List Stmt} {value : Expr} (hacyclic : o.Acyclic)
    (hopens : ∀ m o', .opens o' ∈ Stmt.occurrencesOf o.body.body →
      Stmt.variableCountOf o'.body.body ≤ m → EndsWithin (some o') m (checkStmts · o'.body.body))
    (htrail : Trail o.body.body (f :: path)) (hvalue : origin? f = some (.value value))
    (hn : Stmt.variableCountOf o.body.body ≤ n + path.length) :
    EndsWithin (some o) n (· value) := by
  have hlength := htrail.length_add_le hacyclic hvalue
  -- A level is used up for each field that the trail gets longer by, and the trail never takes all.
  induction n generalizing f path value with
  | zero => omega
  | succ n ih =>
    intro deeper deeper'
    apply parallel_checkExpr parallel_ends value value.region.marked_true
    intro a ha
    cases a with
    | own property =>
      rintro _ ⟨⟩
      refine ⟨o.marked_true, fun value' hvalue' => ?_⟩
      rw [originOf?, Option.bind_eq_some_iff] at hvalue'
      obtain ⟨g, hg, hvalue'⟩ := hvalue'
      have hmem := (htrail.fields f (List.mem_cons_self ..)).1
      have hdepends : DependsOn o.body.body f g :=
        ⟨hmem, ⟨value, property, hvalue, ha, hg⟩, value', hvalue'⟩
      have htrail' := htrail.cons hdepends
      have hn' : Stmt.variableCountOf o.body.body ≤ n + (f :: path).length := by
        rw [List.length_cons]
        omega
      exact ih htrail' hvalue' hn' (htrail'.length_add_le hacyclic hvalue') deeper deeper'
    | opens o' =>
      -- `this` is another one in there, and the trail begins anew: the variables of the class are
      -- among those of the value, which the bound on the trail has left out.
      have hmem : .opens o' ∈ Stmt.occurrencesOf o.body.body := by
        apply Stmt.occurrences_subset (htrail.fields f (List.mem_cons_self ..)).1
        rwa [occurrences_of_origin? hvalue]
      have hcount := (value.fits ha).count
      exact fun _ => hopens n o' hmem (by omega) deeper deeper'

/-- The body of a class has a level for each of its variables, and nested classes for theirs. -/
theorem endsWithin_body (hacyclic : o.Acyclic)
    (hinner : ∀ o', Declares o.body.body o' → o'.Acyclic)
    (hn : Stmt.variableCountOf o.body.body ≤ n) :
    EndsWithin (some o) n (checkStmts · o.body.body) := by
  -- On how classes are nested; a nested class may be met at any level of the one around it.
  induction hsize : sizeOf o.body using Nat.strong_induction_on generalizing o n with
  | _ size ih =>
    have hopens m (o' : OpenClass) (ho' : .opens o' ∈ Stmt.occurrencesOf o.body.body)
        (hm : Stmt.variableCountOf o'.body.body ≤ m) :
        EndsWithin (some o') m (checkStmts · o'.body.body) := by
      have hlt : sizeOf o'.body < size :=
        hsize ▸ (Stmt.fitsOf _ ho').size.trans (Block.sizeOf_body_lt o.body)
      exact ih _ hlt (hinner o' (.outer ho')) (fun o'' ho'' => hinner o'' (.inner ho' ho'')) hm rfl
    apply EndsWithin.of_occurrences
    · intro property _ o' value ho hvalue
      cases ho
      rw [originOf?, Option.bind_eq_some_iff] at hvalue
      obtain ⟨f, hf, hvalue⟩ := hvalue
      have htrail : Trail o.body.body [f] := .single (List.mem_of_find?_eq_some hf) hvalue
      exact endsWithin_value hacyclic hopens htrail hvalue hn
    · intro o' ho'
      exact hopens n o' ho' ((Stmt.fitsOf _ ho').count.trans hn)

/-- Outside of classes there is no `this`, so a program has enough levels if its classes do. -/
theorem endsWithin_program {program : Block} (h : program.Acyclic)
    (hn : Stmt.variableCountOf program.body ≤ n) :
    EndsWithin none n (checkStmts · program.body) := by
  apply EndsWithin.of_occurrences
  · intro _ _ _ _ ho
    cases ho
  · intro o ho
    exact endsWithin_body (h o (.outer ho)) (fun o' ho' => h o' (.inner ho ho'))
      ((Stmt.fitsOf _ ho).count.trans hn)

end Depth

/-- Where no field of a class depends on itself, the check of a program ends: fields are checked
again in no more levels than the program declares variables, so that it does not matter what would
be done below them, and none of them is taken to depend on itself. -/
theorem typecheck_ends {program : Block} (h : program.Acyclic) :
    (∀ n, Stmt.variableCountOf program.body ≤ n → ∀ deeper,
      checkStmts (nested deeper n) program.body .fresh = typecheck program) ∧
    ∀ d c, typecheck program = .error d c → d.fault ≠ .cyclicField := by
  have hends := endsWithin_program h (le_refl _)
  -- `maxRounds` levels are granted beyond the needed ones; the check does not come to them.
  have hrun : ∃ deeper, typecheck program =
      checkStmts (nested deeper (Stmt.variableCountOf program.body)) program.body .fresh := by
    refine ⟨checkNested maxRounds, ?_⟩
    rw [typecheck, checkBlock, withRereading]
    dsimp only [Context.fresh]
    rw [Nat.add_zero, Nat.add_comm, checkNested_eq_nested, checkNested_eq_nested, nested_add]
  obtain ⟨deeper', hrun⟩ := hrun
  constructor
  · intro n hn deeper
    obtain ⟨m, rfl⟩ := Nat.exists_eq_add_of_le' hn
    rw [hrun, nested_add]
    exact (hends _ _ .fresh rfl).1
  · rw [hrun]
    exact (hends deeper' deeper' .fresh rfl).2.report

/-- `class C { let a = 1; let b = this.a + this.a; function m(): int { return this.b; } }` -/
def doubled : OpenClass where
  name := "C"
  body := .mk
    [.varDecl "a" false none (some (.int 1 default)) default,
      .varDecl "b" false none
        (some (.binary default (ownMember "a" default default) (ownMember "a" default default)
          default)) default,
      .fnDecl "m" [] (some .int)
        (.mk [.ret (some (ownMember "b" default default)) default] default) default]
    default

theorem acyclic_doubled : doubled.Acyclic := by
  apply OpenClass.acyclic_of_rank fun f => if memberName? f = some "b" then 1 else 0
  rintro f g ⟨hf, ⟨value, property, hvalue, hproperty, hg⟩, -⟩
  simp only [doubled, Block.body, List.mem_cons, List.not_mem_nil, or_false] at hf
  -- Of the members, only `b` has a value that mentions another one.
  rcases hf with rfl | rfl | rfl
  · cases hvalue
    simp [Expr.occurrences] at hproperty
  · cases hvalue
    have hname : property = "a" := by
      simpa [Expr.occurrences, ownMember, Expr.memberOccurrences] using hproperty
    subst hname
    cases hg
    decide
  · cases hvalue

/-- A field that the value of another one mentions twice. -/
theorem typecheck_ends_doubled :
    (Block.mk [.classDecl "C" doubled.body default] default).Acyclic ∧
    ∃ c, typecheck (.mk [.classDecl "C" doubled.body default] default) = .ok () c ∧
      ∀ deeper, checkStmts (nested deeper 2) [.classDecl "C" doubled.body default] .fresh =
        .ok () c := by
  have hacyclic : (Block.mk [.classDecl "C" doubled.body default] default).Acyclic := by
    have hnone (o : OpenClass) : ¬ Declares doubled.body.body o := by
      rintro (h | ⟨h, -⟩) <;>
        simp [doubled, Block.body, Stmt.occurrencesOf, Stmt.occurrences, Expr.occurrences?,
          Expr.occurrences, ownMember, Expr.memberOccurrences] at h
    intro o ho
    rcases ho with h | ⟨h, hinner⟩ <;> cases List.mem_singleton.mp h
    · exact acyclic_doubled
    · exact absurd hinner (hnone o)
  refine ⟨hacyclic, _, rfl, ?_⟩
  intro deeper
  exact (typecheck_ends hacyclic).1 2 (by decide) deeper

end Typing

end Scriptlet
