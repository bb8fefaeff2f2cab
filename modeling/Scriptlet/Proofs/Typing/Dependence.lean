import Mathlib.Algebra.Order.BigOperators.Group.List
import Mathlib.Logic.Relation
import Scriptlet.Proofs.Typing.Field

/-!
Which fields of a class depend on which. A field without annotation has the type of its value, and
depends on the fields without annotation that its value mentions as members of `this`. In a class
nested in the value, `this` is another one. Where no field depends on itself, following dependences
comes across no field twice, so there are no more steps than variables.
-/
namespace Scriptlet

open Typing

/-- Neither field has an annotation, and the value of the first mentions a member of `this` that is
first declared by the second. -/
structure DependsOn (body : List Stmt) (f g : Stmt) : Prop where
  mem : f ∈ body
  mentions : ∃ value property, origin? f = some (.value value) ∧
    .own property ∈ value.occurrences ∧ body.find? (memberName? · == some property) = some g
  field : ∃ value, origin? g = some (.value value)

/-- No field depends on itself, be it by way of others. -/
def Typing.OpenClass.Acyclic (o : OpenClass) : Prop :=
  ∀ f, ¬ Relation.TransGen (DependsOn o.body.body) f f

/-- The class is declared in the statements, at any depth. -/
inductive Declares : List Stmt → OpenClass → Prop
  | outer {ss : List Stmt} {o : OpenClass} (h : .opens o ∈ Stmt.occurrencesOf ss) : Declares ss o
  | inner {ss : List Stmt} {o o' : OpenClass} (h : .opens o ∈ Stmt.occurrencesOf ss)
      (h' : Declares o.body.body o') : Declares ss o'

def Block.Acyclic (program : Block) : Prop := ∀ o, Declares program.body o → o.Acyclic

/-- No field depends on itself if each ranks above those that it depends on. -/
theorem Typing.OpenClass.acyclic_of_rank {o : OpenClass} (rank : Stmt → Nat)
    (h : ∀ f g, DependsOn o.body.body f g → rank g < rank f) : o.Acyclic := by
  intro f hf
  have hrank {g} (hg : Relation.TransGen (DependsOn o.body.body) f g) : rank g < rank f := by
    induction hg with
    | single hdepends => exact h _ _ hdepends
    | tail _ hdepends ih => exact (h _ _ hdepends).trans ih
  exact (hrank hf).false

theorem Stmt.variableCountOf_eq_sum (ss : List Stmt) :
    Stmt.variableCountOf ss = (ss.map Stmt.variableCount).sum := by
  induction ss with
  | nil => simp [Stmt.variableCountOf]
  | cons s ss ih => simp [Stmt.variableCountOf, ih]

section Trail

variable {body : List Stmt} {f g : Stmt} {path : List Stmt} {value : Expr}

/-- Fields without annotation, each of which depends on the next one, from the last back to the
first. -/
structure Trail (body path : List Stmt) : Prop where
  chain : path.IsChain (Function.swap (DependsOn body))
  fields : ∀ f ∈ path, f ∈ body ∧ ∃ value, origin? f = some (.value value)

theorem Trail.single (hmem : f ∈ body) (hvalue : origin? f = some (.value value)) :
    Trail body [f] := by
  refine ⟨.singleton f, ?_⟩
  intro f' hf'
  rw [List.mem_singleton] at hf'
  rw [hf']
  exact ⟨hmem, value, hvalue⟩

theorem Trail.cons (h : Trail body (f :: path)) (hdepends : DependsOn body f g) :
    Trail body (g :: f :: path) := by
  refine ⟨.cons_cons hdepends h.chain, ?_⟩
  -- What a member is first declared by is one of the members.
  obtain ⟨-, property, -, -, hfind⟩ := hdepends.mentions
  exact List.forall_mem_cons.mpr ⟨⟨List.mem_of_find?_eq_some hfind, hdepends.field⟩, h.fields⟩

/-- No field stands on it twice, since it would depend on itself. -/
theorem Trail.nodup (h : Trail body path)
    (hacyclic : ∀ f, ¬ Relation.TransGen (DependsOn body) f f) : path.Nodup := by
  -- Any two fields on the trail, not only neighbours, are related by the transitive closure.
  have hchain : path.IsChain (Relation.TransGen (Function.swap (DependsOn body))) :=
    h.chain.imp fun _ _ hdepends => .single hdepends
  refine hchain.pairwise.imp ?_
  rintro f _ hdepends rfl
  exact hacyclic f (Relation.transGen_swap.mp hdepends)

/-- Each field on it is a variable of the class, and the value of the last one has its own. -/
theorem Trail.length_add_le (h : Trail body (f :: path))
    (hacyclic : ∀ f, ¬ Relation.TransGen (DependsOn body) f f)
    (hvalue : origin? f = some (.value value)) :
    path.length + (1 + value.variableCount) ≤ Stmt.variableCountOf body := by
  -- The fields are distinct ones of the body, so their counts are part of the sum over the body.
  have hsub : (f :: path).Subperm body :=
    List.subperm_of_subset (h.nodup hacyclic) fun g hg => (h.fields g hg).1
  obtain ⟨between, hperm, hsublist⟩ := hsub
  have hsum : ((f :: path).map Stmt.variableCount).sum ≤ (body.map Stmt.variableCount).sum := by
    rw [← (hperm.map Stmt.variableCount).sum_eq]
    exact (hsublist.map Stmt.variableCount).sum_le_sum fun _ _ => Nat.zero_le _
  have hpath : (path.map Stmt.variableCount).length ≤ (path.map Stmt.variableCount).sum := by
    apply List.length_le_sum_of_one_le
    intro n hn
    obtain ⟨g, hg, rfl⟩ := List.mem_map.mp hn
    obtain ⟨-, e, he⟩ := h.fields g (List.mem_cons_of_mem _ hg)
    rw [variableCount_of_origin? he]
    exact Nat.le_add_right _ _
  rw [List.map_cons, List.sum_cons, variableCount_of_origin? hvalue] at hsum
  rw [List.length_map] at hpath
  rw [Stmt.variableCountOf_eq_sum]
  omega

end Trail

end Scriptlet
