import Scriptlet.Proofs.Syntax.Collecting
import Scriptlet.Proofs.Typing.Closed
import Scriptlet.Proofs.Typing.Speech
import Scriptlet.Proofs.Typing.Wording

namespace Scriptlet

/-- A class of this name is declared in the program, at whatever depth. -/
def Block.DeclaresClass (program : Block) (name : String) : Prop :=
  ∃ s ∈ program.nodes, s.className? = some name

/-- The check of the program can build the type: it is built from primitive types and from structs
of classes that the program declares. -/
def Block.Builds (program : Block) (t : Ty) : Prop :=
  t.BuiltFrom (· ∈ Ty.primitives) program.DeclaresClass

section Names

variable {source file file' : String} {program : Block} {cursor : Cursor}

/-- The names of classes are words, and none of the language. -/
theorem isWord_of_declaresClass (h : parse (tokenize source file).1 file' = .ok program cursor)
    {name : String} (hname : program.DeclaresClass name) :
    Lexeme.IsWord name ∧ Lexeme.IsName name := by
  obtain ⟨s, hs, hname⟩ := hname
  obtain ⟨hon, -⟩ := on_ofTokens source file file'
  obtain ⟨-, -, hall⟩ := Grammar.allRead_program _ file' _ hon program cursor h
  obtain ⟨c, c', hc, hrun⟩ := hall s hs
  have hmem : ∀ t ∈ c.rest, t ∈ (tokenize source file).1 := by
    intro t ht
    rw [← hc.tokens]
    exact List.mem_append_right _ ht
  have hproper : c.Proper := ⟨fun t ht => proper_tokenize source file t (hmem t ht), hc.ended⟩
  obtain ⟨ts, hts, -, hspelled⟩ := Grammar.takes_statement c hproper s c' hrun
  cases hspelled with
  | @classDecl body span word token a _ htoken _ =>
    -- The name stands in the source behind the word `class`, as a token of its own.
    cases hname
    have hrest : token ∈ c.rest := by
      rw [hts]
      exact List.mem_append_left _ (List.mem_cons_of_mem _ List.mem_cons_self)
    exact ⟨isWord_tokenize (hmem token hrest) htoken.kind, htoken.name⟩
  | _ => cases hname

/-- Of the primitive types only `void` can have its name taken by a class. -/
theorem eq_void_of_declaresClass (h : parse (tokenize source file).1 file' = .ok program cursor)
    {name : String} (hname : program.DeclaresClass name) (hprimitive : name ∈ Ty.primitives) :
    name = "void" := by
  have hall : ∀ name ∈ Ty.primitives, Lexeme.IsName name → name = "void" := by decide
  exact hall name hprimitive (isWord_of_declaresClass h hname).2

theorem isWord_of_mem_primitives : ∀ name ∈ Ty.primitives, Lexeme.IsWord name := by
  have hall : ∀ name ∈ Ty.primitives,
      name.toList ≠ [] ∧ name.toList.all Lexeme.isWordRest = true := by
    decide
  exact fun name hname => ⟨(hall name hname).1, List.all_eq_true.mp (hall name hname).2⟩

/-- Where `void` is no class, types that are written alike are the same. -/
theorem same_of_text_eq (h : parse (tokenize source file).1 file' = .ok program cursor)
    (hvoid : ¬ program.DeclaresClass "void") {t u : Ty} (ht : program.Builds t)
    (hu : program.Builds u) (htext : t.text = u.text) : (t == u) = true := by
  have hdisjoint : ∀ name ∈ Ty.primitives, ¬ program.DeclaresClass name := by
    intro name hprimitive hname
    rw [eq_void_of_declaresClass h hname hprimitive] at hname
    exact hvoid hname
  have hwords : ∀ name, program.DeclaresClass name → Lexeme.IsWord name :=
    fun name hname => (isWord_of_declaresClass h hname).1
  have hflat := Ty.flat_eq_of_text_eq isWord_of_mem_primitives hwords ht hu htext
  exact Ty.same_of_flat_eq hdisjoint t u ht hu hflat

end Names

namespace Typing

/-- The vocabulary of programs in writing that declare such classes. -/
def Vocabulary.ofClasses (declares : String → Prop) : Vocabulary where
  type := Ty.BuiltFrom (· ∈ Ty.primitives) declares
  annotation := Ty.Written
  declares := declares
  primitive _ hname := hname
  list := .rfl
  function := and_congr Ty.allBuiltFrom_iff .rfl
  member h := Ty.membersBuiltFrom_iff.mp h.2
  registered hname hmembers := ⟨hname, Ty.membersBuiltFrom_iff.mpr hmembers⟩
  annotation_list h := h
  annotation_function h := ⟨Ty.allBuiltFrom_iff.mp h.1, h.2⟩
  annotation_struct h := h.1.elim

theorem Vocabulary.fits_fresh (v : Vocabulary) : v.Fits {} Context.fresh where
  scope _ _ h := by simp [Context.fresh] at h
  returns _ h := by cases h
  classes _ _ h := by simp [Context.fresh] at h
  body _ h := by cases h
  others _ _ := rfl

/-- The check of a program in writing keeps to the types that are said to be built. -/
theorem keeps_typecheck {program : Block} (h : program.Written) :
    (Vocabulary.ofClasses program.DeclaresClass).Keeps {} Vocabulary.Any (typecheck program) := by
  have hadmits : (Vocabulary.ofClasses program.DeclaresClass).AdmitsStmts program.body := by
    refine ⟨h, fun s hs => ⟨fun name hname => ⟨s, ?_, hname⟩, False.elim⟩⟩
    rwa [Block.nodes_eq]
  obtain ⟨n, hrun⟩ := exists_checkBlock_run program Context.fresh
  rw [typecheck, hrun]
  exact Vocabulary.speaks_checkStmts (Vocabulary.speaks_checkNested n) program.body hadmits _
    (Vocabulary.fits_fresh _)

end Typing

open Typing

/-- Where a program without a class `void` has two types that do not match, the report shows two
types that the check builds and that differ, and their texts differ. Moreover, of all types that can
be built only those are written alike that are the same, and only such types are known in the end. -/
theorem texts_ne_of_typecheck {source file file' : String} {program : Block} {cursor : Cursor}
    (h : parse (tokenize source file).1 file' = .ok program cursor)
    (hvoid : ¬ program.DeclaresClass "void") :
    (∀ d c, typecheck program = .error d c → ∀ expected received,
      d.fault.texts? = some (expected, received) → expected ≠ received ∧
        ∃ t u, program.Builds t ∧ program.Builds u ∧ (t == u) = false ∧
          expected = t.text ∧ received = u.text) ∧
    (∀ t u, program.Builds t → program.Builds u → (t.text = u.text ↔ (t == u) = true)) ∧
    (∀ (name : String) (s : Typing.Symbol), (stateAfter (typecheck program)).scope[name]? = some s →
      program.Builds s.type) ∧
    ∀ (name : String) (t : Ty), (stateAfter (typecheck program)).classes[name]? = some t →
      program.Builds t := by
  have hkeeps := keeps_typecheck (written_of_parse h)
  have hfits := hkeeps.fits
  refine ⟨?_, fun t u ht hu => ?_, hfits.scope, hfits.classes⟩
  · intro d c hfail expected received htexts
    rw [hfail] at hkeeps
    obtain ⟨t, u, ht, hu, hne, rfl, rfl⟩ := hkeeps.explains expected received htexts
    refine ⟨fun htext => ?_, t, u, ht, hu, hne, rfl, rfl⟩
    rw [same_of_text_eq h hvoid ht hu htext] at hne
    cases hne
  · exact ⟨same_of_text_eq h hvoid ht hu, Ty.text_eq_of_same⟩

/-- A list of one class where one of another class is expected. -/
theorem texts_ne_of_typecheck_lists :
    ∃ program cursor d c,
      parse (tokenize "class A \x7b\x7d class B \x7b\x7d function f(a: []A) \x7b\x7d f([new B()]);"
        "f").1 "f" = .ok program cursor ∧
      ¬ program.DeclaresClass "void" ∧ typecheck program = .error d c ∧
      d.fault.texts? = some ("[]A", "[]B") ∧ "[]A" ≠ "[]B" := by
  have hrun : (match parse (tokenize
        "class A \x7b\x7d class B \x7b\x7d function f(a: []A) \x7b\x7d f([new B()]);" "f").1 "f" with
      | .ok program _ => program.nodes.all (·.className? ≠ some "void") &&
        (errorOf? (typecheck program)).bind (·.fault.texts?) = some ("[]A", "[]B")
      | .error _ _ => false) = true := by
    decide +kernel
  split at hrun
  · rename_i program cursor h
    obtain ⟨hclasses, hshown⟩ := Bool.and_eq_true_iff.mp hrun
    have hvoid : ¬ program.DeclaresClass "void" := by
      rintro ⟨s, hs, hname⟩
      exact of_decide_eq_true (List.all_eq_true.mp hclasses s hs) hname
    obtain ⟨d, herror, htexts⟩ := Option.bind_eq_some_iff.mp (of_decide_eq_true hshown)
    obtain ⟨c, hfail⟩ := exists_eq_error herror
    refine ⟨program, cursor, d, c, h, hvoid, hfail, htexts, ?_⟩
    exact ((texts_ne_of_typecheck h hvoid).1 d c hfail _ _ htexts).1
  · cases hrun

-- A class may take the name `void`, but an annotation never stands for it.
example : (match parse (tokenize "class void \x7b\x7d let v: void = new void();" "f").1 "f" with
    | .ok program _ => (errorOf? (typecheck program)).map (·.fault)
    | .error _ _ => none) = some (.typeMismatch "void" "void") := by
  decide +kernel

end Scriptlet
