import Scriptlet.Proofs.Typing.Lockstep
import Scriptlet.Proofs.Typing.Scoping
import Scriptlet.Proofs.Typing.Surroundings
import Scriptlet.Proofs.Typing.Written

namespace Scriptlet

/-- The classes that a program declares, also in nested bodies. -/
def Block.introduced (program : Block) : List String :=
  Event.introducedIn (Stmt.outlineOf program.body)

/-- There is no import statement in the program. -/
def Block.ImportFree (program : Block) : Prop :=
  Stmt.EveryOf (fun _ => True) False program.body

section Outline

mutual

/-- A name that a statement declares is declared in its outline. -/
theorem Stmt.exists_declares (s : Stmt) {name : String} (h : name ∈ s.declared) :
    ∃ constant, .declares name constant ∈ s.outline := by
  match s with
  | .block (.mk body _) => exact Stmt.exists_declares_of body h
  | .varDecl other constant type value _ =>
    obtain rfl := List.mem_singleton.mp h
    exact ⟨constant, by simp [Stmt.outline]⟩
  | .fnDecl other parameters result (.mk body _) _ =>
    obtain rfl := List.mem_singleton.mp h
    exact ⟨true, by simp [Stmt.outline]⟩
  | .branch condition (.mk body _) otherwise _ =>
    rw [Stmt.outline]
    rcases List.mem_append.mp h with h | h
    · obtain ⟨constant, hmem⟩ := Stmt.exists_declares_of body h
      exact ⟨constant, List.mem_append_right _ (List.mem_append_left _ hmem)⟩
    · obtain ⟨constant, hmem⟩ := Stmt.exists_declares? otherwise h
      exact ⟨constant, List.mem_append_right _ (List.mem_append_right _ hmem)⟩
  | .loop init condition post body _ =>
    rw [Stmt.outline]
    rcases List.mem_append.mp h with h | h
    · obtain ⟨constant, hmem⟩ := Stmt.exists_declares? init h
      exact ⟨constant, List.mem_append_left _ hmem⟩
    · obtain ⟨constant, hmem⟩ := Stmt.exists_declares body h
      exact ⟨constant, by simp [hmem]⟩
  | .expression .. | .classDecl .. | .ret .. | .importDecl .. => cases h

theorem Stmt.exists_declares? (s : Option Stmt) {name : String} (h : name ∈ Stmt.declared? s) :
    ∃ constant, .declares name constant ∈ Stmt.outline? s := by
  match s with
  | none => cases h
  | some s => exact Stmt.exists_declares s h

theorem Stmt.exists_declares_of (ss : List Stmt) {name : String}
    (h : name ∈ Stmt.declaredOf ss) :
    ∃ constant, .declares name constant ∈ Stmt.outlineOf ss := by
  match ss with
  | [] => cases h
  | s :: ss =>
    rw [Stmt.outlineOf]
    rcases List.mem_append.mp h with h | h
    · obtain ⟨constant, hmem⟩ := Stmt.exists_declares s h
      exact ⟨constant, List.mem_append_left _ hmem⟩
    · obtain ⟨constant, hmem⟩ := Stmt.exists_declares_of ss h
      exact ⟨constant, List.mem_append_right _ hmem⟩

end

end Outline

namespace Typing

open Comparison

/-- Programs have been checked one after another, at top level. Each may have been rejected. -/
inductive Session : Context → Prop
  | fresh : Session .fresh
  | next {c : Context} (h : Session c) (b : Block) : Session (stateAfter (checkBlock b c))

/-- Between programs, the check is in no function and no class. -/
theorem Session.topLevel {c : Context} (h : Session c) :
    c.returns = .topLevel ∧ c.enclosing = none := by
  induction h with
  | fresh => exact ⟨rfl, rfl⟩
  | @next c _ b ih =>
    have hkeeps : Context.Keeps _ c (stateAfter (checkBlock b c)) :=
      moves_checkStmts framing_keeps (moves_checkNested framing_keeps _) b.body c
    exact ⟨hkeeps.returns.trans ih.1, hkeeps.enclosing.trans ih.2⟩

/-- At top level, how deep fields are checked again depends on the program only. -/
theorem exists_run_at_topLevel (program : Block) : ∃ n, ∀ c : Context, c.enclosing = none →
    checkBlock program c = checkStmts (checkNested n) program.body c := by
  refine ⟨Stmt.variableCountOf program.body + 0 + maxRounds, fun c hc => ?_⟩
  rw [checkBlock, withRereading, hc]

/-- The comparison by equality, where the second check begins with these classes. -/
def byEquality (classes : Classes) : Comparison where
  strict := False
  leaf _ := True
  given _ := False
  around := classes
  primitive _ _ := trivial
  struct _ _ h := h.1.elim
  alone h := h.elim

theorem related_of_session {c : Context} (h : Session c) :
    (byEquality c.classes).Related c.scope .fresh c where
  scope name := by simp [Context.fresh, Beside]
  returns := h.topLevel.1 ▸ .topLevel
  enclosing := h.topLevel.2
  opened := nofun
  imported := nofun
  modules := nofun
  classes name := by simp [Context.fresh, Beside, byEquality]
  given := nofun
  alone := nofun

section Declared

variable {program : Block} {c : Context}

/-- An accepted program leaves the names in scope that it declares, and no others. -/
theorem mem_scope_iff_of_typecheck (h : typecheck program = .ok () c) (name : String) :
    name ∈ c.scope ↔ name ∈ Stmt.declaredOf program.body := by
  constructor
  · intro hname
    by_contra hnot
    have hgrows := (steady_checkStmts (steady_checkNested _) program.body).of_ok h
    have hnone : c.scope[name]? = none := (hgrows.others name hnot).trans (by simp [Context.fresh])
    simp [Std.TreeMap.mem_iff_isSome_getElem?, hnone] at hname
  · intro hname
    have hpasses := follows_checkStmts (follows_checkNested _) program.body _ () c h
    -- The declaration has been passed on the way through the outline, and its body has not been
    -- left since.
    obtain ⟨p, haccepts, hreflects⟩ := hpasses.accepts .start Context.reflects_fresh
    obtain ⟨hdeclared, -⟩ := haccepts.frame
    obtain ⟨constant, hevent⟩ := Stmt.exists_declares_of program.body hname
    have hmem : (name, constant) ∈ p.declared := by
      rw [hdeclared]
      refine List.mem_append_left _ (List.mem_reverse.mpr ?_)
      exact List.mem_filterMap.mpr ⟨_, hevent, rfl⟩
    have hlookup : p.declared.lookup name ≠ none := by
      intro hnone
      have hne := List.lookup_eq_none_iff.mp hnone (name, constant) hmem
      simp at hne
    rw [← hreflects.declared name] at hlookup
    rw [Std.TreeMap.mem_iff_isSome_getElem?]
    cases hs : c.scope[name]? with
    | none => exact absurd (by rw [hs]; rfl) hlookup
    | some s => rfl

theorem mem_classes_iff_of_typecheck (h : typecheck program = .ok () c) (name : String) :
    name ∈ c.classes ↔ name ∈ program.introduced := by
  have hpasses := follows_checkStmts (follows_checkNested _) program.body _ () c h
  constructor
  · intro hname
    rcases hpasses.classes name hname with hfresh | hnew | hahead
    · simp [Context.fresh] at hfresh
    · exact hnew
    · cases hahead
  · exact fun hname => hpasses.known name (.inr hname)

end Declared

/-- A program without import statements that is accepted on its own is accepted behind any others.
The names and the classes that it declares are then what they are without those, and all the others
are what they were before. Its annotations are as in every program that is read from a text, by
`written_of_parse`. -/
theorem accepted_behind {program : Block} {c d : Context} (hwritten : program.Written)
    (himports : program.ImportFree) (haccepted : typecheck program = .ok () c) (hd : Session d) :
    ∃ d', checkBlock program d = .ok () d' ∧
      (∀ name ∈ Stmt.declaredOf program.body, ∃ s : Symbol,
        c.scope[name]? = some s ∧ d'.scope[name]? = some s) ∧
      (∀ name ∈ program.introduced, ∃ t : Ty,
        c.classes[name]? = some t ∧ d'.classes[name]? = some t) ∧
      (∀ name, name ∉ Stmt.declaredOf program.body → d'.scope[name]? = d.scope[name]?) ∧
      ∀ name, name ∉ program.introduced → d'.classes[name]? = d.classes[name]? := by
  have hevery : Stmt.EveryOf (byEquality d.classes).Permits False program.body :=
    Stmt.everyOf_of_both (fun _ h _ => h) (fun _ h => h) program.body hwritten himports
  obtain ⟨n, hrun⟩ := exists_run_at_topLevel program
  have hagree := agree_checkStmts (agreeing_checkNested (byEquality d.classes) n) program.body
    hevery (related_of_session hd)
  have haccepted' : checkBlock program .fresh = .ok () c := haccepted
  rw [← hrun .fresh rfl, ← hrun d hd.topLevel.2, haccepted'] at hagree
  generalize checkBlock program d = result at hagree
  cases hagree with
  | @ok _ _ _ d' h =>
    -- On its own the program is checked where nothing is known, so what is known in the end is
    -- what it declares.
    refine ⟨d', rfl, fun name hname => ?_, fun name hname => ?_, fun name hname => ?_,
      fun name hname => ?_⟩
    · rw [← mem_scope_iff_of_typecheck haccepted, Std.TreeMap.mem_iff_isSome_getElem?,
        Option.isSome_iff_exists] at hname
      obtain ⟨s, hs⟩ := hname
      obtain ⟨s', hs', hsame⟩ := (h.scope name).left hs
      exact ⟨s, hs, hsame.eq id ▸ hs'⟩
    · rw [← mem_classes_iff_of_typecheck haccepted, Std.TreeMap.mem_iff_isSome_getElem?,
        Option.isSome_iff_exists] at hname
      obtain ⟨t, ht⟩ := hname
      obtain ⟨t', ht', hsame⟩ := (h.classes name).left ht
      exact ⟨t, ht, hsame.eq id ▸ ht'⟩
    · rw [← mem_scope_iff_of_typecheck haccepted] at hname
      exact (h.scope name).eq_other (Std.TreeMap.getElem?_eq_none hname)
    · rw [← mem_classes_iff_of_typecheck haccepted] at hname
      exact (h.classes name).eq_other (Std.TreeMap.getElem?_eq_none hname)

/-- `class P { let x = y; }` -/
def faulty : Block :=
  .mk [.classDecl "P" (.mk [.varDecl "x" false none (some (.symbol "y" default)) default] default)
    default] default

/-- `class P { let x = 1; } let p = new P();` -/
def correct : Block :=
  .mk [.classDecl "P" (.mk [.varDecl "x" false none (some (.int 1 default)) default] default)
    default, .varDecl "p" false none (some (.construct "P" [] default)) default] default

/-- The first program is rejected in the middle of its class, which is known from then on without
its members. The second program is accepted nevertheless. -/
theorem accepted_behind_faulty :
    ∃ x c d d', typecheck faulty = .error x d ∧ d.classes["P"]? = some (.struct "P" []) ∧
      typecheck correct = .ok () c ∧ checkBlock correct d = .ok () d' ∧
      (∃ t : Ty, c.classes["P"]? = some t ∧ d'.classes["P"]? = some t) ∧
      ∃ s : Symbol, c.scope["p"]? = some s ∧ d'.scope["p"]? = some s := by
  let d := stateAfter (typecheck faulty)
  let c := stateAfter (typecheck correct)
  have hwritten : correct.Written := by
    simp [Block.Written, correct, Block.body, Stmt.EveryOf, Stmt.Every, Expr.Every?, Expr.Every,
      Expr.EveryOf]
  have himports : correct.ImportFree := by
    simp [Block.ImportFree, correct, Block.body, Stmt.EveryOf, Stmt.Every, Expr.Every?, Expr.Every,
      Expr.EveryOf]
  have hsession : Session d := .next .fresh faulty
  have haccepted : typecheck correct = .ok () c := rfl
  obtain ⟨d', hrun, hnames, hclasses, -⟩ :=
    accepted_behind hwritten himports haccepted hsession
  exact ⟨_, c, d, d', rfl, rfl, haccepted, hrun, hclasses "P" (by decide), hnames "p" (by decide)⟩

/-- `class D {}` -/
def empty : Block := .mk [.classDecl "D" (.mk [] default) default] default

/-- `let x: D; x.a;`, where the annotation is not the name but the struct `D {a: int}` itself. -/
def annotated : Block :=
  .mk [.varDecl "x" false (some (.struct "D" [("a", .int)])) none default,
    .expression (.member (.symbol "x" default) "a" default) default] default

/-- A struct in an annotation is taken for the class of its name, if there is one, so such a program
is accepted on its own and rejected behind that class. -/
theorem annotated_rejected_behind_class :
    annotated.ImportFree ∧ ∃ c d x d', typecheck annotated = .ok () c ∧
      typecheck empty = .ok () d ∧ Session d ∧ checkBlock annotated d = .error x d' := by
  have himports : annotated.ImportFree := by
    simp [Block.ImportFree, annotated, Block.body, Stmt.EveryOf, Stmt.Every, Expr.Every?,
      Expr.Every]
  have hsession : Session (stateAfter (typecheck empty)) := .next .fresh empty
  exact ⟨himports, stateAfter (typecheck annotated), stateAfter (typecheck empty), _, _, rfl, rfl,
    hsession, rfl⟩

end Typing

end Scriptlet
