import Scriptlet.Proofs.Typing.Dependence

namespace Scriptlet

open Typing

/-- The modules that a program imports, at any depth and in textual order. -/
def Block.imports (program : Block) : List String := Stmt.importsOf program.body

/-- The module is imported in the value of a field without annotation that the class mentions as a
member of `this`. -/
def Typing.OpenClass.ImportsAgain (o : OpenClass) (name : String) : Prop :=
  ∃ property value, .own property ∈ Stmt.occurrencesOf o.body.body ∧
    originOf? property o.body.body = some (.value value) ∧ name ∈ value.imports

theorem Declares.trans {ss : List Stmt} {o o' : OpenClass} (h : Declares ss o)
    (h' : Declares o.body.body o') : Declares ss o' := by
  induction h with
  | outer h => exact .inner h h'
  | inner h _ ih => exact .inner h (ih h')

namespace Typing

variable {α β : Type}

section Fresh

variable {K : String → Prop} {opened : Option OpenClass} {names names' : List String}

/-- The check comes out in the class. Beyond the names and those that are excepted it has imported
nothing, and it is not refused for any other module. -/
structure ImportsOnly (K : String → Prop) (opened : Option OpenClass) (names : List String)
    (c : Context) (result : EStateM.Result Diagnostic Context α) : Prop where
  enclosing : (stateAfter result).enclosing = opened
  imported : ∀ n ∈ (stateAfter result).imported, n ∈ c.imported ∨ n ∈ names ∨ K n
  fault : ∀ d c', result = .error d c' → ∀ n, d.fault = .moduleImported n → K n

/-- Begun in the class, where none of the names has been imported, the check imports no more than
these, each of them once. Some modules are excepted from all that. -/
def Fresh (K : String → Prop) (opened : Option OpenClass) (names : List String) (x : Check α) :
    Prop :=
  names.Pairwise (fun a b => a = b → K a) → ∀ c : Context, c.enclosing = opened →
    (∀ n ∈ names, n ∈ c.imported → K n) → ImportsOnly K opened names c (x c)

theorem Fresh.bind {x : Check α} {f : α → Check β} (hx : Fresh K opened names x)
    (hf : ∀ a, Fresh K opened names' (f a)) : Fresh K opened (names ++ names') (x >>= f) := by
  intro hdistinct c hc hnew
  obtain ⟨hnames, hnames', hcross⟩ := List.pairwise_append.mp hdistinct
  have hfirst := hx hnames c hc fun n hn => hnew n (List.mem_append_left _ hn)
  cases hrun : x c with
  | ok a d =>
    rw [hrun] at hfirst
    -- What the second step imports is neither among what was there before nor among the names of
    -- the first.
    have hsecond := hf a hnames' d hfirst.enclosing fun n hn himported => by
      rcases hfirst.imported n himported with h | h | h
      · exact hnew n (List.mem_append_right _ hn) h
      · exact hcross n h n hn rfl
      · exact h
    rw [bind_run_ok hrun]
    refine ⟨hsecond.enclosing, fun n hn => ?_, hsecond.fault⟩
    rcases hsecond.imported n hn with h | h | h
    · exact (hfirst.imported n h).imp_right (.imp_left (List.mem_append_left _))
    · exact .inr (.inl (List.mem_append_right _ h))
    · exact .inr (.inr h)
  | error e d =>
    rw [hrun] at hfirst
    rw [bind_run_error hrun]
    refine ⟨hfirst.enclosing, fun n hn => ?_, fun d' c' herror => ?_⟩
    · exact (hfirst.imported n hn).imp_right (.imp_left (List.mem_append_left _))
    · cases herror
      exact hfirst.fault e d rfl

theorem Fresh.get {f : Context → Check α}
    (hf : ∀ c, c.enclosing = opened → Fresh K opened names (f c)) :
    Fresh K opened names (MonadState.get >>= f) :=
  fun hdistinct c hc hnew => hf c hc hdistinct c hc hnew

/-- The check leaves class and modules as they are, and has no fault with a module. -/
theorem fresh_of_run {x : Check α} (hx : ∀ c, ImportsOnly K c.enclosing [] c (x c)) :
    Fresh K opened [] x := by
  rintro - c rfl -
  exact hx c

theorem fresh_modify {f : Context → Context} (henclosing : ∀ c, (f c).enclosing = c.enclosing)
    (himported : ∀ c, (f c).imported = c.imported) : Fresh K opened [] (modify f) := by
  refine fresh_of_run fun c => ⟨henclosing c, fun n hn => .inl ?_, fun _ _ h => nomatch h⟩
  rw [← himported c]
  exact hn

theorem fresh_throw {d : Diagnostic} (hd : ∀ n, d.fault ≠ .moduleImported n) :
    Fresh K opened [] (throw d : Check α) := by
  refine fresh_of_run fun _ => ⟨rfl, fun _ hn => .inl hn, ?_⟩
  rintro _ _ ⟨⟩ n hn
  exact absurd hn (hd n)

theorem reading_fresh : Reading (fun _ => True) fun _ x => Fresh K opened [] x where
  pure _ := fresh_of_run fun _ => ⟨rfl, fun _ hn => .inl hn, fun _ _ h => nomatch h⟩
  throw _ hd _ := fresh_throw hd.ne_moduleImported
  get hf := Fresh.get fun c _ => hf c
  bind := Fresh.bind

theorem fresh_checkImport (name : String) (position : Position) :
    Fresh K opened [name] (checkImport name position) := by
  intro _ c hc hnew
  rw [List.forall_mem_singleton] at hnew
  rw [checkImport, get_bind_run]
  split
  · rename_i himported
    refine ⟨hc, fun n hn => .inl hn, ?_⟩
    rintro _ _ ⟨⟩ _ ⟨⟩
    exact hnew himported
  · split
    · refine ⟨hc, fun n hn => ?_, ?_⟩
      · rcases Std.TreeSet.mem_insert.mp hn with h | h
        · exact .inr (.inl (List.mem_singleton.mpr (Std.LawfulEqCmp.eq_of_compare h).symm))
        · exact .inl h
      · rintro _ _ ⟨⟩
    · refine ⟨hc, fun n hn => .inl hn, ?_⟩
      rintro _ _ ⟨⟩ _ ⟨⟩

theorem Fresh.inFunction {x : Check α} (h : Fresh K opened names x) (scope : Scope)
    (result : Option Ty) : Fresh K opened names (inFunction scope result x) := by
  intro hdistinct c hc hnew
  obtain ⟨henclosing, himported, hfault⟩ :=
    h hdistinct { c with scope, returns := .function result } hc hnew
  rw [inFunction_run]
  cases hrun : x { c with scope, returns := .function result } with
  | ok a d =>
    rw [hrun] at henclosing himported
    exact ⟨henclosing, himported, fun _ _ h => nomatch h⟩
  | error e d =>
    rw [hrun] at henclosing himported
    refine ⟨henclosing, himported, ?_⟩
    rintro _ _ ⟨⟩
    exact hfault e d hrun

/-- The class around a nested one comes back. -/
theorem Fresh.inClass {o : OpenClass} {x : Check Unit} (h : Fresh K (some o) names x) :
    Fresh K opened names (inClass o x) := by
  intro hdistinct c hc hnew
  obtain ⟨-, himported, hfault⟩ :=
    h hdistinct { c with scope := {}, enclosing := some o } rfl hnew
  rw [inClass_run]
  cases hrun : x { c with scope := {}, enclosing := some o } with
  | ok a d =>
    rw [hrun] at himported
    exact ⟨hc, himported, fun _ _ h => nomatch h⟩
  | error e d =>
    rw [hrun] at himported
    refine ⟨hc, himported, ?_⟩
    rintro _ _ ⟨⟩
    exact hfault e d hrun

theorem Fresh.widen {x : Check α} (h : Fresh K opened [] x) : Fresh K opened names x := by
  intro _ c hc _
  obtain ⟨henclosing, himported, hfault⟩ := h .nil c hc fun _ hn => nomatch hn
  refine ⟨henclosing, fun n hn => (himported n hn).imp_right ?_, hfault⟩
  exact .inr ∘ (Or.resolve_left · List.not_mem_nil)

theorem parallel_fresh : Parallel (fun _ => True) fun opened _ names _ x _ =>
    Fresh K opened names x where
  reading _ _ := reading_fresh
  get := Fresh.get
  bind := Fresh.bind
  widen _ := Fresh.widen
  mono h _ := h
  declare _ _ _ := fresh_modify (fun _ => rfl) fun _ => rfl
  registerClass _ _ := fresh_modify (fun _ => rfl) fun _ => rfl
  imports name position _ := fresh_checkImport name position
  function scope result h := h.inFunction scope result
  members := Fresh.inClass

/-- What the occurrence leads to in the class imports no more than it says, and a field's value
nothing but what is excepted. -/
abbrev FreshOn (K : String → Prop) (reread : Expr → Check Ty) (opened : Option OpenClass)
    (a : Occurrence) : Prop :=
  RelatedOn (fun _ => True) (fun opened _ names _ x _ => Fresh K opened names x) reread reread
    opened a

theorem fresh_checkExpr {reread : Expr → Check Ty} (e : Expr)
    (h : ∀ a ∈ e.occurrences, FreshOn K reread opened a) :
    Fresh K opened e.imports (checkExpr reread e) :=
  parallel_checkExpr parallel_fresh e e.region.marked_true h

theorem fresh_checkStmts {reread : Expr → Check Ty} (ss : List Stmt)
    (h : ∀ a ∈ Stmt.occurrencesOf ss, FreshOn K reread opened a) :
    Fresh K opened (Stmt.importsOf ss) (checkStmts reread ss) :=
  parallel_checkStmts parallel_fresh ss (fun r _ => r.marked_true) h

/-- If only excepted modules are imported, the check might as well be done again. -/
theorem Fresh.again {x : Check α} (h : Fresh K opened names x) (hnames : ∀ n ∈ names, K n) :
    Fresh K opened [] x := by
  intro _ c hc _
  have hdistinct : names.Pairwise fun a b => a = b → K a :=
    List.pairwise_of_forall_mem_list fun a ha _ _ _ => hnames a ha
  obtain ⟨henclosing, himported, hfault⟩ := h hdistinct c hc fun n hn _ => hnames n hn
  refine ⟨henclosing, fun n hn => (himported n hn).imp_right ?_, hfault⟩
  exact fun h => .inr (h.elim (hnames n) id)

end Fresh

section Levels

variable {K : String → Prop} {ss : List Stmt} {reread : Expr → Check Ty}

/-- The values of the fields that classes in the statements mention can be checked again there. -/
def Rereadable (K : String → Prop) (ss : List Stmt) (reread : Expr → Check Ty) : Prop :=
  ∀ o, Declares ss o → ∀ property value, .own property ∈ Stmt.occurrencesOf o.body.body →
    originOf? property o.body.body = some (.value value) → Fresh K (some o) [] (reread value)

theorem Rereadable.fresh_body (h : Rereadable K ss reread) {o : OpenClass} (ho : Declares ss o) :
    Fresh K (some o) (Stmt.importsOf o.body.body) (checkStmts reread o.body.body) := by
  -- On how classes are nested.
  induction hsize : sizeOf o.body using Nat.strong_induction_on generalizing o with
  | _ size ih =>
    refine fresh_checkStmts _ fun a ha => ?_
    cases a with
    | own property =>
      rintro _ ⟨⟩
      exact ⟨o.marked_true, fun value hvalue => h o ho property value ha hvalue⟩
    | opens o' =>
      have hlt : sizeOf o'.body < size :=
        hsize ▸ (Stmt.fitsOf _ ha).size.trans (Block.sizeOf_body_lt o.body)
      exact fun _ => ih _ hlt (ho.trans (.outer ha)) rfl

/-- If all that the values of such fields import is excepted, they can be checked again at every
level. -/
theorem rereadable_checkNested (hK : ∀ o, Declares ss o → ∀ name, o.ImportsAgain name → K name)
    (n : Nat) : Rereadable K ss (checkNested n) := by
  induction n with
  | zero => exact fun _ _ _ _ _ _ => fresh_throw fun _ => nofun
  | succ n ih =>
    intro o ho property value hproperty hvalue
    have himports : ∀ name ∈ value.imports, K name := fun name hname =>
      hK o ho name ⟨property, value, hproperty, hvalue, hname⟩
    rw [originOf?, Option.bind_eq_some_iff] at hvalue
    obtain ⟨f, hf, hvalue⟩ := hvalue
    -- What occurs in the value occurs in the class.
    have hsubset : value.occurrences ⊆ Stmt.occurrencesOf o.body.body := by
      rw [← occurrences_of_origin? hvalue]
      exact Stmt.occurrences_subset (List.mem_of_find?_eq_some hf)
    refine Fresh.again ?_ himports
    refine fresh_checkExpr value fun a ha => ?_
    cases a with
    | own property' =>
      rintro _ ⟨⟩
      exact ⟨o.marked_true, fun value' hvalue' => ih o ho property' value' (hsubset ha) hvalue'⟩
    | opens o' => exact fun _ => ih.fresh_body (ho.trans (.outer (hsubset ha)))

end Levels

/-- If a program that imports each module in one place only is refused because a module is imported
already, a class mentions a field whose value imports it. -/
theorem importsAgain_of_typecheck {program : Block} (hdistinct : program.imports.Nodup)
    {name : String} {position : Position} {c : Context}
    (h : typecheck program = .error ⟨.moduleImported name, position⟩ c) :
    ∃ o, Declares program.body o ∧ o.ImportsAgain name := by
  let K (name : String) : Prop := ∃ o, Declares program.body o ∧ o.ImportsAgain name
  have hlevels n : Rereadable K program.body (checkNested n) :=
    rereadable_checkNested (fun o ho name hname => ⟨o, ho, hname⟩) n
  have hcheck n : Fresh K none program.imports (checkStmts (checkNested n) program.body) := by
    refine fresh_checkStmts _ fun a ha => ?_
    cases a with
    | own => exact fun _ ho => nomatch ho
    | opens o => exact fun _ => (hlevels n).fresh_body (.outer ha)
  have hnames : program.imports.Pairwise fun a b => a = b → K a :=
    hdistinct.imp fun hne heq => absurd heq hne
  exact (hcheck _ hnames .fresh rfl fun _ _ h => by simp [Context.fresh] at h).fault _ c h name rfl

/-- `class C { let f = function() { import math; }; function m() { this.f; } }` -/
def importer : Block := .mk
  [.classDecl "C" (.mk
    [.varDecl "f" false none
      (some (.function [] none [.importDecl "math" none default] default)) default,
    .fnDecl "m" [] none (.mk [.expression (ownMember "f" default default) default] default) default]
    default) default] default

/-- The value of `f` is checked where `f` is declared, and again where `m` mentions it. -/
theorem importsAgain_of_typecheck_method :
    importer.imports.Nodup ∧ ∃ c,
      typecheck importer = .error ⟨.moduleImported "math", default⟩ c ∧
      ∃ o, Declares importer.body o ∧ o.ImportsAgain "math" := by
  have hdistinct : importer.imports.Nodup := by decide
  exact ⟨hdistinct, _, rfl, importsAgain_of_typecheck hdistinct rfl⟩

end Typing

end Scriptlet
