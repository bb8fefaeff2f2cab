import Scriptlet.Proofs.Typing.Frame

namespace Scriptlet.Typing

/-- What is kept of the first context where these names are declared. -/
structure Context.Keeps (names : List String) (c d : Context) : Prop where
  returns : d.returns = c.returns
  enclosing : d.enclosing = c.enclosing
  modules : d.modules = c.modules
  imported : ∀ name, name ∈ c.imported → name ∈ d.imported
  classes : ∀ name, name ∈ c.classes → name ∈ d.classes
  scope : ∀ name, name ∈ c.scope → name ∈ d.scope
  others : ∀ name, name ∉ names → d.scope[name]? = c.scope[name]?
  untouched : names = [] → d.scope = c.scope

namespace Context.Keeps

variable {names names' : List String} {b c d : Context}

theorem refl (names : List String) (c : Context) : c.Keeps names c :=
  ⟨rfl, rfl, rfl, fun _ h => h, fun _ h => h, fun _ h => h, fun _ _ => rfl, fun _ => rfl⟩

theorem trans (h : b.Keeps names c) (h' : c.Keeps names d) : b.Keeps names d where
  returns := h'.returns.trans h.returns
  enclosing := h'.enclosing.trans h.enclosing
  modules := h'.modules.trans h.modules
  imported name hname := h'.imported name (h.imported name hname)
  classes name hname := h'.classes name (h.classes name hname)
  scope name hname := h'.scope name (h.scope name hname)
  others name hname := (h'.others name hname).trans (h.others name hname)
  untouched hnames := (h'.untouched hnames).trans (h.untouched hnames)

theorem mono (h : c.Keeps names d) (hnames : names ⊆ names') : c.Keeps names' d :=
  { h with
    others := fun name hname => h.others name fun hmem => hname (hnames hmem)
    untouched := fun hnil => h.untouched (List.subset_nil.mp (hnil ▸ hnames)) }

end Context.Keeps

theorem framing_keeps : Framing Context.Keeps where
  refl c := .refl [] c
  enclosing h := h.enclosing
  trans := .trans
  mono := .mono
  declare name symbol c :=
    have hgrows := framing_grows.declare name symbol c
    { Context.Keeps.refl [name] c with
      scope := hgrows.scope
      others := hgrows.others
      untouched := nofun }
  registerClass _ _ c := { Context.Keeps.refl [] c with
    classes := fun _ h => Std.TreeMap.mem_insert.mpr (.inr h) }
  imports _ c := { Context.Keeps.refl [] c with
    imported := fun _ h => Std.TreeSet.mem_insert.mpr (.inr h) }
  function {_ _ _ c _} h := { Context.Keeps.refl [] c with
    enclosing := h.enclosing
    modules := h.modules
    imported := h.imported
    classes := h.classes }
  members {_ _ c _} h := { Context.Keeps.refl [] c with
    returns := h.returns
    modules := h.modules
    imported := h.imported
    classes := h.classes }

/-- A check leaves its surroundings as they are, error or not. An expression changes no binding. A
statement changes only those of the names that it declares, outside the bodies of functions and
classes nested in it, and removes none. Modules stay imported and classes registered. -/
theorem surroundings_kept (c : Context) :
    (∀ e : Expr, (stateAfter (typeOf e c)).scope = c.scope ∧
      c.Keeps [] (stateAfter (typeOf e c))) ∧
    ∀ s : Stmt, c.Keeps s.declared (stateAfter (checkStatement s c)) := by
  constructor
  · intro e
    have hkeeps : c.Keeps [] (stateAfter (typeOf e c)) :=
      moves_checkExpr framing_keeps (moves_checkNested framing_keeps _) e c
    exact ⟨hkeeps.untouched rfl, hkeeps⟩
  · intro s
    exact moves_checkStmt framing_keeps (moves_checkNested framing_keeps _) s c

end Scriptlet.Typing
