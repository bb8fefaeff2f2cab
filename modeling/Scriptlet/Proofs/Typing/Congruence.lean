import Scriptlet.Proofs.Typing.Lockstep

namespace Scriptlet.Typing

open Comparison

/-- Types of a class that compare as the same, with members of the same names in the same order. -/
structure SameClass (t u : Ty) : Prop where
  same : (t == u) = true
  members : List.Forall₂ (fun m n => m.1 = n.1 ∧ (m.2 == n.2) = true) t.members u.members

structure SameSymbol (r s : Symbol) : Prop where
  type : (r.type == s.type) = true
  constant : r.constant = s.constant

inductive SameReturns : ReturnContext → ReturnContext → Prop
  | topLevel : SameReturns .topLevel .topLevel
  | function {r s : Option Ty} (h : Option.Rel (fun t u => (t == u) = true) r s) :
      SameReturns (.function r) (.function s)

namespace Context

/-- Every struct that occurs in the type is that of a class that is known. -/
def Knows (c : Context) (t : Ty) : Prop := t.BuiltFrom (fun _ => True) (· ∈ c.classes)

/-- The classes of all structs that occur in the context are known. -/
structure Registered (c : Context) : Prop where
  scope : ∀ (name : String) (s : Symbol), c.scope[name]? = some s → c.Knows s.type
  returns : ∀ t, c.returns = .function (some t) → c.Knows t
  classes : ∀ (name : String) (t : Ty), c.classes[name]? = some t → c.Knows t
  enclosing : ∀ opened, c.enclosing = some opened →
    Stmt.EveryOf c.Knows True opened.body.body

/-- The contexts are the same but for types, which compare as the same. All structs in them are
known. -/
structure Interchangeable (c d : Context) : Prop where
  scope : ∀ name : String, Option.Rel SameSymbol c.scope[name]? d.scope[name]?
  returns : SameReturns c.returns d.returns
  enclosing : d.enclosing = c.enclosing
  imported : ∀ name, name ∈ d.imported ↔ name ∈ c.imported
  modules : ∀ name, name ∈ d.modules ↔ name ∈ c.modules
  classes : ∀ name : String, Option.Rel SameClass c.classes[name]? d.classes[name]?
  left : c.Registered
  right : d.Registered

end Context

/-- Checks that both fail, with the same fault, or both succeed, with results so related. They leave
interchangeable contexts. -/
def SameOutcome {α : Type} (P : α → α → Prop) :
    EStateM.Result Diagnostic Context α → EStateM.Result Diagnostic Context α → Prop
  | .ok a c, .ok b d => P a b ∧ c.Interchangeable d
  | .error x c, .error y d => x = y ∧ c.Interchangeable d
  | _, _ => False

/-- The comparison by `==`, for trees with structs in annotations that this context knows. -/
def Context.byName (c : Context) : Comparison :=
  .strictly (fun _ => True) (· ∈ c.classes) (fun _ _ => trivial) fun _ _ h => h

section Between

variable {b c d : Context}

theorem beside_none_iff {α : Type} {R : α → α → Prop} {r s : Option α} :
    Beside R none r s ↔ Option.Rel R r s := by
  cases r with
  | none => cases s <;> simp [Beside]
  | some a => cases s <;> simp [Beside]

theorem alike_byName_iff {K L : Classes} {t u : Ty} :
    b.byName.Alike K L t u ↔ (t == u) = true ∧ t.BuiltFrom (fun _ => True) (· ∈ K) ∧
      u.BuiltFrom (fun _ => True) (· ∈ L) :=
  ⟨fun h => ⟨h.same, h.left, h.right⟩,
    fun ⟨hsame, hleft, hright⟩ => ⟨hsame, fun hlax => absurd trivial hlax, hleft, hright⟩⟩

theorem alikeClass_byName_iff {K L : Classes} {t u : Ty} :
    b.byName.AlikeClass K L t u ↔ SameClass t u ∧ t.BuiltFrom (fun _ => True) (· ∈ K) ∧
      u.BuiltFrom (fun _ => True) (· ∈ L) := by
  have hmembers {ms ns : List (String × Ty)} : b.byName.AlikeMembers K L ms ns ↔
      List.Forall₂ (fun m n => m.1 = n.1 ∧ (m.2 == n.2) = true) ms ns ∧
        Ty.MembersBuiltFrom (fun _ => True) (· ∈ K) ms ∧
          Ty.MembersBuiltFrom (fun _ => True) (· ∈ L) ns := by
    induction ms generalizing ns with
    | nil => cases ns <;> simp [AlikeMembers, Ty.MembersBuiltFrom]
    | cons m ms ih =>
      cases ns with
      | nil => simp [AlikeMembers]
      | cons n ns =>
        rw [AlikeMembers, List.forall₂_cons, ← AlikeMembers, ih, List.forall₂_cons,
          alike_byName_iff, Ty.MembersBuiltFrom, Ty.MembersBuiltFrom]
        tauto
  constructor
  · intro h
    exact ⟨⟨h.same, (hmembers.mp h.members).1⟩, h.left, h.right⟩
  · rintro ⟨hsame, hleft, hright⟩
    exact ⟨alike_byName_iff.mpr ⟨hsame.same, hleft, hright⟩,
      hmembers.mpr ⟨hsame.members, hleft.members, hright.members⟩⟩

theorem Context.Interchangeable.mem_iff (h : c.Interchangeable d) (name : String) :
    name ∈ d.classes ↔ name ∈ c.classes := by
  have hname := h.classes name
  rw [Std.TreeMap.mem_iff_isSome_getElem?, Std.TreeMap.mem_iff_isSome_getElem?]
  generalize c.classes[name]? = r, d.classes[name]? = s at hname
  cases hname <;> rfl

theorem rel_of_rel {α : Type} {R S : α → α → Prop} {r s : Option α} (h : Option.Rel R r s)
    (hRS : ∀ a b, r = some a → s = some b → R a b → S a b) : Option.Rel S r s := by
  cases h with
  | none => exact .none
  | some hab => exact .some (hRS _ _ rfl rfl hab)

theorem Context.Interchangeable.related (h : c.Interchangeable d) :
    c.byName.Related {} c d where
  scope name := by
    rw [Std.TreeMap.getElem?_emptyc, beside_none_iff]
    refine rel_of_rel (h.scope name) fun r s hr hs hsame => ⟨?_, hsame.constant⟩
    exact alike_byName_iff.mpr ⟨hsame.type, h.left.scope name r hr, h.right.scope name s hs⟩
  returns := by
    have hleft := h.left.returns
    have hright := h.right.returns
    have hreturns := h.returns
    generalize c.returns = r, d.returns = s at hreturns hleft hright
    cases hreturns with
    | topLevel => exact .topLevel
    | function hrel =>
      refine .function (rel_of_rel hrel fun t u ht hu hsame => ?_)
      exact alike_byName_iff.mpr ⟨hsame, hleft t (ht ▸ rfl), hright u (hu ▸ rfl)⟩
  enclosing := h.enclosing
  opened := h.left.enclosing
  imported _ := h.imported
  modules _ := h.modules
  classes name := by
    have hnone : c.byName.around[name]? = none := c.byName.alone trivial name
    rw [hnone, beside_none_iff]
    refine rel_of_rel (h.classes name) fun t u ht hu hsame => ?_
    exact alikeClass_byName_iff.mpr ⟨hsame, h.left.classes name t ht, h.right.classes name u hu⟩
  given name hname := ⟨hname, (h.mem_iff name).mpr hname⟩
  alone _ _ := Std.TreeMap.getElem?_emptyc

/-- All structs in related contexts are known, in the first and in the second. -/
theorem registered_of_related (h : b.byName.Related {} c d) : c.Registered ∧ d.Registered := by
  have hopened (opened : OpenClass) (hc : c.enclosing = some opened) :
      Stmt.EveryOf c.Knows True opened.body.body ∧ Stmt.EveryOf d.Knows True opened.body.body := by
    have hbody := h.opened opened hc
    have hleft (t : Ty) (ht _ : b.byName.Permits t) : c.Knows t :=
      ht.mono (fun _ h => h) fun name hname => (h.given name hname).1
    have hright (t : Ty) (ht _ : b.byName.Permits t) : d.Knows t :=
      ht.mono (fun _ h => h) fun name hname => (h.given name hname).2
    exact ⟨Stmt.everyOf_of_both hleft (fun _ h => h) _ hbody hbody,
      Stmt.everyOf_of_both hright (fun _ h => h) _ hbody hbody⟩
  constructor
  · constructor
    · intro name r hr
      obtain ⟨s, _, hs⟩ := (h.scope name).left hr
      exact hs.type.left
    · exact fun t ht => h.returns.left ht
    · intro name t ht
      obtain ⟨u, _, hu⟩ := (h.classes name).left ht
      exact hu.left
    · exact fun opened hc => (hopened opened hc).1
  · constructor
    · intro name s hs
      obtain ⟨r, _, hr⟩ := (h.scope name).right (h.alone trivial name) hs
      exact hr.type.right
    · exact fun u hu => h.returns.right hu
    · intro name u hu
      obtain ⟨t, _, ht⟩ := (h.classes name).right (b.byName.alone trivial name) hu
      exact ht.right
    · exact fun opened hd => (hopened opened (h.enclosing ▸ hd)).2

theorem interchangeable_of_related (h : b.byName.Related {} c d) : c.Interchangeable d where
  scope name := by
    have hname := h.scope name
    rw [h.alone trivial name, beside_none_iff] at hname
    exact rel_of_rel hname fun _ _ _ _ hs => ⟨hs.type.same, hs.constant⟩
  returns := by
    have hreturns := h.returns
    generalize c.returns = r, d.returns = s at hreturns
    cases hreturns with
    | topLevel => exact .topLevel
    | function hrel => exact .function (rel_of_rel hrel fun _ _ _ _ ht => ht.same)
  enclosing := h.enclosing
  imported := h.imported trivial
  modules := h.modules trivial
  classes name := by
    have hname := h.classes name
    rw [b.byName.alone trivial name, beside_none_iff] at hname
    exact rel_of_rel hname fun _ _ _ _ hclass => (alikeClass_byName_iff.mp hclass).1
  left := (registered_of_related h).1
  right := (registered_of_related h).2

theorem sameOutcome_of_agree {α : Type} {P : Classes → Classes → α → α → Prop}
    {Q : α → α → Prop} {result result' : EStateM.Result Diagnostic Context α}
    (h : b.byName.Agree {} c d P result result') (hPQ : ∀ K L a a', P K L a a' → Q a a') :
    SameOutcome Q result result' := by
  cases h with
  | ok h _ ha => exact ⟨hPQ _ _ _ _ ha, interchangeable_of_related h⟩
  | error h _ => exact ⟨rfl, interchangeable_of_related h⟩
  | refused hlax => exact absurd trivial hlax

end Between

/-- Comparing structs by name is sound for checks. It is an equivalence, and a congruence: in
interchangeable contexts the checks of an expression or a statement have the same outcome. -/
theorem interchangeable_checks_agree :
    Equivalence (fun t u : Ty => (t == u) = true) ∧
    ∀ c d : Context, c.Interchangeable d →
      (∀ e : Expr, e.Every c.Knows True →
        SameOutcome (fun t u => (t == u) = true) (typeOf e c) (typeOf e d)) ∧
      ∀ s : Stmt, s.Every c.Knows True →
        SameOutcome (fun _ _ => True) (checkStatement s c) (checkStatement s d) := by
  refine ⟨Ty.beq_equivalence, fun c d h => ⟨?_, ?_⟩⟩
  · intro e he
    rw [typeOf, withRereading, withRereading, h.enclosing]
    apply sameOutcome_of_agree (agree_checkExpr (agreeing_checkNested c.byName _) e he h.related)
    exact fun _ _ _ _ ht => ht.same
  · intro s hs
    rw [checkStatement, withRereading, withRereading, h.enclosing]
    apply sameOutcome_of_agree (agree_checkStmt (agreeing_checkNested c.byName _) s hs h.related)
    exact fun _ _ _ _ _ => trivial

/-- A class `P` with a member `x` is known, and the variable `p` holds this view of it. -/
def Context.holding (view : List (String × Ty)) : Context where
  scope := ({} : Scope).insert "p" ⟨.struct "P" view, false⟩
  returns := .topLevel
  enclosing := none
  imported := {}
  modules := {}
  classes := ({} : Classes).insert "P" (.struct "P" [("x", .int)])

theorem getElem?_single_iff {α : Type} {key name : String} {a b : α} :
    (({} : Std.TreeMap String α).insert key a)[name]? = some b ↔ key = name ∧ a = b := by
  by_cases heq : key = name <;> simp [heq]

theorem Context.registered_holding {view : List (String × Ty)}
    (hview : Ty.MembersBuiltFrom (fun _ => True) (· ∈ (holding view).classes) view) :
    (holding view).Registered where
  scope name s hs := by
    obtain ⟨-, rfl⟩ := getElem?_single_iff.mp hs
    exact ⟨Std.TreeMap.mem_insert_self, hview⟩
  returns _ ht := by cases ht
  classes name t ht := by
    obtain ⟨-, rfl⟩ := getElem?_single_iff.mp ht
    exact ⟨Std.TreeMap.mem_insert_self, trivial, trivial⟩
  enclosing _ hopened := by cases hopened

/-- The variable may hold the view without the member: `p.x` is found in the class. -/
theorem interchangeable_checks_agree_views :
    (Context.holding []).Interchangeable (Context.holding [("x", .int)]) ∧
      typeOf (.member (.symbol "p" default) "x" default) (Context.holding []) =
        .ok .int (Context.holding []) ∧
      SameOutcome (fun t u => (t == u) = true)
        (typeOf (.member (.symbol "p" default) "x" default) (Context.holding []))
        (typeOf (.member (.symbol "p" default) "x" default) (Context.holding [("x", .int)])) := by
  have hsymbol : SameSymbol ⟨.struct "P" [], false⟩ ⟨.struct "P" [("x", .int)], false⟩ :=
    ⟨rfl, rfl⟩
  have hclass (name : String) :
      SameClass (.struct name [("x", .int)]) (.struct name [("x", .int)]) :=
    ⟨Ty.same_refl _, .cons ⟨rfl, rfl⟩ .nil⟩
  have h : (Context.holding []).Interchangeable (Context.holding [("x", .int)]) := by
    refine ⟨fun name => ?_, .topLevel, rfl, fun _ => .rfl, fun _ => .rfl, fun name => ?_,
      Context.registered_holding trivial, Context.registered_holding ⟨trivial, trivial⟩⟩
    · by_cases heq : "p" = name <;> simp [Context.holding, heq, hsymbol]
    · by_cases heq : "P" = name <;> simp [Context.holding, heq, hclass]
  exact ⟨h, rfl, (interchangeable_checks_agree.2 _ _ h).1 _ trivial⟩

end Scriptlet.Typing
