import Mathlib.Data.List.Forall2
import Scriptlet.Proofs.Typing.Annotation
import Scriptlet.Proofs.Typing.Built

/-!
Two checks of the same tree, side by side. The contexts that they begin in are related: what one
looks up, the other finds too, with a type that is alike. The steps of a check keep that relation.
How much alike types have to be, and whether the checks share their faults too, is up to a
`Comparison`.
-/
namespace Scriptlet

namespace Ty

mutual

/-- Types that are the same are written in the same way. -/
theorem text_eq_of_same {t u : Ty} (h : t.same u = true) : t.text = u.text := by
  match t, u with
  | .named a, .named b => simpa only [same, beq_iff_eq, text] using h
  | .list a, .list b =>
    simp only [same] at h
    rw [text, text, text_eq_of_same h]
  | .function ps r, .function qs s =>
    simp only [same, Bool.and_eq_true] at h
    rw [text, text, texts_eq_of_sameAll h.1, text_eq_of_same h.2]
  | .struct a _, .struct b _ => simpa only [same, beq_iff_eq, text] using h

theorem texts_eq_of_sameAll {ts us : List Ty} (h : sameAll ts us = true) :
    texts ts = texts us := by
  match ts, us with
  | [], [] => rfl
  | t :: ts, u :: us =>
    simp only [sameAll, Bool.and_eq_true] at h
    rw [texts, texts, text_eq_of_same h.1, texts_eq_of_sameAll h.2]

end

/-- Comparing gives the same for types that are the same. -/
theorem beq_congr {t t' u u' : Ty} (ht : t.same t' = true) (hu : u.same u' = true) :
    (t == u) = (t' == u') := by
  rw [beq_congr_left ht]
  change t'.same u = t'.same u'
  rw [same_comm t', same_comm t']
  exact beq_congr_left hu

def members : Ty → List (String × Ty)
  | .struct _ members => members
  | _ => []

theorem BuiltFrom.members {leaf struct : String → Prop} {t : Ty} (h : t.BuiltFrom leaf struct) :
    MembersBuiltFrom leaf struct t.members := by
  cases t with
  | struct => exact h.2
  | named | list | function => trivial

theorem member?_eq_lookup (t : Ty) (name : String) : t.member? name = t.members.lookup name := by
  cases t <;> rfl

end Ty

namespace Typing

/-- The classes that are known, with their structs. -/
abbrev Classes := Std.TreeMap String Ty

/-- What two checks have in common. -/
structure Comparison where
  /-- Both have the same faults. Otherwise the second check only has to succeed if the first does,
  but then types are alike only if they are equal. -/
  strict : Prop
  /-- The named types that occur. -/
  leaf : String → Prop
  /-- The structs that occur in annotations. -/
  given : String → Prop
  /-- Classes that the second check may know besides. -/
  around : Classes
  primitive : ∀ name ∈ Ty.primitives, leaf name
  struct : ∀ name members, (Ty.struct name members).BuiltFrom (fun _ => True) given →
    (Ty.struct name members).BuiltFrom leaf given
  alone : strict → ∀ name : String, around[name]? = none

/-- The comparison of checks that have the same faults and know the same classes. -/
def Comparison.strictly (leaf given : String → Prop)
    (primitive : ∀ name ∈ Ty.primitives, leaf name)
    (struct : ∀ name members, (Ty.struct name members).BuiltFrom (fun _ => True) given →
      (Ty.struct name members).BuiltFrom leaf given) : Comparison where
  strict := True
  leaf := leaf
  given := given
  around := {}
  primitive := primitive
  struct := struct
  alone _ _ := Std.TreeMap.getElem?_emptyc

/-- Where the first has something the second has what is related to it, and elsewhere the other. -/
def Beside {α : Type} (R : α → α → Prop) (other : Option α) : Option α → Option α → Prop
  | some a, second => ∃ b, second = some b ∧ R a b
  | none, second => second = other

theorem Beside.imp {α : Type} {R S : α → α → Prop} {other first second : Option α}
    (h : Beside R other first second) (hRS : ∀ a b, R a b → S a b) :
    Beside S other first second := by
  cases first with
  | some a =>
    obtain ⟨b, hb, hab⟩ := h
    exact ⟨b, hb, hRS a b hab⟩
  | none => exact h

theorem Beside.left {α : Type} {R : α → α → Prop} {other first second : Option α}
    (h : Beside R other first second) {a : α} (ha : first = some a) :
    ∃ b, second = some b ∧ R a b := by
  subst ha
  exact h

theorem Beside.eq_other {α : Type} {R : α → α → Prop} {other first second : Option α}
    (h : Beside R other first second) (hfirst : first = none) : second = other := by
  subst hfirst
  exact h

theorem Beside.right {α : Type} {R : α → α → Prop} {other first second : Option α}
    (h : Beside R other first second) (hother : other = none) {b : α} (hb : second = some b) :
    ∃ a, first = some a ∧ R a b := by
  cases first with
  | some a =>
    obtain ⟨b', hb', hab⟩ := h
    cases hb.symm.trans hb'
    exact ⟨a, rfl, hab⟩
  | none => cases (hb.symm.trans h).trans hother

/-- More classes are known in both. -/
structure Later (K L K' L' : Classes) : Prop where
  left : ∀ name, name ∈ K → name ∈ K'
  right : ∀ name, name ∈ L → name ∈ L'

theorem Later.refl (K L : Classes) : Later K L K L := ⟨fun _ h => h, fun _ h => h⟩

theorem Later.trans {K L K' L' K'' L'' : Classes} (h : Later K L K' L')
    (h' : Later K' L' K'' L'') : Later K L K'' L'' :=
  ⟨fun name hname => h'.left name (h.left name hname),
    fun name hname => h'.right name (h.right name hname)⟩

namespace Comparison

variable (M : Comparison)

/-- An annotation that the trees may have. -/
def Permits (t : Ty) : Prop := t.BuiltFrom (fun _ => True) M.given

section Alike

variable (K L : Classes)

/-- Types that compare as the same, where the structs in each are known to its check. -/
structure Alike (t u : Ty) : Prop where
  same : t.same u = true
  eq : ¬ M.strict → t = u
  left : t.BuiltFrom M.leaf (· ∈ K)
  right : u.BuiltFrom M.leaf (· ∈ L)

/-- Members of the same names, in the same order, with types that are alike. -/
def AlikeMembers : List (String × Ty) → List (String × Ty) → Prop :=
  List.Forall₂ fun m n => m.1 = n.1 ∧ M.Alike K L m.2 n.2

structure AlikeClass (t u : Ty) : Prop extends M.Alike K L t u where
  members : M.AlikeMembers K L t.members u.members

structure AlikeSymbol (r s : Symbol) : Prop where
  type : M.Alike K L r.type s.type
  constant : r.constant = s.constant

def AlikeScope (base scope scope' : Scope) : Prop :=
  ∀ name : String, Beside (M.AlikeSymbol K L) base[name]? scope[name]? scope'[name]?

inductive AlikeReturns : ReturnContext → ReturnContext → Prop
  | topLevel : AlikeReturns .topLevel .topLevel
  | function {r s : Option Ty} (h : Option.Rel (M.Alike K L) r s) :
      AlikeReturns (.function r) (.function s)

structure AlikeSignature (s s' : Signature) : Prop where
  parameters : M.AlikeMembers K L s.parameters s'.parameters
  result : M.Alike K L s.result s'.result
  declared : Option.Rel (M.Alike K L) s.declared s'.declared

end Alike

/-- The contexts of the two checks. Names that only the second has in scope are those of `base`, and
it has them as they are there. -/
structure Related (base : Scope) (c d : Context) : Prop where
  scope : M.AlikeScope c.classes d.classes base c.scope d.scope
  returns : M.AlikeReturns c.classes d.classes c.returns d.returns
  enclosing : d.enclosing = c.enclosing
  opened : ∀ opened, c.enclosing = some opened →
    Stmt.EveryOf M.Permits M.strict opened.body.body
  imported : M.strict → ∀ name, name ∈ d.imported ↔ name ∈ c.imported
  modules : M.strict → ∀ name, name ∈ d.modules ↔ name ∈ c.modules
  classes : ∀ name : String,
    Beside (M.AlikeClass c.classes d.classes) M.around[name]? c.classes[name]? d.classes[name]?
  given : ∀ name, M.given name → name ∈ c.classes ∧ name ∈ d.classes
  alone : M.strict → ∀ name : String, base[name]? = none

/-- How the checks end that began in these contexts: both succeed, with results that `P` relates, or
both have the same fault. Where the comparison is not strict, nothing more is said once the first
has a fault. -/
inductive Agree {α : Type} (base : Scope) (c d : Context)
    (P : Classes → Classes → α → α → Prop) :
    EStateM.Result Diagnostic Context α → EStateM.Result Diagnostic Context α → Prop
  | ok {a b c' d'} (related : M.Related base c' d')
      (later : Later c.classes d.classes c'.classes d'.classes)
      (result : P c'.classes d'.classes a b) : Agree base c d P (.ok a c') (.ok b d')
  | error {x c' d'} (related : M.Related base c' d')
      (later : Later c.classes d.classes c'.classes d'.classes) :
      Agree base c d P (.error x c') (.error x d')
  | refused {x c' result} (h : ¬ M.strict) : Agree base c d P (.error x c') result

/-- Of a result nothing is said. -/
def Any {α : Type} (_ _ : Classes) (_ _ : α) : Prop := True

end Comparison

namespace Comparison

variable {M : Comparison} {K L K' L' : Classes} {base : Scope} {c d : Context}

section Alike

variable {t u : Ty}

theorem Alike.mono (h : M.Alike K L t u) (hl : Later K L K' L') : M.Alike K' L' t u :=
  ⟨h.same, h.eq, h.left.mono (fun _ h => h) hl.left, h.right.mono (fun _ h => h) hl.right⟩

theorem alike_named {name : String} (h : M.leaf name) : M.Alike K L (.named name) (.named name) :=
  ⟨Ty.same_refl _, fun _ => rfl, h, h⟩

theorem alike_primitive {name : String} (h : name ∈ Ty.primitives) :
    M.Alike K L (.named name) (.named name) := alike_named (M.primitive name h)

theorem alike_list_iff : M.Alike K L (.list t) (.list u) ↔ M.Alike K L t u := by
  constructor
  · exact fun ⟨hsame, heq, hleft, hright⟩ =>
      ⟨hsame, fun h => Ty.list.inj (heq h), hleft, hright⟩
  · exact fun ⟨hsame, heq, hleft, hright⟩ =>
      ⟨hsame, fun h => congrArg Ty.list (heq h), hleft, hright⟩

theorem forall₂_alike_iff {ts us : List Ty} :
    List.Forall₂ (M.Alike K L) ts us ↔
      Ty.sameAll ts us = true ∧ (¬ M.strict → ts = us) ∧
        Ty.AllBuiltFrom M.leaf (· ∈ K) ts ∧ Ty.AllBuiltFrom M.leaf (· ∈ L) us := by
  induction ts generalizing us with
  | nil => cases us <;> simp [Ty.sameAll, Ty.AllBuiltFrom]
  | cons t ts ih =>
    cases us with
    | nil => simp [Ty.sameAll]
    | cons u us =>
      rw [List.forall₂_cons, ih]
      simp only [Ty.sameAll, Bool.and_eq_true, Ty.AllBuiltFrom, List.cons.injEq]
      constructor
      · rintro ⟨⟨hsame, heq, hleft, hright⟩, hsames, heqs, hlefts, hrights⟩
        exact ⟨⟨hsame, hsames⟩, fun h => ⟨heq h, heqs h⟩, ⟨hleft, hlefts⟩, hright, hrights⟩
      · rintro ⟨⟨hsame, hsames⟩, heq, ⟨hleft, hlefts⟩, hright, hrights⟩
        exact ⟨⟨hsame, fun h => (heq h).1, hleft, hright⟩, hsames, fun h => (heq h).2, hlefts,
          hrights⟩

theorem alike_function_iff {ps qs : List Ty} {r s : Ty} :
    M.Alike K L (.function ps r) (.function qs s) ↔
      List.Forall₂ (M.Alike K L) ps qs ∧ M.Alike K L r s := by
  rw [forall₂_alike_iff]
  constructor
  · rintro ⟨hsame, heq, hleft, hright⟩
    rw [Ty.same, Bool.and_eq_true] at hsame
    exact ⟨⟨hsame.1, fun h => (Ty.function.inj (heq h)).1, hleft.1, hright.1⟩, hsame.2,
      fun h => (Ty.function.inj (heq h)).2, hleft.2, hright.2⟩
  · rintro ⟨⟨hsames, heqs, hlefts, hrights⟩, hsame, heq, hleft, hright⟩
    refine ⟨?_, fun h => ?_, ⟨hlefts, hleft⟩, hrights, hright⟩
    · rw [Ty.same, hsames, hsame]
      rfl
    · rw [heqs h, heq h]

/-- Types that are alike are of one shape. -/
inductive Shape (M : Comparison) (K L : Classes) : Ty → Ty → Prop
  | named (name : String) : Shape M K L (.named name) (.named name)
  | list {t u : Ty} (h : M.Alike K L t u) : Shape M K L (.list t) (.list u)
  | function {ps qs : List Ty} {r s : Ty} (hparameters : List.Forall₂ (M.Alike K L) ps qs)
      (hresult : M.Alike K L r s) : Shape M K L (.function ps r) (.function qs s)
  | struct {name : String} (members members' : List (String × Ty)) (hleft : name ∈ K)
      (hright : name ∈ L) : Shape M K L (.struct name members) (.struct name members')

theorem Alike.shape (h : M.Alike K L t u) : Shape M K L t u := by
  match t, u, h.same with
  | .named a, .named b, hsame =>
    rw [Ty.same, beq_iff_eq] at hsame
    exact hsame ▸ .named a
  | .list t, .list u, _ => exact .list (alike_list_iff.mp h)
  | .function ps r, .function qs s, _ =>
    obtain ⟨hparameters, hresult⟩ := alike_function_iff.mp h
    exact .function hparameters hresult
  | .struct a members, .struct b members', hsame =>
    rw [Ty.same, beq_iff_eq] at hsame
    subst hsame
    exact .struct members members' h.left.1 h.right.1

theorem AlikeMembers.mono {ms ns : List (String × Ty)} (h : M.AlikeMembers K L ms ns)
    (hl : Later K L K' L') : M.AlikeMembers K' L' ms ns :=
  List.Forall₂.imp (fun _ _ hmember => ⟨hmember.1, hmember.2.mono hl⟩) h

theorem AlikeMembers.types {ms ns : List (String × Ty)} (h : M.AlikeMembers K L ms ns) :
    List.Forall₂ (M.Alike K L) (ms.map (·.2)) (ns.map (·.2)) := by
  rw [List.forall₂_map_left_iff, List.forall₂_map_right_iff]
  exact List.Forall₂.imp (fun _ _ hmember => hmember.2) h

theorem AlikeMembers.lookup {ms ns : List (String × Ty)} (h : M.AlikeMembers K L ms ns)
    (name : String) : Option.Rel (M.Alike K L) (ms.lookup name) (ns.lookup name) := by
  induction h with
  | nil => exact .none
  | @cons m n ms ns hmember _ ih =>
    rw [List.lookup_cons, List.lookup_cons, ← hmember.1]
    cases name == m.1 with
    | true => exact .some hmember.2
    | false => exact ih

/-- Structs with members that are alike are so too, where they are known. -/
theorem AlikeMembers.struct {ms ns : List (String × Ty)} (h : M.AlikeMembers K L ms ns)
    {name : String} (hleft : name ∈ K) (hright : name ∈ L) :
    M.AlikeClass K L (.struct name ms) (.struct name ns) := by
  have hparts : (¬ M.strict → ms = ns) ∧ Ty.MembersBuiltFrom M.leaf (· ∈ K) ms ∧
      Ty.MembersBuiltFrom M.leaf (· ∈ L) ns := by
    induction h with
    | nil => exact ⟨fun _ => rfl, trivial, trivial⟩
    | @cons m n ms ns hmember _ ih =>
      refine ⟨fun hlax => ?_, ⟨hmember.2.left, ih.2.1⟩, hmember.2.right, ih.2.2⟩
      rw [ih.1 hlax, Prod.ext hmember.1 (hmember.2.eq hlax)]
  refine ⟨⟨?_, fun hlax => ?_, ⟨hleft, hparts.2.1⟩, hright, hparts.2.2⟩, h⟩
  · simp [Ty.same]
  · rw [hparts.1 hlax]

theorem AlikeClass.mono (h : M.AlikeClass K L t u) (hl : Later K L K' L') :
    M.AlikeClass K' L' t u :=
  ⟨h.toAlike.mono hl, h.members.mono hl⟩

theorem AlikeClass.member? (h : M.AlikeClass K L t u) (name : String) :
    Option.Rel (M.Alike K L) (t.member? name) (u.member? name) := by
  rw [Ty.member?_eq_lookup, Ty.member?_eq_lookup]
  exact h.members.lookup name

theorem rel_mono {r s : Option Ty} (h : Option.Rel (M.Alike K L) r s) (hl : Later K L K' L') :
    Option.Rel (M.Alike K' L') r s := by
  cases h with
  | none => exact .none
  | some h => exact .some (h.mono hl)

theorem rel_getD {r s : Option Ty} (h : Option.Rel (M.Alike K L) r s) :
    M.Alike K L (r.getD .void) (s.getD .void) := by
  cases h with
  | none => exact alike_primitive (by decide)
  | some h => exact h

theorem AlikeSymbol.eq {r s : Symbol} (h : M.AlikeSymbol K L r s) (hlax : ¬ M.strict) : r = s := by
  obtain ⟨type, constant⟩ := r
  obtain ⟨type', constant'⟩ := s
  exact congr (congrArg Symbol.mk (h.type.eq hlax)) h.constant

theorem AlikeScope.mono {scope scope' : Scope} (h : M.AlikeScope K L base scope scope')
    (hl : Later K L K' L') : M.AlikeScope K' L' base scope scope' :=
  fun name => (h name).imp fun _ _ hs => ⟨hs.type.mono hl, hs.constant⟩

theorem AlikeScope.insert {scope scope' : Scope} (h : M.AlikeScope K L base scope scope')
    {s s' : Symbol} (hs : M.AlikeSymbol K L s s') (name : String) :
    M.AlikeScope K L base (scope.insert name s) (scope'.insert name s') := by
  intro other
  by_cases heq : name = other
  · simp [heq, Beside, hs]
  · simpa [Std.TreeMap.getElem?_insert, heq] using h other

theorem AlikeReturns.mono {r s : ReturnContext} (h : M.AlikeReturns K L r s)
    (hl : Later K L K' L') : M.AlikeReturns K' L' r s := by
  cases h with
  | topLevel => exact .topLevel
  | function h => exact .function (rel_mono h hl)

theorem AlikeReturns.left {r s : ReturnContext} (h : M.AlikeReturns K L r s) {t : Ty}
    (hr : r = .function (some t)) : t.BuiltFrom M.leaf (· ∈ K) := by
  subst hr
  cases h with
  | function h => cases h with
    | some ht => exact ht.left

theorem AlikeReturns.right {r s : ReturnContext} (h : M.AlikeReturns K L r s) {u : Ty}
    (hs : s = .function (some u)) : u.BuiltFrom M.leaf (· ∈ L) := by
  subst hs
  cases h with
  | function h => cases h with
    | some ht => exact ht.right

theorem AlikeSignature.type {s s' : Signature} (h : M.AlikeSignature K L s s') :
    M.Alike K L s.type s'.type := alike_function_iff.mpr ⟨h.parameters.types, h.result⟩

theorem AlikeSignature.mono {s s' : Signature} (h : M.AlikeSignature K L s s')
    (hl : Later K L K' L') : M.AlikeSignature K' L' s s' :=
  ⟨h.parameters.mono hl, h.result.mono hl, rel_mono h.declared hl⟩

/-- The bodies of functions with signatures that are alike begin in scopes that are so. -/
theorem AlikeSignature.scope {s s' : Signature} (h : M.AlikeSignature K L s s') :
    M.AlikeScope K L {} s.scope s'.scope := by
  have hfold {ms ns : List (String × Ty)} (hms : M.AlikeMembers K L ms ns) {scope scope' : Scope}
      (hscope : M.AlikeScope K L {} scope scope') :
      M.AlikeScope K L {} (ms.foldl (fun scope m => scope.insert m.1 ⟨m.2, false⟩) scope)
        (ns.foldl (fun scope n => scope.insert n.1 ⟨n.2, false⟩) scope') := by
    induction hms generalizing scope scope' with
    | nil => exact hscope
    | @cons m n _ _ hmember _ ih =>
      have hsymbol : M.AlikeSymbol K L ⟨m.2, false⟩ ⟨n.2, false⟩ := ⟨hmember.2, rfl⟩
      rw [List.foldl_cons, List.foldl_cons, ← hmember.1]
      exact ih (hscope.insert hsymbol m.1)
  exact hfold h.parameters fun name => by simp [Beside]

/-- The members of a class are alike if its body leaves scopes that are. -/
theorem AlikeScope.members {scope scope' : Scope} (h : M.AlikeScope K L {} scope scope')
    (body : List Stmt) : M.AlikeMembers K L (members body scope) (members body scope') := by
  rw [Typing.members, Typing.members]
  generalize body.filterMap memberName? = names
  induction names with
  | nil => exact .nil
  | cons name names ih =>
    have hname := h name
    cases hs : scope[name]? with
    | none =>
      rw [hs] at hname
      have hs' : scope'[name]? = none := hname.trans (by simp)
      simpa [hs, hs'] using ih
    | some s =>
      rw [hs] at hname
      obtain ⟨s', hs', hsymbol⟩ := hname
      have hfirst : name = name ∧ M.Alike K L s.type s'.type := ⟨rfl, hsymbol.type⟩
      simpa [hs, hs', AlikeMembers, hfirst] using ih

end Alike

section Related

theorem Related.declare (h : M.Related base c d) {s s' : Symbol}
    (hs : M.AlikeSymbol c.classes d.classes s s') (name : String) :
    M.Related base { c with scope := c.scope.insert name s }
      { d with scope := d.scope.insert name s' } :=
  { h with scope := h.scope.insert hs name }

/-- The body of a function begins in related contexts. -/
theorem Related.enterFunction (h : M.Related base c d) {scope scope' : Scope}
    (hscope : M.AlikeScope c.classes d.classes {} scope scope') {r r' : Option Ty}
    (hresult : Option.Rel (M.Alike c.classes d.classes) r r') :
    M.Related {} { c with scope, returns := .function r }
      { d with scope := scope', returns := .function r' } :=
  { h with scope := hscope, returns := .function hresult, alone := fun _ _ => by simp }

/-- Behind it the scope is that from before the body, where types are still alike. -/
theorem Related.leaveFunction (h : M.Related base c d) {c' d' : Context}
    (h' : M.Related {} c' d') (hl : Later c.classes d.classes c'.classes d'.classes) :
    M.Related base { c' with scope := c.scope, returns := c.returns }
      { d' with scope := d.scope, returns := d.returns } :=
  { h' with scope := h.scope.mono hl, returns := h.returns.mono hl, alone := h.alone }

theorem Related.enterClass (h : M.Related base c d) {opened : OpenClass}
    (hopened : Stmt.EveryOf M.Permits M.strict opened.body.body) :
    M.Related {} { c with scope := {}, enclosing := some opened }
      { d with scope := {}, enclosing := some opened } :=
  { h with
    scope := fun _ => by simp [Beside]
    enclosing := rfl
    opened := fun _ heq => Option.some.inj heq ▸ hopened
    alone := fun _ _ => by simp }

theorem Related.leaveClass (h : M.Related base c d) {c' d' : Context}
    (h' : M.Related {} c' d') (hl : Later c.classes d.classes c'.classes d'.classes) :
    M.Related base { c' with scope := c.scope, enclosing := c.enclosing }
      { d' with scope := d.scope, enclosing := d.enclosing } :=
  { h' with
    scope := h.scope.mono hl
    enclosing := h.enclosing
    opened := h.opened
    alone := h.alone }

theorem later_insert (K L : Classes) (name : String) (t u : Ty) :
    Later K L (K.insert name t) (L.insert name u) :=
  ⟨fun _ h => Std.TreeMap.mem_insert.mpr (.inr h), fun _ h => Std.TreeMap.mem_insert.mpr (.inr h)⟩

theorem Related.registerClass (h : M.Related base c d) {ms ns : List (String × Ty)}
    (hmembers : M.AlikeMembers c.classes d.classes ms ns) (name : String) :
    M.Related base { c with classes := c.classes.insert name (.struct name ms) }
      { d with classes := d.classes.insert name (.struct name ns) } := by
  have hl := later_insert c.classes d.classes name (.struct name ms) (.struct name ns)
  have hclass : M.AlikeClass (c.classes.insert name (.struct name ms))
      (d.classes.insert name (.struct name ns)) (.struct name ms) (.struct name ns) :=
    (hmembers.mono hl).struct Std.TreeMap.mem_insert_self Std.TreeMap.mem_insert_self
  refine { h with
    scope := h.scope.mono hl
    returns := h.returns.mono hl
    classes := fun other => ?_
    given := fun other hother =>
      ⟨hl.left other (h.given other hother).1, hl.right other (h.given other hother).2⟩ }
  by_cases heq : name = other
  · subst heq
    simp [Beside, hclass]
  · have hother := (h.classes other).imp fun _ _ hclass => hclass.mono hl
    simpa [Std.TreeMap.getElem?_insert, heq] using hother

end Related

section Agree

variable {α β : Type} {P : Classes → Classes → α → α → Prop} {Q : Classes → Classes → β → β → Prop}

theorem Agree.bind {x y : Check α} {f g : α → Check β} (hx : M.Agree base c d P (x c) (y d))
    (hf : ∀ a b c' d', M.Related base c' d' →
      Later c.classes d.classes c'.classes d'.classes → P c'.classes d'.classes a b →
        M.Agree base c' d' Q (f a c') (g b d')) :
    M.Agree base c d Q ((x >>= f) c) ((y >>= g) d) := by
  generalize hrun : x c = result, hrun' : y d = result' at hx
  cases hx with
  | ok h hl hP =>
    rw [bind_run_ok hrun, bind_run_ok hrun']
    have hrest := hf _ _ _ _ h hl hP
    generalize hlast : f _ _ = last, hlast' : g _ _ = last' at hrest
    cases hrest with
    | ok h' hl' hQ => exact .ok h' (hl.trans hl') hQ
    | error h' hl' => exact .error h' (hl.trans hl')
    | refused hlax => exact .refused hlax
  | error h hl =>
    rw [bind_run_error hrun, bind_run_error hrun']
    exact .error h hl
  | refused hlax =>
    rw [bind_run_error hrun]
    exact .refused hlax

theorem Agree.pure (h : M.Related base c d) {a b : α} (hP : P c.classes d.classes a b) :
    M.Agree base c d P ((pure a : Check α) c) ((pure b : Check α) d) :=
  .ok h (.refl _ _) hP

theorem Agree.mono {P' : Classes → Classes → α → α → Prop}
    {r s : EStateM.Result Diagnostic Context α} (h : M.Agree base c d P r s)
    (hP : ∀ K L a b, P K L a b → P' K L a b) : M.Agree base c d P' r s := by
  cases h with
  | ok h hl ha => exact .ok h hl (hP _ _ _ _ ha)
  | error h hl => exact .error h hl
  | refused hlax => exact .refused hlax

theorem Agree.throw (h : M.Related base c d) {x y : Diagnostic} (hxy : x = y) :
    M.Agree base c d P ((throw x : Check α) c) ((throw y : Check α) d) :=
  hxy ▸ .error h (.refl _ _)

end Agree

end Comparison

end Typing

end Scriptlet
