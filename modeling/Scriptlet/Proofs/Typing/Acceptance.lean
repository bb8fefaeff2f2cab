import Scriptlet.Proofs.Typing.Outline

namespace Scriptlet

/-- What is known at a place of a program: the names declared in the body so far, the last first,
the kinds of bodies around, and the modules imported and classes known in the whole text so far. -/
structure Place where
  declared : List (String × Bool)
  inClass : Bool
  inFunction : Bool
  foreseen : List String
  imported : List String
  classes : List String

namespace Place

/-- Nothing is known at the start of a program. -/
def start : Place := ⟨[], false, false, [], [], []⟩

/-- At the start of the body of a function. -/
def enterFunction (p : Place) (parameters : List String) : Place :=
  { p with declared := parameters.map (·, false), inFunction := true }

/-- At the start of the body of a class. -/
def enterClass (p : Place) (foreseen : List String) : Place :=
  { p with declared := [], inClass := true, foreseen }

/-- Behind a body that ends at the other place. -/
def leave (p inner : Place) : Place :=
  { p with imported := inner.imported, classes := inner.classes }

end Place

mutual

/-- The event is in order at the first place, and the second is behind it. -/
inductive Allows : Place → Event → Place → Prop
  | declares (p : Place) (name : String) (constant : Bool) :
      Allows p (.declares name constant) { p with declared := (name, constant) :: p.declared }
  | refers {p : Place} {name : String} (h : (p.declared.lookup name).isSome) :
      Allows p (.refers name) p
  | assigns {p : Place} {name : String} (h : p.declared.lookup name ≠ some true) :
      Allows p (.assigns name) p
  | self {p : Place} (h : p.inClass) : Allows p .self p
  | mentions (p : Place) : Allows p .mentions { p with classes := p.foreseen ++ p.classes }
  | returns {p : Place} (h : p.inFunction) : Allows p .returns p
  | imports {p : Place} {name : String} (hknown : name ∈ Typing.Context.fresh.modules)
      (hnew : name ∉ p.imported) :
      Allows p (.imports name) { p with imported := name :: p.imported }
  | introduces (p : Place) (name : String) :
      Allows p (.introduces name) { p with classes := name :: p.classes }
  | names {p : Place} {name : String} (h : name ∈ p.classes) : Allows p (.names name) p
  | function {p inner : Place} {parameters : List String} {body : List Event}
      (h : Accepts (p.enterFunction parameters) body inner) :
      Allows p (.function parameters body) (p.leave inner)
  | members {p inner : Place} {foreseen : List String} {body : List Event}
      (h : Accepts (p.enterClass foreseen) body inner) :
      Allows p (.members foreseen body) (p.leave inner)

/-- The events are in order one after another. -/
inductive Accepts : Place → List Event → Place → Prop
  | nil (p : Place) : Accepts p [] p
  | cons {p p' p'' : Place} {e : Event} {es : List Event} (h : Allows p e p')
      (h' : Accepts p' es p'') : Accepts p (e :: es) p''

end

theorem Allows.accepts {p p' : Place} {e : Event} (h : Allows p e p') : Accepts p [e] p' :=
  .cons h (.nil p')

namespace Accepts

variable {p p' p'' : Place} {es fs : List Event}

theorem append_iff : Accepts p (es ++ fs) p'' ↔ ∃ p', Accepts p es p' ∧ Accepts p' fs p'' := by
  induction es generalizing p with
  | nil =>
    constructor
    · exact fun h => ⟨p, .nil p, h⟩
    · rintro ⟨_, ⟨⟩, h⟩
      exact h
  | cons e es ih =>
    constructor
    · rintro (_ | ⟨he, h⟩)
      obtain ⟨p', h₁, h₂⟩ := ih.mp h
      exact ⟨p', .cons he h₁, h₂⟩
    · rintro ⟨p', _ | ⟨he, h₁⟩, h₂⟩
      exact .cons he (ih.mpr ⟨p', h₁, h₂⟩)

theorem append (h : Accepts p es p') (h' : Accepts p' fs p'') : Accepts p (es ++ fs) p'' :=
  append_iff.mpr ⟨p', h, h'⟩

/-- What is known where an event is reached allows it. -/
theorem at_event {e : Event} (h : Accepts p (es ++ e :: fs) p'') :
    ∃ p₁ p₂, Accepts p es p₁ ∧ Allows p₁ e p₂ := by
  obtain ⟨p₁, h₁, _ | ⟨he, -⟩⟩ := append_iff.mp h
  exact ⟨p₁, _, h₁, he⟩

end Accepts

-- The derivations are nested as the bodies are.
mutual

/-- What has been imported stays so. -/
theorem Allows.imported_subset {p p' : Place} {e : Event} (h : Allows p e p') :
    p.imported ⊆ p'.imported := by
  cases h with
  | imports => exact List.subset_cons_self _ _
  | function h | members h => exact h.imported_subset
  | declares | refers | assigns | self | mentions | returns | introduces | names =>
    exact List.Subset.refl _

theorem Accepts.imported_subset {p p' : Place} {es : List Event} (h : Accepts p es p') :
    p.imported ⊆ p'.imported := by
  cases h with
  | nil => exact List.Subset.refl _
  | cons he hes => exact List.Subset.trans he.imported_subset hes.imported_subset

end

section Body

/-- Events only add declarations, and leave what is around the body. -/
theorem Allows.frame {p p' : Place} {e : Event} (h : Allows p e p') :
    p'.declared = e.declaration?.toList ++ p.declared ∧ p'.inClass = p.inClass ∧
      p'.inFunction = p.inFunction ∧ p'.foreseen = p.foreseen := by
  cases h <;> exact ⟨rfl, rfl, rfl, rfl⟩

theorem Accepts.frame {p p' : Place} {es : List Event} (h : Accepts p es p') :
    p'.declared = (es.filterMap Event.declaration?).reverse ++ p.declared ∧
      p'.inClass = p.inClass ∧ p'.inFunction = p.inFunction ∧ p'.foreseen = p.foreseen := by
  induction es generalizing p with
  | nil =>
    cases h
    exact ⟨rfl, rfl, rfl, rfl⟩
  | cons e es ih =>
    obtain _ | ⟨he, hes⟩ := h
    obtain ⟨hdeclared, hclass, hfunction, hforeseen⟩ := he.frame
    obtain ⟨hdeclared', hclass', hfunction', hforeseen'⟩ := ih hes
    refine ⟨?_, hclass'.trans hclass, hfunction'.trans hfunction, hforeseen'.trans hforeseen⟩
    rw [hdeclared', hdeclared, List.filterMap_cons]
    cases e.declaration? <;> simp

/-- The place is at the start of the body. -/
structure Place.Opens (p : Place) (body : Body) : Prop where
  declared : p.declared = body.parameters.map (·, false)
  inClass : p.inClass = body.inClass
  inFunction : p.inFunction = body.inFunction

/-- Going through a body goes through those nested in it. -/
theorem Accepts.nested {outer inner : Body} (hholds : outer.Holds inner) {p p' : Place}
    (hp : p.Opens outer) (h : Accepts p outer.events p') :
    ∃ q q', q.Opens inner ∧ Accepts q inner.events q' := by
  -- Each step goes on at the event that the nested body belongs to, with what is known there.
  induction hholds generalizing p p' with
  | refl => exact ⟨p, p', hp, h⟩
  | function hmem _ ih =>
    obtain ⟨before, after, hsplit⟩ := List.append_of_mem hmem
    rw [hsplit] at h
    obtain ⟨p₁, p₂, hbefore, he⟩ := h.at_event
    obtain ⟨-, hclass, -, -⟩ := hbefore.frame
    cases he with
    | function hbody => exact ih (p := p₁.enterFunction _) ⟨rfl, hclass.trans hp.inClass, rfl⟩ hbody
  | members hmem _ ih =>
    obtain ⟨before, after, hsplit⟩ := List.append_of_mem hmem
    rw [hsplit] at h
    obtain ⟨p₁, p₂, hbefore, he⟩ := h.at_event
    obtain ⟨-, -, hfunction, -⟩ := hbefore.frame
    cases he with
    | members hbody =>
      exact ih (p := p₁.enterClass _) ⟨rfl, rfl, hfunction.trans hp.inFunction⟩ hbody

theorem Accepts.inOrder {body : Body} {p p' : Place} (hp : p.Opens body)
    {before after : List Event} {e : Event} (hsplit : body.events = before ++ e :: after)
    (h : Accepts p body.events p') : e.InOrder body before := by
  rw [hsplit] at h
  obtain ⟨p₁, p₂, hbefore, he⟩ := h.at_event
  obtain ⟨hdeclared, hclass, hfunction, -⟩ := hbefore.frame
  rw [hp.declared] at hdeclared
  cases he with
  | @refers _ name hname =>
    -- Whatever is known as declared is a parameter, or one of the events before has declared it.
    obtain ⟨constant, hconstant⟩ := Option.isSome_iff_exists.mp hname
    obtain ⟨l₁, l₂, hl, -⟩ := List.lookup_eq_some_iff.mp hconstant
    have hmem : (name, constant) ∈ p₁.declared := by
      rw [hl]
      exact List.mem_append_right _ List.mem_cons_self
    rw [hdeclared, List.mem_append, List.mem_reverse, List.mem_filterMap, List.mem_map] at hmem
    rcases hmem with ⟨e', hmem, he'⟩ | ⟨parameter, hmem, heq⟩
    · cases e' with
      | declares =>
        cases he'
        exact .inr ⟨constant, hmem⟩
      | _ => cases he'
    · cases heq
      exact .inl hmem
  | assigns hname =>
    intro hlatest
    rw [hdeclared, List.lookup_append] at hname
    rw [Event.latest?] at hlatest
    rw [hlatest] at hname
    exact hname rfl
  | self hin => rwa [hclass, hp.inClass] at hin
  | returns hin => rwa [hfunction, hp.inFunction] at hin
  | declares | mentions | imports | introduces | names | function | members => trivial

end Body

section Marks

/-- The marks are in order one after another, behind those before them. -/
def Mark.AllInOrder (before : List Mark) : List Mark → Prop
  | [] => True
  | mark :: marks => mark.InOrder before ∧ Mark.AllInOrder (before ++ [mark]) marks

theorem Mark.allInOrder_append (before xs ys : List Mark) :
    Mark.AllInOrder before (xs ++ ys) ↔
      Mark.AllInOrder before xs ∧ Mark.AllInOrder (before ++ xs) ys := by
  induction xs generalizing before with
  | nil => simp [Mark.AllInOrder]
  | cons x xs ih =>
    simp only [List.cons_append, Mark.AllInOrder, ih, and_assoc, List.append_assoc,
      List.nil_append]

theorem Mark.Known.append {before : List Mark} {name : String} (h : Mark.Known before name)
    (behind : List Mark) : Mark.Known (before ++ behind) name := by
  rcases h with hmem | ⟨foreseen, hmem, hname⟩
  · exact .inl (List.mem_append_left _ hmem)
  · exact .inr ⟨foreseen, List.mem_append_left _ hmem, hname⟩

/-- The marks so far account for the modules and classes that are known at the place. -/
structure Place.Marked (p : Place) (before : List Mark) : Prop where
  imported : ∀ name, .imports name ∈ before → name ∈ p.imported
  classes : ∀ name ∈ p.classes, Mark.Known before name

theorem Place.Marked.snoc {p : Place} {before : List Mark} (hp : p.Marked before)
    (mark : Mark) (hmark : ∀ name, mark ≠ .imports name) : p.Marked (before ++ [mark]) := by
  constructor
  · intro name hname
    rcases List.mem_append.mp hname with hname | hname
    · exact hp.imported name hname
    · exact absurd (List.mem_singleton.mp hname).symm (hmark name)
  · exact fun name hname => (hp.classes name hname).append _

mutual

theorem Allows.marked {p p' : Place} {e : Event} (h : Allows p e p') {before : List Mark}
    (hp : p.Marked before) : p'.Marked (before ++ e.marks p.foreseen) ∧
      Mark.AllInOrder before (e.marks p.foreseen) := by
  cases h with
  | declares | refers | assigns | self | returns =>
    rw [Event.marks, List.append_nil]
    exact ⟨⟨hp.imported, hp.classes⟩, trivial⟩
  | mentions =>
    have hmore := hp.snoc (.foresees p.foreseen) (fun _ h => nomatch h)
    refine ⟨⟨hmore.imported, fun name hname => ?_⟩, trivial, trivial⟩
    rcases List.mem_append.mp hname with hname | hname
    · exact .inr ⟨p.foreseen, List.mem_append_right _ (List.mem_singleton_self _), hname⟩
    · exact hmore.classes name hname
  | @imports _ name hknown hnew =>
    refine ⟨⟨fun other hother => ?_, fun other hother => ?_⟩,
      ⟨hknown, fun hmem => hnew (hp.imported name hmem)⟩, trivial⟩
    · rcases List.mem_append.mp hother with hother | hother
      · exact List.mem_cons_of_mem _ (hp.imported other hother)
      · cases List.mem_singleton.mp hother
        exact List.mem_cons_self
    · exact (hp.classes other hother).append _
  | introduces _ name =>
    have hmore := hp.snoc (.introduces name) (fun _ h => nomatch h)
    refine ⟨⟨hmore.imported, fun other hother => ?_⟩, trivial, trivial⟩
    rcases List.mem_cons.mp hother with rfl | hother
    · exact .inl (List.mem_append_right _ (List.mem_singleton_self _))
    · exact hmore.classes other hother
  | names hname => exact ⟨hp.snoc _ (fun _ h => nomatch h), hp.classes _ hname, trivial⟩
  | function hbody =>
    obtain ⟨hinner, horder⟩ :=
      hbody.marked (show Place.Marked _ before from ⟨hp.imported, hp.classes⟩)
    exact ⟨⟨hinner.imported, hinner.classes⟩, horder⟩
  | members hbody =>
    obtain ⟨hinner, horder⟩ :=
      hbody.marked (show Place.Marked _ before from ⟨hp.imported, hp.classes⟩)
    exact ⟨⟨hinner.imported, hinner.classes⟩, horder⟩

theorem Accepts.marked {p p' : Place} {es : List Event} (h : Accepts p es p') {before : List Mark}
    (hp : p.Marked before) : p'.Marked (before ++ Event.marksOf p.foreseen es) ∧
      Mark.AllInOrder before (Event.marksOf p.foreseen es) := by
  cases h with
  | nil =>
    rw [Event.marksOf, List.append_nil]
    exact ⟨hp, trivial⟩
  | @cons _ p₁ _ e es he hes =>
    obtain ⟨hmiddle, horder⟩ := he.marked hp
    obtain ⟨hend, horder'⟩ := hes.marked hmiddle
    obtain ⟨-, -, -, hforeseen⟩ := he.frame
    rw [hforeseen] at hend horder'
    rw [Event.marksOf, Mark.allInOrder_append, ← List.append_assoc]
    exact ⟨hend, horder, horder'⟩

end

end Marks

/-- A program is well scoped if its outline can be gone through. -/
theorem Accepts.wellScoped {program : Block} {p : Place}
    (h : Accepts .start (Stmt.outlineOf program.body) p) : program.WellScoped := by
  constructor
  · intro inner hinner before e after hsplit
    have hstart : Place.start.Opens program.outline := ⟨rfl, rfl, rfl⟩
    obtain ⟨q, q', hq, haccepts⟩ := Accepts.nested hinner hstart h
    exact haccepts.inOrder hq hsplit
  · intro before mark after hsplit
    have hstart : Place.start.Marked [] :=
      ⟨fun _ h => (nomatch h), fun _ h => (nomatch h)⟩
    have horder : Mark.AllInOrder [] program.marks := (h.marked hstart).2
    rw [hsplit, Mark.allInOrder_append, List.nil_append] at horder
    exact horder.2.1

end Scriptlet
