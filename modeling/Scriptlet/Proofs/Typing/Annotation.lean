import Scriptlet.Proofs.Typing.Frame

namespace Scriptlet

namespace Ty

mutual

theorem same_refl (t : Ty) : t.same t = true := by
  match t with
  | .named name => simp [same]
  | .list item => simpa only [same] using same_refl item
  | .function parameters result =>
    simp only [same, sameAll_refl parameters, same_refl result, Bool.and_self]
  | .struct name members => simp [same]

theorem sameAll_refl (ts : List Ty) : sameAll ts ts = true := by
  match ts with
  | [] => rfl
  | t :: ts => simp only [sameAll, same_refl t, sameAll_refl ts, Bool.and_self]

end

mutual

theorem same_comm (t u : Ty) : t.same u = u.same t := by
  match t, u with
  | .named a, .named b => simp only [same, Bool.beq_comm]
  | .list a, .list b => simpa only [same] using same_comm a b
  | .function ps r, .function qs s => simp only [same, sameAll_comm ps qs, same_comm r s]
  | .struct a _, .struct b _ => simp only [same, Bool.beq_comm]
  | .named _, .list _ | .named _, .function _ _ | .named _, .struct _ _ | .list _, .named _
  | .list _, .function _ _ | .list _, .struct _ _ | .function _ _, .named _
  | .function _ _, .list _ | .function _ _, .struct _ _ | .struct _ _, .named _
  | .struct _ _, .list _ | .struct _ _, .function _ _ => rfl

theorem sameAll_comm (ts us : List Ty) : sameAll ts us = sameAll us ts := by
  match ts, us with
  | [], [] => rfl
  | [], _ :: _ => rfl
  | _ :: _, [] => rfl
  | t :: ts, u :: us => simp only [sameAll, same_comm t u, sameAll_comm ts us]

end

mutual

theorem same_trans {t u v : Ty} (h : t.same u = true) (h' : u.same v = true) :
    t.same v = true := by
  match t, u, v with
  | .named a, .named b, .named c =>
    simp only [same, beq_iff_eq] at h h' ⊢
    rw [h, h']
  | .list a, .list b, .list c =>
    simp only [same] at h h' ⊢
    exact same_trans h h'
  | .function ps r, .function qs s, .function rs t =>
    simp only [same, Bool.and_eq_true] at h h' ⊢
    exact ⟨sameAll_trans h.1 h'.1, same_trans h.2 h'.2⟩
  | .struct a _, .struct b _, .struct c _ =>
    simp only [same, beq_iff_eq] at h h' ⊢
    rw [h, h']

theorem sameAll_trans {ts us vs : List Ty} (h : sameAll ts us = true)
    (h' : sameAll us vs = true) : sameAll ts vs = true := by
  match ts, us, vs with
  | [], [], [] => rfl
  | t :: ts, u :: us, v :: vs =>
    simp only [sameAll, Bool.and_eq_true] at h h' ⊢
    exact ⟨same_trans h.1 h'.1, sameAll_trans h.2 h'.2⟩

end

theorem beq_equivalence : Equivalence fun t u : Ty => (t == u) = true where
  refl := same_refl
  symm h := (same_comm _ _).trans h
  trans h h' := same_trans h h'

/-- What is the same as one of two types that are the same is the same as the other. -/
theorem beq_congr_left {t u v : Ty} (h : t.same u = true) : (t == v) = (u == v) := by
  change t.same v = u.same v
  rw [Bool.eq_iff_iff]
  constructor
  · intro ht
    rw [same_comm] at h
    exact same_trans h ht
  · exact same_trans h

end Ty

namespace Typing

/-- The second context knows the classes of the first, both under their names. -/
structure Context.KnownIn (c d : Context) : Prop where
  classes : ∀ name, name ∈ c.classes → name ∈ d.classes
  named : c.Named
  named' : d.Named

theorem Context.KnownIn.trans {b c d : Context} (h : b.KnownIn c) (h' : c.KnownIn d) :
    b.KnownIn d :=
  ⟨fun name hname => h'.classes name (h.classes name hname), h.named, h'.named'⟩

theorem Context.Leads.knownIn {c d : Context} (h : c.Leads d) (hc : c.Named) : c.KnownIn d :=
  ⟨h.classes, hc, h.named hc⟩

theorem classType_known {c d : Context} (h : c.KnownIn d) {name : String} {position : Position}
    {t : Ty} {c' : Context} (ht : classType name position c = .ok t c') (position' : Position) :
    ∃ u, classType name position' d = .ok u d ∧ t.same u = true := by
  rw [classType, get_bind_run] at ht
  cases hname : c.classes[name]? with
  | none => simp [hname] at ht
  | some type =>
    simp only [hname] at ht
    cases ht
    have hmem : name ∈ d.classes := by
      apply h.classes
      rw [Std.TreeMap.mem_iff_isSome_getElem?, hname]
      rfl
    rw [Std.TreeMap.mem_iff_isSome_getElem?, Option.isSome_iff_exists] at hmem
    obtain ⟨u, hu⟩ := hmem
    refine ⟨u, ?_, ?_⟩
    · rw [classType, get_bind_run, hu]
      rfl
    · obtain ⟨members, rfl⟩ := h.named name t hname
      obtain ⟨members', rfl⟩ := h.named' name u hu
      simp [Ty.same]

-- The context only matters for the names of classes; what is resolved to is compared by them.
mutual

theorem resolve_known {c d : Context} (h : c.KnownIn d) {position : Position} (type : Ty) {t : Ty}
    {c' : Context} (ht : resolve position type c = .ok t c') (position' : Position) :
    ∃ u, resolve position' type d = .ok u d ∧ t.same u = true := by
  match type with
  | .named name =>
    rw [resolve] at ht ⊢
    by_cases hprimitive : name ∈ Ty.primitives
    · rw [if_pos hprimitive] at ht ⊢
      cases ht
      exact ⟨_, rfl, Ty.same_refl _⟩
    · rw [if_neg hprimitive] at ht ⊢
      exact classType_known h ht position'
  | .list item =>
    rw [resolve] at ht ⊢
    obtain ⟨t, c'', hitem, ht⟩ := bind_run_eq_ok_iff.mp ht
    obtain ⟨u, hu, hsame⟩ := resolve_known h item hitem position'
    cases ht
    rw [bind_run_ok hu]
    exact ⟨_, rfl, hsame⟩
  | .function parameters result =>
    rw [resolve] at ht ⊢
    obtain ⟨ts, hparameters, ht⟩ := (still_resolveAll position parameters).bind_eq_ok ht
    obtain ⟨t, c'', hresult, ht⟩ := bind_run_eq_ok_iff.mp ht
    obtain ⟨us, hus, hall⟩ := resolveAll_known h parameters hparameters position'
    obtain ⟨u, hu, hsame⟩ := resolve_known h result hresult position'
    cases ht
    rw [bind_run_ok hus, bind_run_ok hu]
    refine ⟨_, rfl, ?_⟩
    simp only [Ty.same, hall, hsame, Bool.and_self]
  | .struct name members =>
    rw [resolve] at ht ⊢
    cases ht
    exact ⟨_, rfl, Ty.same_refl _⟩

theorem resolveAll_known {c d : Context} (h : c.KnownIn d) {position : Position} (types : List Ty)
    {ts : List Ty} {c' : Context} (ht : resolveAll position types c = .ok ts c')
    (position' : Position) :
    ∃ us, resolveAll position' types d = .ok us d ∧ Ty.sameAll ts us = true := by
  match types with
  | [] =>
    rw [resolveAll] at ht ⊢
    cases ht
    exact ⟨_, rfl, rfl⟩
  | type :: types =>
    rw [resolveAll] at ht ⊢
    obtain ⟨t, hfirst, ht⟩ := (still_resolve position type).bind_eq_ok ht
    obtain ⟨ts, c'', hrest, ht⟩ := bind_run_eq_ok_iff.mp ht
    obtain ⟨u, hu, hsame⟩ := resolve_known h type hfirst position'
    obtain ⟨us, hus, hall⟩ := resolveAll_known h types hrest position'
    cases ht
    rw [bind_run_ok hu, bind_run_ok hus]
    refine ⟨_, rfl, ?_⟩
    simp only [Ty.sameAll, hsame, hall, Bool.and_self]

end

/-- There are as many types as annotations. -/
theorem resolveAll_length {position : Position} {types ts : List Ty} {c c' : Context}
    (h : resolveAll position types c = .ok ts c') : ts.length = types.length := by
  induction types generalizing ts c with
  | nil =>
    cases h
    rfl
  | cons type types ih =>
    rw [resolveAll] at h
    obtain ⟨t, c₁, -, h⟩ := bind_run_eq_ok_iff.mp h
    obtain ⟨rest, c₂, hrest, h⟩ := bind_run_eq_ok_iff.mp h
    cases h
    rw [List.length_cons, List.length_cons, ih hrest]

theorem signature_type (parameters : List Parameter) (result : Option Ty) (position : Position) :
    (do return (← signature parameters result position).type) =
      resolve position (annotationOf parameters result) := by
  funext c
  rw [signature, annotationOf, resolve, bind_assoc]
  cases hparameters : resolveAll position (parameters.map (·.type)) c with
  | error d c' => rw [bind_run_error hparameters, bind_run_error hparameters]
  | ok types c' =>
    have hlength : types.length = (parameters.map (·.name)).length := by
      rw [resolveAll_length hparameters, List.length_map, List.length_map]
    have htypes : ((parameters.map (·.name)).zip types).map (·.2) = types :=
      List.map_snd_zip (Nat.le_of_eq hlength)
    rw [bind_run_ok hparameters, bind_run_ok hparameters, bind_assoc]
    cases result with
    | none =>
      have hvoid : resolve position Ty.void c' = .ok .void c' := by
        rw [Ty.void, resolve, if_pos (by decide)]
        rfl
      rw [resolve?, Option.getD_none, bind_run_ok hvoid, pure_bind_run]
      simp only [Signature.type, htypes, pure_bind_run, Option.getD_none]
    | some result =>
      rw [resolve?, Option.getD_some, bind_assoc]
      cases hresult : resolve position result c' with
      | error d c'' => rw [bind_run_error hresult, bind_run_error hresult]
      | ok type c'' =>
        rw [bind_run_ok hresult, bind_run_ok hresult]
        simp only [Signature.type, htypes, pure_bind_run, Option.getD_some]

end Typing

end Scriptlet
