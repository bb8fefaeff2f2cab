import Mathlib.Algebra.BigOperators.Group.List.Lemmas
import Mathlib.Algebra.Ring.Nat
import Scriptlet.Machine.Heap

namespace Scriptlet

theorem Object.released?_eq_none {o : Object} (h : o.released? = none) : o.count ≤ 1 := by
  rw [released?] at h
  split at h
  · assumption
  · cases h

theorem Object.released?_eq_some {o o' : Object} (h : o.released? = some o') :
    1 < o.count ∧ o' = { o with count := o.count - 1 } := by
  rw [released?] at h
  split at h
  · cases h
  · exact ⟨by omega, (Option.some.inj h).symm⟩

namespace Heap

/-- Every object has a handle of its own, and none of the handles that are still to come. -/
structure Sound (h : Heap) : Prop where
  nodup : (h.objects.map (·.1)).Nodup
  fresh : ∀ handle ∈ h.objects.map (·.1), handle.id < h.nextId

theorem mem_keys_iff (objects : List (Handle × Object)) (handle : Handle) :
    handle ∈ objects.map (·.1) ↔ (objects.lookup handle).isSome := by
  induction objects with
  | nil => simp
  | cons entry rest ih =>
    obtain ⟨key, object⟩ := entry
    by_cases hk : handle = key
    · simp [hk]
    · have hne : (handle == key) = false := beq_eq_false_iff_ne.mpr hk
      rw [List.map_cons, List.mem_cons, List.lookup_cons, hne, ih]
      simp [hk]

theorem Sound.id_lt {h : Heap} (hh : h.Sound) {handle : Handle} {object : Object}
    (hg : h.get? handle = some object) : handle.id < h.nextId := by
  apply hh.fresh
  rw [mem_keys_iff]
  exact Option.isSome_of_eq_some hg

theorem Sound.get?_of_mem {h : Heap} (hh : h.Sound) {entry : Handle × Object}
    (hmem : entry ∈ h.objects) : h.get? entry.1 = some entry.2 := by
  obtain ⟨before, behind, hsplit⟩ := List.append_of_mem hmem
  refine List.lookup_eq_some_iff.mpr ⟨before, behind, hsplit, ?_⟩
  intro other hother
  have hn := hh.nodup
  rw [hsplit, List.map_append, List.map_cons, List.nodup_append] at hn
  exact bne_iff_ne.mpr
    (Ne.symm (hn.2.2 _ (List.mem_map_of_mem hother) _ List.mem_cons_self))

/-- The references to all objects, added up along their handles. -/
theorem Sound.references_eq_sum {h : Heap} (hh : h.Sound) {f : Handle → Nat}
    (hf : ∀ handle object, h.get? handle = some object → object.count = f handle) :
    h.references = ((h.objects.map (·.1)).map f).sum := by
  rw [references, List.map_map, List.sum_eq_foldr, List.foldr_map]
  apply List.foldr_ext
  intro entry hmem n
  rw [hf entry.1 entry.2 (hh.get?_of_mem hmem)]
  rfl

section alter

variable (change : Object → Option Object) (handle : Handle)

/-- Handles may go, but none comes. -/
theorem keys_alter_sublist (objects : List (Handle × Object)) :
    ((alter change handle objects).map (·.1)).Sublist (objects.map (·.1)) := by
  induction objects with
  | nil => exact .slnil
  | cons entry rest ih =>
    obtain ⟨key, object⟩ := entry
    rw [alter]
    split
    · cases change object with
      | none => exact .cons _ (.refl _)
      | some object' => exact .refl _
    · exact ih.cons_cons key

/-- Only the one object is changed. -/
theorem lookup_alter (other : Handle) {objects : List (Handle × Object)}
    (hn : (objects.map (·.1)).Nodup) :
    (alter change handle objects).lookup other =
      if other = handle then (objects.lookup handle).bind change else objects.lookup other := by
  induction objects with
  | nil => simp [alter]
  | cons entry rest ih =>
    obtain ⟨key, object⟩ := entry
    obtain ⟨hkey, hrest⟩ := List.nodup_cons.mp hn
    rw [alter]
    by_cases hk : key = handle
    · subst hk
      -- The handle is not listed again, so an object that goes leaves nothing behind.
      have hnone : rest.lookup key = none := by
        rw [mem_keys_iff] at hkey
        exact Option.not_isSome_iff_eq_none.mp hkey
      rw [if_pos rfl, List.lookup_cons_self, Option.bind_some]
      by_cases ho : other = key
      · subst ho
        cases change object <;> simp [hnone]
      · have hne : (other == key) = false := beq_eq_false_iff_ne.mpr ho
        rw [if_neg ho, List.lookup_cons, hne]
        cases change object <;> simp [List.lookup_cons, hne]
    · have hne : (handle == key) = false := beq_eq_false_iff_ne.mpr (Ne.symm hk)
      rw [if_neg hk, List.lookup_cons, ih hrest, List.lookup_cons (a := handle), hne]
      by_cases ho : other = key
      · subst ho
        simp [hk]
      · have hne' : (other == key) = false := beq_eq_false_iff_ne.mpr ho
        rw [hne', List.lookup_cons, hne']

end alter

/-- If the one object gets at most one reference more, so do all together. -/
theorem references_alter_le {change : Object → Option Object}
    (hchange : ∀ o o', change o = some o' → o'.count ≤ o.count + 1) (handle : Handle) (h : Heap) :
    ({ h with objects := alter change handle h.objects } : Heap).references ≤ h.references + 1 := by
  simp only [references]
  induction h.objects with
  | nil => exact Nat.zero_le _
  | cons entry rest ih =>
    obtain ⟨key, object⟩ := entry
    rw [alter]
    split
    · cases ho : change object with
      | none =>
        change rest.foldr _ 0 ≤ object.count + rest.foldr _ 0 + 1
        omega
      | some object' =>
        have hle := hchange object object' ho
        change object'.count + rest.foldr _ 0 ≤ object.count + rest.foldr _ 0 + 1
        omega
    · rw [List.foldr_cons, List.foldr_cons, Nat.add_assoc]
      exact Nat.add_le_add_left ih _

variable {h h' : Heap}

theorem Sound.alter (hh : h.Sound) (change : Object → Option Object) (handle : Handle) :
    Sound { h with objects := Heap.alter change handle h.objects } :=
  ⟨(keys_alter_sublist change handle h.objects).nodup hh.nodup,
    fun other hmem => hh.fresh other ((keys_alter_sublist change handle h.objects).subset hmem)⟩

theorem sound_empty : Sound empty := ⟨List.nodup_nil, fun _ hmem => nomatch hmem⟩

theorem Sound.allocate (hh : h.Sound) (value : Int64) : (h.allocate value).2.Sound := by
  refine ⟨List.nodup_cons.mpr ⟨fun hmem => ?_, hh.nodup⟩, fun handle hmem => ?_⟩
  · exact Nat.lt_irrefl _ (hh.fresh _ hmem)
  · rcases List.mem_cons.mp hmem with rfl | hmem
    · exact Nat.lt_succ_self _
    · exact Nat.lt_succ_of_lt (hh.fresh handle hmem)

theorem get?_allocate (value : Int64) (other : Handle) :
    (h.allocate value).2.get? other =
      if other = (h.allocate value).1 then some ⟨value, 1⟩ else h.get? other := by
  rw [get?, Heap.allocate]
  by_cases ho : other = ⟨h.nextId⟩
  · rw [if_pos ho, ho, List.lookup_cons_self]
  · have hne : (other == (⟨h.nextId⟩ : Handle)) = false := beq_eq_false_iff_ne.mpr ho
    rw [if_neg ho, List.lookup_cons, hne]
    rfl

/-- An object that is retained has one reference more. -/
theorem retain?_spec (hh : h.Sound) {handle : Handle} {object : Object}
    (ho : h.get? handle = some object) :
    ∃ h', h.retain? handle = some h' ∧ h'.Sound ∧ h'.nextId = h.nextId ∧ ∀ other, h'.get? other =
      if other = handle then some { object with count := object.count + 1 } else h.get? other := by
  refine ⟨_, by rw [retain?, ho, Option.map_some], hh.alter _ handle, rfl, fun other => ?_⟩
  rw [get?, lookup_alter _ handle other hh.nodup]
  change h.objects.lookup handle = some object at ho
  rw [ho]
  rfl

/-- An object that is released has one reference less, and is gone with the last one. -/
theorem release?_spec (hh : h.Sound) {handle : Handle} {object : Object}
    (ho : h.get? handle = some object) :
    ∃ h', h.release? handle = some (object.value, h') ∧ h'.Sound ∧ h'.nextId = h.nextId ∧
      ∀ other, h'.get? other = if other = handle then object.released? else h.get? other := by
  refine ⟨_, by rw [release?, ho, Option.map_some], hh.alter _ handle, rfl, fun other => ?_⟩
  rw [get?, lookup_alter _ handle other hh.nodup]
  change h.objects.lookup handle = some object at ho
  rw [ho]
  rfl

end Heap

end Scriptlet
